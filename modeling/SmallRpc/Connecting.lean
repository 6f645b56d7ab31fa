import SmallRpc.FirstCall

/-! The attempt to connect behind an asynchronous client. `getsockopt(SO_ERROR)` hands out
the error of the attempt once; the client keeps nothing of it. -/
namespace SmallRpc
open Runs

inductive Attempt where
  | inProgress
  | succeeded
  | failed
  deriving DecidableEq, Repr

/-- `soError` tells that an error is pending on the socket. -/
structure Connecting where
  client : PbClient
  attempt : Attempt
  soError : Bool := false
  deriving DecidableEq, Repr

inductive ConnectMove where
  | settle (ok : Bool)
  | client (m : ClientMove)
  deriving DecidableEq, Repr

namespace PbClient

/-- `getsockopt` is called: the event comes to a client that is not connected. -/
def Asks (w : PbClient) : ClientMove → Prop
  | .event events _ _ _ => events.epollin = false ∧ events.epollout = true ∧
      w.conn.connected = false ∧ .clientConn ∈ w.conn.callbacks
  | _ => False

/-- `write_fd` is called. -/
def Writes (w : PbClient) : ClientMove → Prop
  | .event events _ _ _ => events.epollin = false ∧ events.epollout = true ∧ w.conn.connected = true
  | _ => False

/-- `CallMethod` may be called whenever the last call of it has returned. -/
def Ready (w : PbClient) : ClientMove → Prop
  | .call _ => w.app = []
  | m => w.Enabled m

instance (w : PbClient) (m : ClientMove) : Decidable (w.Asks m) := by
  cases m <;> unfold Asks <;> infer_instance

instance (w : PbClient) (m : ClientMove) : Decidable (w.Ready m) := by
  cases m <;> unfold Ready <;> infer_instance

end PbClient

namespace Connecting

/-- What the kernel does: a socket that is still connecting is not writable, and after a
failed attempt `SO_ERROR` is what is pending. Later errors of a connection are left open. -/
def Answers (s : Connecting) : ClientMove → Prop
  | .event events _ soError _ => (events.epollout = true → s.attempt ≠ .inProgress) ∧
      (s.attempt = .failed → soError = s.soError)
  | _ => True

instance (s : Connecting) (m : ClientMove) : Decidable (s.Answers m) := by
  cases m <;> unfold Answers <;> infer_instance

def Enabled (s : Connecting) : ConnectMove → Prop
  | .settle _ => s.attempt = .inProgress
  | .client m => s.client.fault = none ∧ s.client.Ready m ∧ s.Answers m

instance (s : Connecting) : ∀ m, Decidable (s.Enabled m)
  | .settle _ => inferInstanceAs (Decidable (_ = _))
  | .client _ => inferInstanceAs (Decidable (_ ∧ _ ∧ _))

/-- A look at `SO_ERROR` resets it. -/
def next (protocol : Protocol) (s : Connecting) : ConnectMove → Connecting
  | .settle ok => { s with attempt := if ok then .succeeded else .failed, soError := !ok }
  | .client m =>
    { s with client := s.client.next protocol m, soError := if s.client.Asks m then false else s.soError }

/-- After the constructor. -/
def constructed (fd : Nat) (atOnce : Bool) : Connecting :=
  { client := .constructed fd atOnce, attempt := if atOnce then .succeeded else .inProgress }

/-- The client is connected only to a peer, and writes only to one. -/
def Sound (s : Connecting) : Prop := s.client.conn.connected = true → s.attempt = .succeeded

def WritesSound (s : Connecting) : ConnectMove → Prop
  | .settle _ => True
  | .client m => s.client.Writes m → s.attempt = .succeeded

/-- The client does not look at the error of a failed attempt a second time. -/
def FirstLook (s : Connecting) : ConnectMove → Prop
  | .settle _ => True
  | .client m => s.client.Asks m → s.attempt = .failed → s.soError = true

instance (s : Connecting) : ∀ m, Decidable (s.FirstLook m)
  | .settle _ => inferInstanceAs (Decidable True)
  | .client _ => inferInstanceAs (Decidable (_ → _ → _))

end Connecting

def connecting (protocol : Protocol) : System Connecting ConnectMove where
  start s := ∃ fd atOnce, s = .constructed fd atOnce
  step s m s' := s.Enabled m ∧ s' = s.next protocol m

namespace PbClient
variable {protocol : Protocol} {w w' : PbClient} {s : ClientStmt} {stmts : List ClientStmt}
  {m : ClientMove} {events : Events} {io : SocketResults} {soError : Bool} {chain : Option Call}

/-- Only the statement that says so connects a client, and no statement leads to it. -/
theorem exec_connected (run : w.exec protocol s = .ok (w', stmts)) :
    w'.loop = w.loop ∧ w'.app = w.app ∧ .setConnected ∉ stmts ∧
      (s ≠ .setConnected → w'.conn.connected = w.conn.connected) := by
  cases hs : s.prepares with
  | true =>
      obtain ⟨rfl, prepared⟩ := exec_prepares hs run
      exact ⟨prepared.loop, prepared.app, by simp, fun _ => prepared.connected⟩
  | false =>
      cases s with
      | packRequest n =>
          obtain ⟨rfl, _, prepared⟩ := exec_packRequest run
          exact ⟨prepared.loop, prepared.app, by simp, fun _ => prepared.connected⟩
      | testPayload n =>
          obtain ⟨rfl, ctx, _, rfl⟩ := exec_testPayload run
          refine ⟨rfl, rfl, ?_, fun _ => rfl⟩
          split_ifs <;> simp [sendRequest]
      | epollCtl op events =>
          obtain ⟨r, _, run⟩ := bind_ok.mp run
          cases run
          exact ⟨rfl, rfl, by simp, fun _ => rfl⟩
      | setConnected =>
          cases run
          exact ⟨rfl, rfl, by simp, fun other => absurd rfl other⟩
      | updateChannel =>
          cases run
          refine ⟨rfl, rfl, ?_, fun _ => rfl⟩
          split_ifs <;> simp
      | testSevent =>
          cases run
          refine ⟨rfl, rfl, ?_, fun _ => rfl⟩
          split_ifs <;> simp
      | testAdd =>
          cases run
          refine ⟨rfl, rfl, ?_, fun _ => rfl⟩
          split_ifs <;> simp
      | setEvent event => cases run; exact ⟨rfl, rfl, by simp, fun _ => rfl⟩
      | addFunc => cases run; exact ⟨rfl, rfl, by simp, fun _ => rfl⟩
      | testDel => cases run; exact ⟨rfl, rfl, by simp, fun _ => rfl⟩
      | loadEvents op => cases run; exact ⟨rfl, rfl, by simp, fun _ => rfl⟩
      | setSevent => cases run; exact ⟨rfl, rfl, by simp, fun _ => rfl⟩
      | deleteContext => cases run; exact ⟨rfl, rfl, by simp, fun _ => rfl⟩
      | resetSession => cases run; exact ⟨rfl, rfl, by simp, fun _ => rfl⟩
      | _ => cases hs

/-- The client is connected, or about to say so. -/
def Announces (w : PbClient) : Prop := w.conn.connected = true ∨ .setConnected ∈ w.loop

/-- What a move, if it is no look at `SO_ERROR` that finds none, leaves as it was. -/
structure Unannounced (w w' : PbClient) : Prop where
  app : .setConnected ∉ w.app → .setConnected ∉ w'.app
  announces : w'.Announces → w.Announces

theorem callMethod_quiet (n : Nat) (call : Call) : .setConnected ∉ callMethod n call := by
  simp [callMethod]

theorem afterDone_quiet : .setConnected ∉ afterDone := by decide

theorem clientConnCallback_quiet : .setConnected ∉ clientConnCallback true := by decide

theorem writeCompleteCallback_quiet : .setConnected ∉ writeCompleteCallback := by decide

theorem closeCallback_quiet : .setConnected ∉ closeCallback := by decide

/-- A callback's statements are put in, none of which connects the client. -/
theorem Unannounced.of_quiet (app : w'.app = w.app) (connected : w'.conn.connected = w.conn.connected)
    (quiet : .setConnected ∉ w'.loop) : Unannounced w w' where
  app h := by rwa [app]
  announces h := by
    rcases h with h | h
    · rw [connected] at h
      exact .inl h
    · exact absurd h quiet

theorem Unannounced.of_same (app : w'.app = w.app) (connected : w'.conn.connected = w.conn.connected)
    (loop : w'.loop = w.loop) : Unannounced w w' where
  app h := by rwa [app]
  announces h := by
    unfold Announces at h ⊢
    rwa [connected, loop] at h

theorem handle_unannounced (h : w.handle events io soError chain = .ok w') :
    Unannounced w w' ∨ w.Asks (.event events io soError chain) ∧ soError = false ∧ w'.app = w.app := by
  cases handle_ok h with
  | silent => exact .inl (.of_same rfl rfl rfl)
  | connects quiet out connected mem =>
      cases soError with
      | true => exact .inl (.of_quiet rfl rfl clientConnCallback_quiet)
      | false => exact .inr ⟨⟨quiet, out, connected, mem⟩, rfl, rfl⟩
  | wrote => exact .inl (.of_same rfl rfl rfl)
  | completes => exact .inl (.of_quiet rfl rfl writeCompleteCallback_quiet)
  | ignored => exact .inl (.of_same rfl rfl rfl)
  | eof => exact .inl (.of_quiet rfl rfl closeCallback_quiet)
  | parsed => exact .inl (.of_same rfl rfl rfl)
  | answered =>
      refine .inl (.of_quiet rfl rfl ?_)
      cases chain with
      | none => exact afterDone_quiet
      | some call => simp [callMethod_quiet, afterDone_quiet]

/-- What a move of the client does to its announcement. -/
theorem effect_unannounced (quiet : .setConnected ∉ w.app) (h : w.effect protocol m = .ok w') :
    .setConnected ∉ w'.app ∧ (w'.Announces → w.Announces ∨
      w.Asks m ∧ ∃ events io chain, m = .event events io false chain) := by
  have plain : Unannounced w w' → .setConnected ∉ w'.app ∧ (w'.Announces → w.Announces ∨
      w.Asks m ∧ ∃ events io chain, m = .event events io false chain) :=
    fun same => ⟨same.app quiet, fun h => .inl (same.announces h)⟩
  cases m with
  | call call =>
      cases h
      exact ⟨callMethod_quiet _ _, .inl⟩
  | app =>
      cases hs : w.app with
      | nil =>
          simp only [effect, hs] at h
          cases h
          exact plain (.of_same rfl rfl rfl)
      | cons s rest =>
          simp only [effect, hs] at h
          obtain ⟨⟨w₁, stmts⟩, run, h⟩ := bind_ok.mp h
          cases h
          obtain ⟨loop, _, none, connected⟩ := exec_connected run
          rw [hs, List.mem_cons, not_or] at quiet
          refine ⟨by simp [none, quiet.2], fun h => .inl ?_⟩
          unfold Announces at h ⊢
          rwa [← connected (Ne.symm quiet.1), ← loop]
  | loop =>
      cases hs : w.loop with
      | nil =>
          simp only [effect, hs] at h
          cases h
          exact plain (.of_same rfl rfl rfl)
      | cons s rest =>
          simp only [effect, hs] at h
          obtain ⟨⟨w₁, stmts⟩, run, h⟩ := bind_ok.mp h
          cases h
          obtain ⟨_, app, none, connected⟩ := exec_connected run
          refine ⟨by rw [app]; exact quiet, fun h => .inl ?_⟩
          by_cases sets : s = .setConnected
          · exact .inr (by simp [hs, sets])
          · rcases h with h | h
            · exact .inl ((connected sets).symm.trans h)
            · exact .inr (by simpa [hs, none, Ne.symm sets] using h)
  | event events io soError chain =>
      rcases handle_unannounced h with same | ⟨asks, rfl, app⟩
      · exact plain ⟨same.app, same.announces⟩
      · exact ⟨by rw [app]; exact quiet, fun _ => .inr ⟨asks, events, io, chain, rfl⟩⟩
  | quiet =>
      cases h
      exact plain (.of_same rfl rfl rfl)
  | swap =>
      cases h
      exact plain (.of_same rfl rfl rfl)
  | func =>
      simp only [effect] at h
      split at h
      · cases h
        exact plain (.of_quiet rfl rfl (by simp))
      · cases h
        exact plain (.of_same rfl rfl rfl)
  | poll =>
      cases h
      exact plain (.of_same rfl rfl rfl)

end PbClient

namespace Connecting
variable {protocol : Protocol} {s s' : Connecting} {m : ConnectMove} {es : List (Connecting × ConnectMove)}

/-- The invariant: a client announces that it is connected only if it is. -/
structure Honest (s : Connecting) : Prop where
  app : .setConnected ∉ s.client.app
  announces : s.client.Announces → s.attempt = .succeeded

theorem Honest.sound (h : s.Honest) : s.Sound := fun connected => h.announces (.inl connected)

theorem honest_constructed (fd : Nat) (atOnce : Bool) : (constructed fd atOnce).Honest := by
  cases atOnce with
  | true => exact ⟨by simp [constructed, PbClient.constructed], fun _ => rfl⟩
  | false =>
      refine ⟨by simp [constructed, PbClient.constructed], fun h => ?_⟩
      rcases h with h | h
      · cases h
      · cases h

theorem honest_step (h : s.Honest) (first : s.FirstLook m) (enabled : s.Enabled m) :
    (s.next protocol m).Honest := by
  cases m with
  | settle ok =>
      refine ⟨h.app, fun announces => ?_⟩
      have settled := h.announces announces
      rw [show s.attempt = .inProgress from enabled] at settled
      cases settled
  | client m =>
      cases out : s.client.effect protocol m with
      | error f =>
          simp only [next, PbClient.next, out]
          exact ⟨h.app, h.announces⟩
      | ok w =>
          simp only [next, PbClient.next, out]
          obtain ⟨app, announced⟩ := PbClient.effect_unannounced h.app out
          refine ⟨app, fun announces => ?_⟩
          rcases announced announces with before | ⟨asks, events, io, chain, rfl⟩
          · exact h.announces before
          · -- a writable socket has been through its attempt
            obtain ⟨settled, answers⟩ := enabled.2.2
            cases attempt : s.attempt with
            | inProgress => exact absurd attempt (settled asks.2.1)
            | succeeded => rfl
            | failed =>
                have pending := first asks attempt
                rw [← answers attempt] at pending
                cases pending

/-- In every run in which the error of a failed attempt is looked at only once, the client
is connected, and written to, only if the attempt has succeeded. -/
theorem connected_sound (run : Run (connecting protocol) es s) (guarded : Guarded FirstLook es) :
    s.Sound ∧ Guarded WritesSound es := by
  have start : ∀ {s}, (connecting protocol).start s → s.Honest := by
    rintro _ ⟨fd, atOnce, rfl⟩
    exact honest_constructed fd atOnce
  have step : ∀ {s m s'}, s.Honest → s.FirstLook m → (connecting protocol).step s m s' → s'.Honest := by
    rintro s m _ h first ⟨enabled, rfl⟩
    exact honest_step h first enabled
  refine ⟨(run.invariant guarded start step).sound, run.forall_steps guarded start step ?_⟩
  intro s m h _
  cases m with
  | settle ok => trivial
  | client m =>
      intro writes
      cases m with
      | event events io soError chain => exact h.sound writes.2.2
      | _ => cases writes

/-- A list of moves that are all enabled in turn is a run. -/
theorem run_connecting (protocol : Protocol) (fd : Nat) (atOnce : Bool) (ms : List ConnectMove)
    (enabled : ∀ e ∈ visits (next protocol) (constructed fd atOnce) ms, e.1.Enabled e.2) :
    Run (connecting protocol) (visits (next protocol) (constructed fd atOnce) ms)
      (replay (next protocol) (constructed fd atOnce) ms) :=
  ⟨_, ⟨fd, atOnce, rfl⟩, path_replay (S := connecting protocol) (E := Enabled)
    (fun {_ _} h => ⟨h, rfl⟩) enabled⟩

/-- The attempt comes to an end, and the client hears of it. -/
def attempted (ok : Bool) : List ConnectMove :=
  PbClient.registers.map .client ++ [.settle ok, .client (.event { epollout := true } {} (!ok) none)] ++
    List.replicate (if ok then 8 else 7) (.client .loop) ++ [.client .swap, .client .poll]

/-- A call, up to the event that it asks for. -/
def calls : List ConnectMove :=
  PbClient.called.map .client ++ [.client (.event { epollout := true } {} false none)]

theorem attempted_sound :
    (replay (next .simple) (constructed 5 false) (attempted true ++ calls)).Sound ∧
      Guarded WritesSound (visits (next .simple) (constructed 5 false) (attempted true ++ calls)) :=
  connected_sound (run_connecting .simple 5 false (attempted true ++ calls) (by decide +kernel))
    (by decide +kernel)

/-- The attempt has failed; the call after it finds no error any more. -/
theorem not_connected_sound : ¬ ∀ protocol es s, Run (connecting protocol) es s →
    s.Sound ∧ Guarded WritesSound es := by
  intro claim
  have run := run_connecting .simple 5 false (attempted false ++ calls ++ [.client .loop])
    (by decide +kernel)
  have sound := (claim _ _ _ run).1 (by decide +kernel)
  exact absurd sound (by decide +kernel)

end Connecting
end SmallRpc
