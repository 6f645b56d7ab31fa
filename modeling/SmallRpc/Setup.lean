import SmallRpc.Contexts

/-! The setting up of a connection, against the loop it has been given to. The channel is
registered with epoll before any of the callbacks is set, and the read timer is armed
before, too. -/
namespace SmallRpc
open Runs

def Move.isEvent : Move → Bool
  | event .. => true
  | _ => false

namespace Lifetime

/-- All that `new_connection_callback` sets. -/
def serverCallbacks : List Callback := [.dataRead, .close, .writeComplete]

def Equipped (c : TCPConnection) : Prop := ∀ callback ∈ serverCallbacks, callback ∈ c.callbacks

/-- What is read is acted on: a request that is complete goes to `request_callback`, and
where the parsers give up `close` finds its callback. -/
def ActsOn (srv : PbServer) (l : Lifetime) (events : Events) (io : SocketResults) (answer : Answer)
    (c : TCPConnection) : Prop :=
  ∀ n rbuf d, events.epollin = true → c.rbuf.readFd io.read = .ok (n, rbuf) → n ≠ 0 →
    (srv.dataReadCallback { c with rbuf } = .ok (.request, d) →
      l.handle srv events io answer = (l.setConn d).request srv d answer) ∧
    (srv.dataReadCallback { c with rbuf } = .ok (.close, d) →
      l.handle srv events io answer = .ok { l.setConn d with agenda := PbServer.closeCallback })

/-- An event finds the connection set up, and the acceptor finds it there. -/
def SetUp (srv : PbServer) (l : Lifetime) : Move → Prop
  | .event events io answer => ∀ c ∈ l.conn,
      Equipped c ∧ ActsOn srv { l with phase := .handled } events io answer c
  | .setup => l.effect srv .setup ≠ .error .danglingPointer
  | _ => True

/-- The acceptor is done before the loop handles an event of the connection, and before
the loop deletes it. -/
def AfterSetup (l : Lifetime) (m : Move) : Prop :=
  m.isEvent = true ∨ l.statement m = some .deleteConn → l.setup = []

/-- The callbacks that are not set yet will be, and till then the connection stays. -/
structure Promised (l : Lifetime) : Prop where
  there : l.setup ≠ [] → l.conn ≠ none
  callbacks : ∀ c, l.conn = some c → ∀ callback ∈ serverCallbacks,
    callback ∈ c.callbacks ∨ .install callback ∈ l.setup

instance (c : TCPConnection) : Decidable (Equipped c) :=
  inferInstanceAs (Decidable (∀ callback ∈ serverCallbacks, _))

instance (l : Lifetime) (m : Move) : Decidable (l.AfterSetup m) := inferInstanceAs (Decidable (_ → _))

variable {srv : PbServer} {l l' : Lifetime} {s : Stmt} {m : Move} {c d : TCPConnection} {fd : Nat}
  {ls : List (Lifetime × Move)} {events : Events} {io : SocketResults} {answer : Answer}

theorem promised_start : Promised (accepted srv fd) where
  there _ := Option.some_ne_none _
  callbacks c _ callback hm := by
    refine .inr (List.mem_append_right _ ?_)
    simpa [serverCallbacks] using hm

/-- What leaves the setting up alone and takes no callback away. -/
theorem Promised.mono (h : Promised l) (setup : l'.setup = l.setup)
    (stays : l.setup ≠ [] → l.conn ≠ none → l'.conn ≠ none)
    (grown : ∀ c', l'.conn = some c' → ∃ c, l.conn = some c ∧ c.callbacks ⊆ c'.callbacks) :
    Promised l' where
  there left := by
    rw [setup] at left
    exact stays left (h.there left)
  callbacks c' hc' callback hm := by
    obtain ⟨c, hc, kept⟩ := grown c' hc'
    rw [setup]
    exact (h.callbacks c hc callback hm).imp_left fun old => kept old

theorem Executed.grown (run : Executed s l l') (hc' : l'.conn = some d) :
    ∃ c, l.conn = some c ∧ d.callbacks = c.callbacks ++ s.installs := by
  obtain ⟨_, c, hc, touched, _⟩ := run.kept d hc'
  exact ⟨c, hc, touched.callbacks⟩

/-- A statement of the loop or of a service. -/
theorem Promised.exec (h : Promised l) (run : Executed s l l')
    (after : s = .deleteConn → l.setup = []) : Promised l' := by
  apply h.mono run.setup
  · intro left some gone
    rcases run.gone gone with none | deletes
    · exact some none
    · exact left (after deletes)
  · intro c' hc'
    obtain ⟨c, hc, same⟩ := run.grown hc'
    exact ⟨c, hc, by rw [same]; exact List.subset_append_left _ _⟩

/-- A statement of the acceptor; an installed callback is one promise kept. -/
theorem Promised.setup {rest : List Stmt} (h : Promised l) (hs : l.setup = s :: rest)
    (run : Executed s { l with setup := rest } l') (stays : s ≠ .deleteConn) : Promised l' where
  there _ gone := by
    rcases run.gone gone with none | deletes
    · exact h.there (by simp [hs]) none
    · exact stays deletes
  callbacks c' hc' callback hm := by
    obtain ⟨c, hc, same⟩ := run.grown hc'
    rw [same, run.setup, List.mem_append]
    rcases h.callbacks c hc callback hm with set | left
    · exact .inl (.inl set)
    · rw [hs] at left
      rcases List.mem_cons.mp left with rfl | later
      · exact .inl (.inr (List.mem_singleton_self callback))
      · exact .inr later

theorem Outcome.callbacks (outcome : Outcome srv l c events io answer l') :
    l'.setup = l.setup ∧ ∃ d, l'.conn = some d ∧ d.callbacks = c.callbacks := by
  have parsed : ∀ {rbuf d}, Parsed { c with rbuf } d → d.callbacks = c.callbacks := by
    intro rbuf d same
    rw [same]
  cases outcome with
  | wrote => exact ⟨rfl, _, rfl, rfl⟩
  | ignored _ => exact ⟨rfl, _, rfl, rfl⟩
  | completes _ _ _ _ _ => exact ⟨rfl, _, rfl, rfl⟩
  | closes _ closing => exact ⟨rfl, _, rfl, parsed closing.parsed⟩
  | waits _ _ _ _ hcall => exact ⟨rfl, _, rfl, parsed (dataReadCallback_parsed hcall)⟩
  | dispatches _ _ _ _ hcall _ => exact ⟨rfl, _, rfl, parsed (dataReadCallback_parsed hcall)⟩

theorem promised_step (h : Promised l) (after : l.statement m = some .deleteConn → l.setup = [])
    (step : Step srv l m l') : Promised l' := by
  have same : ∀ {l' : Lifetime}, l'.setup = l.setup → l'.conn = l.conn → Promised l' := by
    intro l' setup conn
    exact ⟨by rw [setup, conn]; exact h.there, by rw [setup, conn]; exact h.callbacks⟩
  cases step_moved step with
  | fault _ => exact same rfl rfl
  | quiet _ => exact same rfl rfl
  | swap _ _ => exact same rfl rfl
  | drain _ _ _ => exact same rfl rfl
  | expire _ _ _ _ _ => exact same rfl rfl
  | stale _ _ => exact same rfl rfl
  | poll _ _ => exact same rfl rfl
  | @func n _ _ _ run =>
      have before : Promised { l with phase := .funcs n } := same rfl rfl
      exact before.exec run fun other => by cases other
  | @setup s rest _ hs run =>
      refine h.setup hs run ?_
      rintro rfl
      have done := after (by rw [statement, hs]; rfl)
      rw [hs] at done
      cases done
  | @stmt s rest _ hs run =>
      have before : Promised { l with agenda := rest } := same rfl rfl
      refine before.exec run ?_
      rintro rfl
      exact after (by rw [statement, hs]; rfl)
  | @respond n pack s rest _ hp hs run =>
      have before : Promised { l with packs := l.packs.set n { pack with todo := rest } } := same rfl rfl
      refine before.exec run ?_
      rintro rfl
      exact after (by simp [statement, hp, hs])
  | event rest _ hc _ _ outcome =>
      obtain ⟨setup, d, hd, callbacks⟩ := outcome.callbacks
      refine h.mono setup (fun _ _ => by rw [hd]; exact Option.some_ne_none d) ?_
      intro c' hc'
      obtain rfl := Option.some.inj (hd.symm.trans hc')
      exact ⟨_, hc, by rw [callbacks]; exact List.Subset.refl _⟩

/-- With the callbacks set, `handle_events` leads where it should. -/
theorem Equipped.actsOn (h : Equipped c) (hc : l.conn = some c) : ActsOn srv l events io answer c := by
  intro n rbuf d hin hread hn
  have reads : .dataRead ∈ c.callbacks := h _ (by decide)
  have closes : .close ∈ c.callbacks := h _ (by decide)
  have handled : l.handle srv events io answer =
      (l.setConn { c with rbuf }).dataRead srv { c with rbuf } answer := by
    have out : c.handleEvents events io = .ok { conn := { c with rbuf }, call := some .dataRead } := by
      have call : ({ c with rbuf } : TCPConnection).installed .dataRead = some .dataRead := if_pos reads
      rw [TCPConnection.handleEvents, if_pos hin, hread]
      change Except.ok _ = _
      rw [if_neg hn, call]
    rw [handle, withConn_some hc, out]
    rfl
  rw [handled]
  unfold dataRead
  constructor
  · intro hcall
    rw [hcall]
    rfl
  · intro hcall
    have kept : d.callbacks = c.callbacks := by rw [dataReadCallback_parsed hcall]
    rw [hcall]
    change close _ d = _
    rw [close, if_pos (by rw [kept]; exact closes)]
    rfl

/-- Once the acceptor is done all the callbacks are set. -/
theorem Promised.equipped (h : Promised l) (done : l.setup = []) (hc : l.conn = some c) : Equipped c := by
  intro callback hm
  refine (h.callbacks c hc callback hm).resolve_right ?_
  rw [done]
  exact List.not_mem_nil

/-- No statement loses a connection that is there. -/
theorem exec_dangling (h : l.exec s = .error .danglingPointer) : l.conn = none := by
  cases hc : l.conn with
  | none => rfl
  | some c =>
      exfalso
      cases s with
      | unpack => cases h
      | setRpcStatus =>
          simp only [exec, withConn_some hc, TCPConnection.withContext] at h
          cases hctx : c.ctx <;> simp [hctx] at h
      | setPayload respStr =>
          simp only [exec, withConn_some hc, TCPConnection.withContext] at h
          cases hctx : c.ctx <;> simp [hctx] at h
      | packResponse n =>
          simp only [exec, withConn_some hc, TCPConnection.packResponse] at h
          cases hctx : c.ctx with
          | none => simp [hctx] at h
          | some ctx =>
              simp only [hctx] at h
              have fault := (packResponse_faults.bind fun _ => faults_pure).bind (fun _ => faults_pure) _ h
              simp at fault
      | _ =>
          simp only [exec, withConn_some hc] at h
          cases h

/-- Every move of a life in which the acceptor is done in time finds what it needs. -/
theorem setUp_run (run : Run (lifetime srv fd) ls l) (guarded : Guarded AfterSetup ls) :
    Guarded (SetUp srv) ls := by
  refine run.forall_steps (I := Promised) guarded ?_
    (fun h after => promised_step h fun deletes => after (.inr deletes)) ?_
  · rintro _ rfl
    exact promised_start
  · intro l m h after
    cases m with
    | event events io answer =>
        intro c hc
        have equipped := h.equipped (after (.inl rfl)) hc
        exact ⟨equipped, equipped.actsOn hc⟩
    | setup =>
        intro lost
        cases hs : l.setup with
        | nil => simp [effect, hs] at lost
        | cons s rest =>
            simp only [effect, hs] at lost
            have gone := exec_dangling lost
            exact h.there (by simp [hs]) gone
    | _ => trivial

end Lifetime

namespace TCPServer
open Lifetime
variable {srv : PbServer} {threadNum : Nat} {w : TCPServer} {es : List (TCPServer × Action)}

/-- Every connection is set up before its loop handles an event of it, in every run in
which the loop gets to it after the acceptor. -/
theorem each_setUp (run : Run (server srv threadNum) es w) (guarded : Guarded (Each AfterSetup) es) :
    Guarded (Each (SetUp srv)) es :=
  each_run run setUp_run guarded

/-- The client that leaves without having sent anything. -/
theorem visit_setUp :
    Guarded (Each (SetUp (echo false)))
      (visits (next (echo false) 2) booted (visit 0 7 ++ List.replicate 5 (.act 0 .stmt))) :=
  each_setUp (run_visits (echo false) _ (by decide +kernel)) (by decide +kernel)

/-- The channel is registered, and nothing else is done yet. -/
def halfway : List Action := .accept (.conn 7) :: List.replicate 3 (.act 0 .setup)

/-- A whole request is there by then. The loop reads it, and finds no callback to call. -/
theorem setUp_too_late :
    ¬ ∀ srv threadNum es w, Run (server srv threadNum) es w → Guarded (Each (SetUp srv)) es := by
  intro claim
  have run := run_visits (echo false) (halfway ++
    [.act 0 (.event { epollin := true } { read := .data (headOfRequest ++ [1, 2, 3, 4]) } {})])
    (by decide +kernel)
  have found := each_act.mp (claim _ _ _ _ run _ visits_last)
  have bare : ∃ client ∈ (replay (next (echo false) 2) booted halfway).clients[0]?,
      ∃ c ∈ client.life.conn, ¬ Equipped c := by decide +kernel
  obtain ⟨client, hc, c, conn, bare⟩ := bare
  exact bare (found client hc c conn).1

/-- The request stays where it was read, undispatched. -/
example : ∀ client ∈ (replay (next (echo false) 2) booted (halfway ++
      [.act 0 (.event { epollin := true } { read := .data (headOfRequest ++ [1, 2, 3, 4]) } {})])).clients,
    client.life.packs = [] ∧ client.life.agenda = [] ∧
      ∃ c ∈ client.life.conn, c.rbuf.readable = (headOfRequest ++ [1, 2, 3, 4]).length := by
  decide +kernel

end TCPServer
end SmallRpc
