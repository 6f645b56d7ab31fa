import SmallRpc.Descriptors
import SmallRpc.Exceptions

/-! What a peer can make of the server. `abort` is reached by the `PLOG_FATAL` that stands next
to each of `::accept`, `::read`, `::write` and `::epoll_ctl`, and by an exception that leaves
its thread. -/
namespace SmallRpc
open Runs

/-- The fault ends the process by `abort`. -/
def Fault.Aborts : Fault → Prop
  | .thrown => True
  | .aborted => True
  | _ => False

instance : DecidablePred Fault.Aborts
  | .outOfStorage => inferInstanceAs (Decidable False)
  | .nullPointer => inferInstanceAs (Decidable False)
  | .danglingPointer => inferInstanceAs (Decidable False)
  | .thrown => inferInstanceAs (Decidable True)
  | .aborted => inferInstanceAs (Decidable True)

namespace TCPConnection
open Buffer (ReadResult WriteResult)

/-- The first `::write` is made, and fails for good. -/
def HeadFails (c : TCPConnection) (io : SocketResults) : Prop :=
  c.wbuf.readable ≠ 0 ∧ (io.head = .epipe ∨ io.head = .failed)

/-- The second `::write` is made, and fails for good. -/
def ExtraFails (c : TCPConnection) (io : SocketResults) : Prop :=
  (c.wbuf.readable = 0 ∨ io.head.isError = false) ∧ c.wbuf.extraable ≠ 0 ∧
    (io.extra = .epipe ∨ io.extra = .failed)

/-- A system call that the events lead to finds the peer gone. -/
def PeerFails (c : TCPConnection) (events : Events) (io : SocketResults) : Prop :=
  if events.epollin then io.read = .eof ∨ io.read = .failed
  else events.epollout = true ∧ c.connected = true ∧ (HeadFails c io ∨ ExtraFails c io)

/-- The close path takes an end of file only, through its callback; and `EPIPE` on the
payload of a short response whose head has left is not noticed, but closes. -/
def Routable (c : TCPConnection) (events : Events) (io : SocketResults) : Prop :=
  if events.epollin then io.read ≠ .failed ∧ (io.read = .eof → .close ∈ c.callbacks)
  else events.epollout = true → c.connected = true → ¬ HeadFails c io ∧
    (ExtraFails c io → io.extra = .epipe ∧ HeadLeaves c.wbuf io.head ∧
      .writeComplete ∈ c.callbacks ∧ ∃ ctx ∈ c.ctx, ctx.base.connType = .short)

instance (c : TCPConnection) (io : SocketResults) : Decidable (HeadFails c io) :=
  inferInstanceAs (Decidable (_ ∧ _))

instance (c : TCPConnection) (io : SocketResults) : Decidable (ExtraFails c io) :=
  inferInstanceAs (Decidable (_ ∧ _))

instance (b : Buffer) (r : WriteResult) : Decidable (HeadLeaves b r) :=
  inferInstanceAs (Decidable (_ ∨ _))

instance (c : TCPConnection) (events : Events) (io : SocketResults) :
    Decidable (Routable c events io) := by
  unfold Routable
  infer_instance

end TCPConnection

namespace Lifetime
open TCPConnection (PeerFails Routable HeadFails ExtraFails HeadLeaves)

/-- The loop's callback ends in a `close_callback`. -/
def Closing (l : Lifetime) : Prop := PbServer.closeCallback <:+ l.agenda

/-- The statement that a move executes. -/
def statement (l : Lifetime) : Move → Option Stmt
  | .setup => l.setup.head?
  | .stmt => l.agenda.head?
  | .respond n => l.packs[n]?.bind fun pack => pack.todo.head?
  | .func => if l.phase.funcsLeft = 0 then none else some .updateChannel
  | _ => none

/-- The move calls `::epoll_ctl`. -/
def Registers (l : Lifetime) (m : Move) : Prop :=
  l.statement m = some .updateChannel ∧ ∃ c ∈ l.conn, c.event ≠ c.sevent

/-- The move calls `::close`. -/
def Frees (l : Lifetime) (m : Move) : Prop :=
  (∃ s ∈ l.statement m, s.closes ≠ 0) ∧ l.conn ≠ none

/-- The results of the system calls of an event all lead to the close path or go on. -/
def Routes (l : Lifetime) : Move → Prop
  | .event events io _ => ∀ c ∈ l.conn, Routable c events io
  | _ => True

instance (l : Lifetime) (m : Move) : Decidable (l.Registers m) :=
  inferInstanceAs (Decidable (_ ∧ ∃ c ∈ l.conn, _))

instance (l : Lifetime) (m : Move) : Decidable (l.Frees m) :=
  inferInstanceAs (Decidable ((∃ s ∈ l.statement m, _) ∧ _))

instance (l : Lifetime) : ∀ m, Decidable (l.Routes m)
  | .event events io _ => inferInstanceAs (Decidable (∀ c ∈ l.conn, Routable c events io))
  | .setup => inferInstanceAs (Decidable True)
  | .respond _ => inferInstanceAs (Decidable True)
  | .quiet => inferInstanceAs (Decidable True)
  | .stmt => inferInstanceAs (Decidable True)
  | .swap => inferInstanceAs (Decidable True)
  | .func => inferInstanceAs (Decidable True)
  | .drain .. => inferInstanceAs (Decidable True)
  | .timer => inferInstanceAs (Decidable True)
  | .poll => inferInstanceAs (Decidable True)

variable {srv : PbServer} {l l' : Lifetime} {s : Stmt} {c : TCPConnection} {m : Move}
  {events : Events} {io : SocketResults} {answer : Answer}

/-- Handling an event leaves the descriptor and its registration alone. -/
theorem Outcome.registered (outcome : Outcome srv l c events io answer l') :
    l'.fault = l.fault ∧ l'.closed = l.closed ∧ ∃ d, l'.conn = some d ∧ d.sevent = c.sevent := by
  have parsed : ∀ {rbuf d}, Parsed { c with rbuf } d → d.sevent = c.sevent := by
    intro rbuf d same
    rw [same]
  cases outcome with
  | wrote => exact ⟨rfl, rfl, _, rfl, rfl⟩
  | ignored _ => exact ⟨rfl, rfl, _, rfl, rfl⟩
  | completes _ _ _ _ _ => exact ⟨rfl, rfl, _, rfl, rfl⟩
  | closes _ closing => exact ⟨rfl, rfl, _, rfl, parsed closing.parsed⟩
  | waits _ _ _ _ hcall => exact ⟨rfl, rfl, _, rfl, parsed (dataReadCallback_parsed hcall)⟩
  | dispatches _ _ _ _ hcall _ => exact ⟨rfl, rfl, _, rfl, parsed (dataReadCallback_parsed hcall)⟩

theorem effect_fault (enabled : l.Enabled srv m) (h : l.effect srv m = .ok l') :
    l'.fault = l.fault := by
  cases m with
  | event events io answer =>
      obtain ⟨_, _, _, c, hc, _⟩ := enabled
      exact (handle_ok (l := { l with phase := .handled }) hc h).registered.1
  | setup =>
      simp only [effect] at h
      split at h
      · exact (Except.ok.inj h) ▸ rfl
      · exact (exec_ok h).fault
  | stmt =>
      simp only [effect] at h
      split at h
      · exact (Except.ok.inj h) ▸ rfl
      · exact (exec_ok h).fault
  | respond n =>
      simp only [effect] at h
      split at h
      · exact (Except.ok.inj h) ▸ rfl
      · split at h
        · exact (Except.ok.inj h) ▸ rfl
        · exact (exec_ok h).fault
  | func =>
      simp only [effect] at h
      split at h
      · exact (exec_ok h).fault
      · exact (Except.ok.inj h) ▸ rfl
  | timer =>
      simp only [effect] at h
      split at h
      · unfold timeoutCallback at h
        split_ifs at h with listed
        · obtain ⟨c, _, done⟩ := withConn_ok.mp h
          split_ifs at done
          all_goals exact (Except.ok.inj done) ▸ rfl
        · exact (Except.ok.inj h) ▸ rfl
      · exact (Except.ok.inj h) ▸ rfl
  | _ => exact (Except.ok.inj h) ▸ rfl

/-- A move that executes a statement does what the statement does. -/
theorem effect_statement (h : l.statement m = some s) :
    ∃ l₀ : Lifetime, l₀.conn = l.conn ∧ l₀.closed = l.closed ∧ l₀.packed = l.packed ∧
      l.effect srv m = l₀.exec s := by
  cases m with
  | setup =>
      obtain ⟨rest, hs⟩ := List.head?_eq_some_iff.mp h
      exact ⟨{ l with setup := rest }, rfl, rfl, rfl, by simp only [effect, hs]⟩
  | stmt =>
      obtain ⟨rest, hs⟩ := List.head?_eq_some_iff.mp h
      exact ⟨{ l with agenda := rest }, rfl, rfl, rfl, by simp only [effect, hs]⟩
  | respond n =>
      obtain ⟨pack, hp, head⟩ := Option.bind_eq_some_iff.mp h
      obtain ⟨rest, hs⟩ := List.head?_eq_some_iff.mp head
      exact ⟨{ l with packs := l.packs.set n { pack with todo := rest } }, rfl, rfl, rfl,
        by simp only [effect, hp, hs]⟩
  | func =>
      simp only [statement] at h
      split_ifs at h with hn
      obtain rfl := Option.some.inj h
      cases hp : l.phase with
      | funcs n =>
          cases n with
          | zero => simp [hp, Phase.funcsLeft] at hn
          | succ n => exact ⟨{ l with phase := .funcs n }, rfl, rfl, rfl, by simp only [effect, hp]⟩
      | polling => simp [hp, Phase.funcsLeft] at hn
      | handled => simp [hp, Phase.funcsLeft] at hn
      | timers expired => simp [hp, Phase.funcsLeft] at hn
  | _ => cases h

/-- A move that executes none leaves the descriptor and its registration alone. -/
theorem effect_quiet (enabled : l.Enabled srv m) (h : l.statement m = none) :
    (l.next srv m).closed = l.closed ∧ ∀ c c', l.conn = some c → (l.next srv m).conn = some c' →
      c'.sevent = c.sevent := by
  have same : ∀ {l' : Lifetime}, l'.conn = l.conn → ∀ c c', l.conn = some c → l'.conn = some c' →
      c'.sevent = c.sevent := by
    intro l' conn c c' hc hc'
    rw [conn, hc] at hc'
    exact (Option.some.inj hc') ▸ rfl
  unfold next
  cases he : l.effect srv m with
  | error fault => exact ⟨rfl, same rfl⟩
  | ok l' =>
      dsimp only
      cases m with
      | event events io answer =>
          obtain ⟨_, _, _, c, hc, _⟩ := enabled
          obtain ⟨_, closed, d, hd, sevent⟩ :=
            (handle_ok (l := { l with phase := .handled }) hc he).registered
          refine ⟨closed, fun c₀ c' hc₀ hc' => ?_⟩
          obtain rfl := Option.some.inj (hc.symm.trans hc₀)
          obtain rfl := Option.some.inj (hd.symm.trans hc')
          exact sevent
      | setup => exact absurd (List.head?_eq_none_iff.mp h) enabled
      | stmt => exact absurd (List.head?_eq_none_iff.mp h) enabled
      | respond n =>
          obtain ⟨pack, hp, ht⟩ := enabled
          rw [Option.mem_def] at hp
          simp only [statement, hp, Option.bind_some] at h
          exact absurd (List.head?_eq_none_iff.mp h) ht
      | func =>
          simp only [statement, if_neg enabled.2] at h
          cases h
      | timer =>
          simp only [effect] at he
          split at he
          · unfold timeoutCallback at he
            split_ifs at he with listed
            · obtain ⟨c, _, done⟩ := withConn_ok.mp he
              split_ifs at done
              all_goals
                obtain rfl := Except.ok.inj done
                exact ⟨rfl, same rfl⟩
            · obtain rfl := Except.ok.inj he
              exact ⟨rfl, same rfl⟩
          · obtain rfl := Except.ok.inj he
            exact ⟨rfl, same rfl⟩
      | _ =>
          obtain rfl := Except.ok.inj he
          exact ⟨rfl, same rfl⟩

theorem frees_iff (enabled : l.Enabled srv m) : (l.next srv m).closed ≠ l.closed ↔ l.Frees m := by
  cases hs : l.statement m with
  | none =>
      refine iff_of_false (fun closing => closing (effect_quiet enabled hs).1) ?_
      rintro ⟨⟨s, hs', _⟩, _⟩
      rw [Option.mem_def, hs] at hs'
      cases hs'
  | some s =>
      obtain ⟨l₀, conn, closed, _, same⟩ := @effect_statement srv _ _ _ hs
      unfold next
      rw [same, ← closed]
      constructor
      · intro closing
        cases he : l₀.exec s with
        | error fault =>
            rw [he] at closing
            exact absurd rfl closing
        | ok l' =>
            rw [he] at closing
            have grown : l'.closed = l₀.closed + s.closes := (exec_ok he).closed
            have closes : s.closes ≠ 0 := fun none => closing (by rw [grown, none]; rfl)
            refine ⟨⟨s, hs, closes⟩, ?_⟩
            rcases exec_found he with rfl | ⟨c, hc⟩
            · exact absurd rfl closes
            · rw [← conn, hc]
              exact Option.some_ne_none c
      · rintro ⟨⟨s', hs', closes⟩, there⟩
        obtain rfl := Option.some.inj (hs.symm.trans hs')
        obtain ⟨c, hc⟩ := Option.ne_none_iff_exists'.mp there
        have found : ∀ {f}, l₀.withConn f = f c := withConn_some (conn.trans hc)
        have one : ∃ l', l₀.exec s = .ok l' := by
          cases s with
          | closeFd => exact ⟨_, found⟩
          | deleteConn => exact ⟨_, found⟩
          | _ => exact absurd rfl closes
        obtain ⟨l', he⟩ := one
        rw [he]
        have grown : l'.closed = l₀.closed + s.closes := (exec_ok he).closed
        change l'.closed ≠ l₀.closed
        omega

theorem registers (enabled : l.Enabled srv m) {c c' : TCPConnection} (hc : l.conn = some c)
    (hc' : (l.next srv m).conn = some c') (changed : c'.sevent ≠ c.sevent) : l.Registers m := by
  cases hs : l.statement m with
  | none => exact absurd ((effect_quiet enabled hs).2 c c' hc hc') changed
  | some s =>
      obtain ⟨l₀, conn, _, _, same⟩ := @effect_statement srv _ _ _ hs
      unfold next at hc'
      rw [same] at hc'
      cases he : l₀.exec s with
      | error fault =>
          rw [he] at hc'
          obtain rfl := Option.some.inj (hc.symm.trans hc')
          exact absurd rfl changed
      | ok l' =>
          rw [he] at hc'
          obtain ⟨_, d, hd, touched, _⟩ := (exec_ok he).kept c' hc'
          obtain rfl := Option.some.inj (hc.symm.trans (conn.symm.trans hd))
          have settled := touched.settled
          cases s with
          | updateChannel =>
              refine ⟨hs, c, hc, fun settledBefore => changed ?_⟩
              rw [← settledBefore]
              exact (Prod.mk.inj settled).2
          | _ => exact absurd (Prod.mk.inj settled).2 changed

theorem next_event (hc : l.conn = some c) {out : Handled} (h : c.handleEvents events io = .ok out) :
    l.effect srv (.event events io answer) =
      ({ l with phase := .handled }.setConn out.conn).call srv out.conn answer out.call := by
  simp only [effect, handle, withConn, hc, h]
  rfl

theorem handleEvents_read (hin : events.epollin = true) : c.handleEvents events io =
    (c.rbuf.readFd io.read).map fun r =>
      ⟨{ c with rbuf := r.2 }, c.installed (if r.1 = 0 then .close else .dataRead), []⟩ := by
  simp only [TCPConnection.handleEvents, hin, if_true]
  cases c.rbuf.readFd io.read <;> rfl

theorem handleEvents_write (hin : events.epollin = false) (hout : events.epollout = true)
    (connected : c.connected = true) : c.handleEvents events io =
    (c.wbuf.writeFd io.head io.extra).map fun r =>
      ⟨{ c with wbuf := r.2.1 },
        if r.2.1.readable = 0 then c.installed .writeComplete else none, r.2.2⟩ := by
  simp only [TCPConnection.handleEvents, hin, hout, connected, if_true, Bool.false_eq_true, if_false]
  cases c.wbuf.writeFd io.head io.extra <;> rfl

/-- The second `::write` is tried on what the first has left. -/
theorem writeFd_goes_on {b : Buffer} (h : b.readable = 0 ∨ io.head.isError = false)
    (possible : io.head.taken ≤ b.readable) :
    ∃ (b₁ : Buffer) (total : Int) (sent : List Buffer.Piece), b.writeFd io.head io.extra = b₁.writeExtra total sent io.extra ∧
      b₁.extraable = b.extraable ∧ (b₁.readable = 0 ↔ HeadLeaves b io.head) := by
  by_cases hr : b.readable = 0
  · exact ⟨b, 0, [], by simp only [Buffer.writeFd, if_pos hr], rfl, iff_of_true hr (.inl hr)⟩
  · cases hw : io.head with
    | wrote n =>
        rw [hw] at possible
        refine ⟨{ b with rindex := b.rindex + n }, n, [⟨false, b.rindex, n⟩], ?_, rfl, ?_⟩
        · simp only [Buffer.writeFd, if_neg hr]
        · have rest : ({ b with rindex := b.rindex + n } : Buffer).readable = b.readable - n :=
            Buffer.sizeSub_add possible
          rw [rest, TCPConnection.headLeaves_iff, Buffer.headTaken, if_neg hr]
          simp only [Buffer.WriteResult.taken] at possible ⊢
          omega
    | again => simp [hw, hr, Buffer.WriteResult.isError] at h
    | epipe => simp [hw, hr, Buffer.WriteResult.isError] at h
    | failed => simp [hw, hr, Buffer.WriteResult.isError] at h

/-- Without such a failure both calls return. -/
theorem writeFd_returns (head : ¬ HeadFails c io) (extra : ¬ ExtraFails c io) :
    ∃ result, c.wbuf.writeFd io.head io.extra = .ok result := by
  have second : ∀ {b : Buffer} {total sent}, b.extraable = c.wbuf.extraable →
      (c.wbuf.readable = 0 ∨ io.head.isError = false) →
      ∃ result, b.writeExtra total sent io.extra = .ok result := by
    intro b total sent same tried
    unfold Buffer.writeExtra
    split_ifs with none
    · exact ⟨_, rfl⟩
    · rw [same] at none
      cases hx : io.extra with
      | wrote n => exact ⟨_, rfl⟩
      | again => exact ⟨_, rfl⟩
      | epipe => exact absurd ⟨tried, none, .inl hx⟩ extra
      | failed => exact absurd ⟨tried, none, .inr hx⟩ extra
  by_cases hr : c.wbuf.readable = 0
  · simp only [Buffer.writeFd, if_pos hr]
    exact second rfl (.inl hr)
  · cases hw : io.head with
    | wrote n =>
        simp only [Buffer.writeFd, if_neg hr]
        exact second rfl (.inr (by rw [hw]; rfl))
    | again => exact ⟨(-1, c.wbuf, []), by simp only [Buffer.writeFd, if_neg hr]⟩
    | epipe => exact absurd ⟨hr, .inl hw⟩ head
    | failed => exact absurd ⟨hr, .inr hw⟩ head

/-- The payload of a response whose head has left finds the peer gone. -/
theorem handleEvents_epipe (hin : events.epollin = false) (hout : events.epollout = true)
    (connected : c.connected = true) (possible : io.head.taken ≤ c.wbuf.readable)
    (tried : c.wbuf.readable = 0 ∨ io.head.isError = false) (some : c.wbuf.extraable ≠ 0)
    (epipe : io.extra = .epipe) (leaves : HeadLeaves c.wbuf io.head) : ∃ wbuf sent,
      c.handleEvents events io = .ok ⟨{ c with wbuf }, c.installed .writeComplete, sent⟩ := by
  obtain ⟨b, total, sent, goes, same, left⟩ := writeFd_goes_on tried possible
  refine ⟨b, sent, ?_⟩
  rw [handleEvents_write hin hout connected, goes, epipe]
  simp only [Buffer.writeExtra, same, if_neg some, Except.map, left.mpr leaves, if_true]

/-- What is routed to the close path is not fatal. -/
theorem handleEvents_returns (routable : Routable c events io)
    (possible : io.head.taken ≤ c.wbuf.readable) : ∃ out, c.handleEvents events io = .ok out := by
  unfold Routable at routable
  cases hin : events.epollin with
  | true =>
      rw [if_pos hin] at routable
      rw [handleEvents_read hin]
      cases hr : io.read with
      | failed => exact absurd hr routable.1
      | _ => exact ⟨_, rfl⟩
  | false =>
      rw [if_neg (by rw [hin]; exact Bool.false_ne_true)] at routable
      by_cases calls : events.epollout = true ∧ c.connected = true
      · obtain ⟨hout, connected⟩ := calls
        obtain ⟨head, closes⟩ := routable hout connected
        by_cases extra : ExtraFails c io
        · obtain ⟨epipe, leaves, _⟩ := closes extra
          obtain ⟨wbuf, sent, handled⟩ :=
            handleEvents_epipe hin hout connected possible extra.1 extra.2.1 epipe leaves
          exact ⟨_, handled⟩
        · obtain ⟨result, hw⟩ := writeFd_returns head extra
          rw [handleEvents_write hin hout connected, hw]
          exact ⟨_, rfl⟩
      · simp only [TCPConnection.handleEvents, hin, Bool.false_eq_true, if_false]
        split_ifs with hout connected
        · exact absurd ⟨hout, connected⟩ calls
        · exact ⟨_, rfl⟩
        · exact ⟨_, rfl⟩

/-- A peer that is gone is on the close path after the event. -/
theorem event_closes (hc : l.conn = some c) (possible : io.head.taken ≤ c.wbuf.readable)
    (routable : Routable c events io) (fails : PeerFails c events io) :
    (l.next srv (.event events io answer)).Closing := by
  unfold Routable at routable
  unfold PeerFails at fails
  cases hin : events.epollin with
  | true =>
      rw [if_pos hin] at routable fails
      have eof := fails.resolve_right routable.1
      have handled := @handleEvents_read c events io hin
      rw [eof] at handled
      have effect := @next_event srv l c events io answer hc _ handled
      simp only [if_true] at effect
      change _ = Lifetime.call srv _ _ answer (c.installed .close) at effect
      rcases installed_cases c .close with ⟨_, without⟩ | ⟨hi, _⟩
      · exact absurd (routable.2 eof) without
      · rw [hi] at effect
        rw [next, effect]
        exact List.suffix_rfl
  | false =>
      rw [if_neg (by rw [hin]; exact Bool.false_ne_true)] at routable fails
      obtain ⟨hout, connected, fails⟩ := fails
      obtain ⟨head, closes⟩ := routable hout connected
      have extra := fails.resolve_left head
      obtain ⟨epipe, leaves, installed, ctx, hctx, short⟩ := closes extra
      obtain ⟨wbuf, sent, handled⟩ :=
        handleEvents_epipe hin hout connected possible extra.1 extra.2.1 epipe leaves
      have effect := @next_event srv l c events io answer hc _ handled
      rcases installed_cases c .writeComplete with ⟨_, without⟩ | ⟨hi, _⟩
      · exact absurd installed without
      · rw [hi] at effect
        have done : (l.next srv (.event events io answer)).agenda =
            srv.writeCompleteCallback ctx.base.connType := by
          rw [next, effect]
          simp only [call, writeComplete, Option.mem_def.mp hctx]
        rw [Closing, done, short]
        exact List.suffix_append _ _

/-- A move of a calm connection does not end the process. -/
theorem Calm.spared (h : l.Calm) (sound : l.fault = none) (enabled : l.Enabled srv m)
    (routes : l.Routes m) (good : l.Decent srv m) : ∀ f ∈ (l.next srv m).fault, ¬ f.Aborts := by
  have aborted : Faults (· ≠ .aborted) (l.effect srv m) := by
    by_cases event : ∃ events io answer, m = .event events io answer
    · obtain ⟨events, io, answer, rfl⟩ := event
      obtain ⟨_, _, _, c, hc, _, possible⟩ := enabled
      obtain ⟨out, handled⟩ := handleEvents_returns (routes c hc) possible.2.1
      rw [next_event hc handled]
      refine call_faults.mono ?_
      rintro f ((rfl | rfl) | ⟨rfl, _⟩)
      all_goals exact Fault.noConfusion
    · refine (effect_faults fun events io answer same => event ⟨events, io, answer, same⟩).mono ?_
      rintro f (rfl | rfl | ⟨rfl, _⟩)
      all_goals exact Fault.noConfusion
  have thrown := h.effect good enabled
  intro f hf
  unfold next at hf
  cases he : l.effect srv m with
  | ok l' =>
      rw [he] at hf
      dsimp only at hf
      rw [effect_fault enabled he, sound] at hf
      cases hf
  | error fault =>
      rw [he] at hf
      obtain rfl := Option.some.inj hf
      intro aborts
      cases fault with
      | thrown => exact thrown _ he rfl
      | aborted => exact aborted _ he rfl
      | _ => exact aborts

end Lifetime

namespace TCPServer
open Lifetime TCPConnection

/-- `abort` has been called, in one thread or another. -/
def Aborted (w : TCPServer) : Prop :=
  (∃ f ∈ w.fault, f.Aborts) ∨ ∃ client ∈ w.clients, ∃ f ∈ client.life.fault, f.Aborts

/-- The step aborts nothing, `::epoll_ctl` included, which fails or hits another file once
the number is no longer the connection's; a connection whose peer is gone is on the close
path after it; and the other connections are as before, with the numbers they had. -/
structure Contained (srv : PbServer) (threadNum : Nat) (w : TCPServer) (a : Action) : Prop where
  spared : ¬ (w.next srv threadNum a).Aborted
  registered : ∀ i m client, a = .act i m → w.clients[i]? = some client →
    (∃ c c', client.life.conn = some c ∧ (client.life.next srv m).conn = some c' ∧
      c'.sevent ≠ c.sevent) → w.files client.fd = some (.conn i)
  closes : ∀ i events io answer client c, a = .act i (.event events io answer) →
    w.clients[i]? = some client → client.life.conn = some c → PeerFails c events io →
    (client.life.next srv (.event events io answer)).Closing
  others : ∀ j other, w.clients[j]? = some other → (∀ m, a ≠ .act j m) →
    (w.next srv threadNum a).clients[j]? = some other ∧
      (w.files other.fd = some (.conn j) →
        (w.next srv threadNum a).files other.fd = some (.conn j))

/-- The number stands for a connection other than `i`. -/
def Foreign (w : TCPServer) (i fd : Nat) : Prop :=
  ∃ j < w.clients.length, j ≠ i ∧ ∃ other ∈ w.clients[j]?, other.fd = fd ∧ w.files fd = some (.conn j)

/-- What the system calls of the step report is routed to the close path, what is read is
harmless, and the calls are made on a number that is the connection's own, `::close` also on
a free one. -/
def Routed (srv : PbServer) (w : TCPServer) : Action → Prop
  | .accept r => r ≠ .failed
  | .act i m => ∀ client ∈ w.clients[i]?, client.life.Routes m ∧ client.life.Decent srv m ∧
      (client.life.Registers m → w.files client.fd = some (.conn i)) ∧
      (client.life.Frees m → ¬ w.Foreign i client.fd)

instance (w : TCPServer) : Decidable w.Aborted := inferInstanceAs (Decidable (_ ∨ _))

instance (w : TCPServer) (i fd : Nat) : Decidable (w.Foreign i fd) :=
  inferInstanceAs (Decidable (∃ j < w.clients.length, j ≠ i ∧ ∃ other ∈ w.clients[j]?, _ ∧ _))

instance (srv : PbServer) (w : TCPServer) : ∀ a, Decidable (w.Routed srv a)
  | .accept r => inferInstanceAs (Decidable (r ≠ .failed))
  | .act i _ => inferInstanceAs (Decidable (∀ client ∈ w.clients[i]?, _ ∧ _ ∧ _ ∧ _))

variable {srv : PbServer} {threadNum : Nat} {w w' : TCPServer} {a : Action}
  {es : List (TCPServer × Action)}

theorem Running.not_aborted (running : w.Running) : ¬ w.Aborted := by
  rintro (⟨f, fault, _⟩ | ⟨client, hm, f, fault, _⟩)
  · rw [Option.mem_def, running.1] at fault
    cases fault
  · rw [Option.mem_def, running.2 client hm] at fault
    cases fault

theorem accept_contained {r : AcceptResult} (enabled : w.Enabled srv (.accept r)) (routed : r ≠ .failed) :
    Contained srv threadNum w (.accept r) := by
  have running : w.Running := by
    cases r <;> exact enabled.1
  have noEvent : ∀ {r i m}, Action.accept r ≠ .act i m := by simp
  cases r with
  | again =>
      exact ⟨running.not_aborted, fun _ _ _ h => absurd h noEvent,
        fun _ _ _ _ _ _ h => absurd h noEvent, fun j other ho _ => ⟨ho, id⟩⟩
  | failed => exact absurd rfl routed
  | conn fd =>
      refine ⟨?_, fun _ _ _ h => absurd h noEvent, fun _ _ _ _ _ _ h => absurd h noEvent,
        fun j other ho _ => ⟨?_, fun own => ?_⟩⟩
      · rintro (fault | ⟨client, hm, f, fault, aborts⟩)
        · exact running.not_aborted (.inl fault)
        · rcases List.mem_append.mp hm with old | new
          · exact running.not_aborted (.inr ⟨client, old, f, fault, aborts⟩)
          · rw [List.mem_singleton.mp new] at fault
            cases fault
      · exact (List.getElem?_append_left (List.getElem?_eq_some_iff.mp ho).1).trans ho
      · refine (setFile_other fun same => ?_).trans own
        rw [same, enabled.2.2] at own
        cases own

theorem act_contained {i : Nat} {m : Move} (calm : ∀ client ∈ w.clients, client.life.Calm)
    (enabled : w.Enabled srv (.act i m)) (routed : w.Routed srv (.act i m)) :
    Contained srv threadNum w (.act i m) := by
  obtain ⟨running, client, hc, ready, _⟩ := enabled
  obtain ⟨routes, decent, registered, freed⟩ := routed client hc
  rw [Option.mem_def] at hc
  have known := List.mem_of_getElem? hc
  have moved : w.next srv threadNum (.act i m) =
      { w with
        clients := w.clients.set i { client with life := client.life.next srv m }
        files := if (client.life.next srv m).closed = client.life.closed then w.files
          else setFile w.files client.fd none } := by
    simp only [next, act, hc]
  refine ⟨?_, ?_, ?_, ?_⟩
  · rw [moved]
    rintro (fault | ⟨other, hm, fault⟩)
    · exact running.not_aborted (.inl fault)
    · rcases List.mem_or_eq_of_mem_set hm with old | rfl
      · exact running.not_aborted (.inr ⟨other, old, fault⟩)
      · obtain ⟨f, hf, aborts⟩ := fault
        exact (calm client known).spared (running.2 client known) ready routes decent f hf aborts
  · rintro j m' client' h hc' ⟨c, c', hcon, hcon', changed⟩
    cases h
    obtain rfl := Option.some.inj (hc.symm.trans hc')
    exact registered (registers ready hcon hcon' changed)
  · rintro j events io answer client' c h hc' hcon fails
    cases h
    obtain rfl := Option.some.inj (hc.symm.trans hc')
    obtain ⟨_, _, _, d, hd, _, possible⟩ := id ready
    obtain rfl := Option.some.inj (hcon.symm.trans hd)
    exact event_closes hcon possible.2.1 (routes c hcon) fails
  · intro j other ho hj
    have hij : i ≠ j := fun same => hj m (by rw [same])
    rw [moved]
    refine ⟨(List.getElem?_set_ne hij).trans ho, fun own => ?_⟩
    by_cases same : (client.life.next srv m).closed = client.life.closed
    · simp only [if_pos same]
      exact own
    · simp only [if_neg same]
      refine (setFile_other fun hfd => ?_).trans own
      refine freed ((frees_iff ready).mp same) ⟨j, (List.getElem?_eq_some_iff.mp ho).1, hij.symm, other, ho, hfd, ?_⟩
      rw [← hfd]
      exact own

theorem calm_step (calm : ∀ client ∈ w.clients, client.life.Calm) (routed : w.Routed srv a)
    (step : (server srv threadNum).step w a w') : ∀ client ∈ w'.clients, client.life.Calm := by
  cases server_step step with
  | refused clients _ =>
      rw [clients]
      exact calm
  | @accepted fd _ loop _ clients _ =>
      rw [clients]
      intro client hm
      rcases List.mem_append.mp hm with old | new
      · exact calm client old
      · rw [List.mem_singleton.mp new]
        exact calm_accepted fd
  | @acted i m client life _ hc moved clients _ =>
      rw [clients]
      intro other hm
      rcases List.mem_or_eq_of_mem_set hm with old | rfl
      · exact calm other old
      · exact (calm client (List.mem_of_getElem? hc)).step (routed client hc).2.1 moved

/-- The same service for both protocols. -/
def bilingual : PbServer := { echo false with protocols := [.simple, .http] }

def postedRequest : Bytes := ascii "POST /a/b HTTP/1.1\r\nContent-Length: 2\r\n\r\nhi"

/-- A request comes in two pieces. Of the response the head leaves; then the peer is gone. -/
def posted : List Action := List.flatten [
  .accept (.conn 7) :: List.replicate 6 (.act 0 .setup),
  [.act 0 (.event { epollin := true } { read := .data (postedRequest.take 20) } {}), .act 0 .swap,
    .act 0 (.drain [] []), .act 0 .poll,
    .act 0 (.event { epollin := true } { read := .data (postedRequest.drop 20) }
      { respStr := [104, 105] })],
  List.replicate 6 (.act 0 (.respond 0)),
  [.act 0 .swap, .act 0 .func, .act 0 (.drain [] []), .act 0 .poll,
    .act 0 (.event { epollout := true } { head := .wrote 89, extra := .epipe } {})],
  List.replicate 7 (.act 0 .stmt)]

/-- A connection is accepted and set up, and its client resets it. -/
def reset : List Action :=
  .accept (.conn 7) :: List.replicate 6 (.act 0 .setup) ++
    [.act 0 (.event { epollin := true } { read := .failed } {})]

/-- So does a length that is not a number, if it is a client of the HTTP protocol that sends it. -/
example : (replay (next bilingual 2) booted (.accept (.conn 7) :: List.replicate 6 (.act 0 .setup) ++
    [.act 0 (.event { epollin := true } { read := .data HTTPProtocol.wordyLength } {})])).Aborted := by
  decide +kernel

end TCPServer
end SmallRpc
