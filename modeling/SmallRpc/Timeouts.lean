import SmallRpc.Completions

/-! Timers and the phases they guard. A timer is never taken back: arming the next one
bumps the id of the connection, and only the timer with the current id closes. -/
namespace SmallRpc.Lifetime
open Runs

/-- The timer that closes the connection in this move. -/
def firing (l : Lifetime) : Move → Option Timer
  | .timer => l.phase.expired.head?.filter fun timer =>
      l.listed && l.conn.any fun conn => conn.timerId % 2 ^ 32 == timer.id % 2 ^ 32
  | _ => none

/-- A read timer guards the wait for the next complete request, a write timer the
writing of its response. -/
def InPhase (l : Lifetime) (timer : Timer) : Prop :=
  match timer.kind with
  | .read => timer.received = l.packs.length
  | .write n => n ∉ l.written

def ClosesInPhase (l : Lifetime) (m : Move) : Prop := ∀ timer ∈ l.firing m, l.InPhase timer

/-- The timer that closes is not followed by 2^32 others. -/
def Recent (l : Lifetime) (m : Move) : Prop :=
  ∀ timer ∈ l.firing m, ∀ conn ∈ l.conn, conn.timerId < timer.id + 2 ^ 32

instance (l : Lifetime) (timer : Timer) : Decidable (l.InPhase timer) :=
  match h : timer.kind with
  | .read => decidable_of_iff (timer.received = l.packs.length) (by rw [InPhase, h])
  | .write n => decidable_of_iff (n ∉ l.written) (by rw [InPhase, h])

instance (l : Lifetime) (m : Move) : Decidable (l.ClosesInPhase m) :=
  inferInstanceAs (Decidable (∀ timer ∈ l.firing m, l.InPhase timer))

instance (l : Lifetime) (m : Move) : Decidable (l.Recent m) :=
  inferInstanceAs (Decidable (∀ timer ∈ l.firing m, ∀ conn ∈ l.conn, _))

/-- The current timer is about to be replaced, or the connection to be deleted. -/
def Superseded (l : Lifetime) : Prop := .bumpTimer ∈ l.pending ∨ .deleteConn ∈ l.pending

variable {srv : PbServer} {l l₀ l' : Lifetime} {s : Stmt} {c c' : TCPConnection} {m : Move}
  {rest : List Stmt} {fd : Nat} {ls : List (Lifetime × Move)} {timer : Timer} {pack : Pack} {n : Nat}
  {events : Events} {io : SocketResults} {answer : Answer}

theorem firing_timer (h : timer ∈ l.firing m) : m = .timer ∧ timer ∈ l.phase.expired ∧
    ∃ c ∈ l.conn, c.timerId % 2 ^ 32 = timer.id % 2 ^ 32 := by
  cases m with
  | timer =>
      obtain ⟨head, closes⟩ := Option.filter_eq_some_iff.mp h
      rw [Bool.and_eq_true, Option.any_eq_true] at closes
      obtain ⟨c, hc, same⟩ := closes.2
      exact ⟨rfl, List.mem_of_mem_head? head, c, hc, by simpa using same⟩
  | _ => cases h

theorem bumps_eq (h : s ≠ .bumpTimer) : s.bumps = 0 := by
  cases s <;> first | rfl | exact absurd rfl h

theorem inPhase_congr (packs : l'.packs.length = l.packs.length) (written : l'.written = l.written)
    (h : l.InPhase timer) : l'.InPhase timer := by
  unfold InPhase at h ⊢
  cases hk : timer.kind with
  | read =>
      rw [hk] at h
      exact h.trans packs.symm
  | write n =>
      rw [hk] at h
      exact fun hn => h (written ▸ hn)

/-- One timer that has been armed and not yet looked at. -/
def Guards (l : Lifetime) (c : TCPConnection) (timer : Timer) : Prop :=
  timer.id ≤ c.timerId ∧ (timer.id = c.timerId → l.InPhase timer ∨ l.Superseded)

/-- With both timeouts enabled and every `done` inside `CallMethod`. -/
structure Timed (l : Lifetime) : Prop where
  sync : ∀ pack ∈ l.packs, pack.later = false
  known : ∀ n, n ∈ l.packed ∨ n ∈ l.written → n < l.packs.length
  loop : ∀ s, s ∈ l.setup ∨ s ∈ l.agenda → s.packs = [] ∧ ∀ n, s ≠ .runAfter (.write n)
  todo : ∀ pack ∈ l.packs, ∀ s ∈ pack.todo,
    (∀ n ∈ s.packs, n < l.packs.length) ∧ ∀ n, s = .runAfter (.write n) → n ∉ l.written
  timers : ∀ c, l.conn = some c → ∀ t, t ∈ l.timers ∨ t ∈ l.phase.expired → l.Guards c t

/-- Between two callbacks nothing supersedes a timer any more. -/
theorem Timed.settled (h : Timed l) (rest : l.AtRest) : (∀ pack ∈ l.packs, pack.todo = []) ∧
    ¬ l.Superseded := by
  have none : ∀ pack ∈ l.packs, pack.todo = [] := fun pack hm => rest.2 pack hm (h.sync pack hm)
  have empty : l.pending = [] := by
    rw [pending, rest.1, List.nil_append, List.flatMap_eq_nil_iff]
    exact none
  refine ⟨none, ?_⟩
  rintro (bump | delete)
  · rw [empty] at bump
    cases bump
  · rw [empty] at delete
    cases delete

/-- Executing a statement keeps every timer to its phase: a bump outdates all of them,
and a timer that is armed begins in its phase. -/
theorem guards_exec (run : Executed s l₀ l') (conn : l₀.conn = l.conn) (timers : l₀.timers = l.timers)
    (expired : l₀.phase.expired = l.phase.expired) (packs : l₀.packs.length = l.packs.length)
    (written : l₀.written = l.written)
    (guards : ∀ c, l.conn = some c → ∀ t, t ∈ l.timers ∨ t ∈ l.phase.expired → l.Guards c t)
    (write : ∀ n, s = .runAfter (.write n) → n ∉ l.written)
    (superseded : s ≠ .bumpTimer → s ≠ .deleteConn → l.Superseded → l'.Superseded) :
    ∀ c, l'.conn = some c → ∀ t, t ∈ l'.timers ∨ t ∈ l'.phase.expired → l'.Guards c t := by
  intro c' hc' t ht
  obtain ⟨stays, c, hc, touched, armed⟩ := run.kept c' hc'
  rw [conn] at hc
  have same : l'.packs.length = l.packs.length := by rw [run.packs, packs]
  have same' : l'.written = l.written := run.written.trans written
  have old : t ∈ l.timers ∨ t ∈ l.phase.expired → l'.Guards c' t := by
    intro before
    obtain ⟨le, phase⟩ := guards c hc t before
    refine ⟨by rw [touched.timerId]; omega, fun current => ?_⟩
    rw [touched.timerId] at current
    by_cases hs : s = .bumpTimer
    · subst hs
      have bumped : Stmt.bumps .bumpTimer = 1 := rfl
      omega
    · rw [bumps_eq hs] at current
      exact (phase current).imp (inPhase_congr same same') (superseded hs stays)
  rw [armed, timers, packs, run.phase, expired, List.mem_append] at ht
  rcases ht with (before | new) | before
  · exact old (.inl before)
  · cases s with
    | runAfter kind =>
        obtain rfl := List.mem_singleton.mp new
        refine ⟨touched.timerId.ge, fun _ => .inl ?_⟩
        cases kind with
        | read => exact same.symm
        | write n =>
            change n ∉ l'.written
            rw [same']
            exact write n rfl
    | _ => cases new
  · exact old (.inr before)

/-- Moves that change neither the timers' ids nor what they guard. -/
theorem guards_frame (conn : ∀ c', l'.conn = some c' → ∃ c, l.conn = some c ∧ c'.timerId = c.timerId)
    (timers : ∀ t, t ∈ l'.timers ∨ t ∈ l'.phase.expired → t ∈ l.timers ∨ t ∈ l.phase.expired)
    (kept : ∀ t, l.InPhase t ∨ l.Superseded → l'.InPhase t ∨ l'.Superseded)
    (guards : ∀ c, l.conn = some c → ∀ t, t ∈ l.timers ∨ t ∈ l.phase.expired → l.Guards c t) :
    ∀ c, l'.conn = some c → ∀ t, t ∈ l'.timers ∨ t ∈ l'.phase.expired → l'.Guards c t := by
  intro c' hc' t ht
  obtain ⟨c, hc, same⟩ := conn c' hc'
  obtain ⟨le, phase⟩ := guards c hc t (timers t ht)
  exact ⟨le.trans same.ge, fun current => kept t (phase (current.trans same))⟩

theorem newConnectionCallback_plain (h : s ∈ srv.newConnectionCallback) :
    s.packs = [] ∧ ∀ n, s ≠ .runAfter (.write n) := by
  unfold PbServer.newConnectionCallback PbServer.armTimer at h
  split_ifs at h <;> simp only [List.mem_append, List.mem_cons, List.not_mem_nil, or_false] at h
  · rcases h with ((rfl | rfl | rfl) | rfl | rfl) | rfl | rfl | rfl <;> simp [Stmt.packs]
  · rcases h with (rfl | rfl | rfl) | rfl | rfl | rfl <;> simp [Stmt.packs]

theorem closeCallback_plain (h : s ∈ PbServer.closeCallback) :
    s.packs = [] ∧ ∀ n, s ≠ .runAfter (.write n) := by
  simp only [PbServer.closeCallback, List.mem_cons, List.not_mem_nil, or_false] at h
  rcases h with rfl | rfl | rfl | rfl | rfl <;> simp [Stmt.packs]

theorem writeCompleteCallback_plain {connType : ConnType} (h : s ∈ srv.writeCompleteCallback connType) :
    s.packs = [] ∧ ∀ n, s ≠ .runAfter (.write n) := by
  unfold PbServer.writeCompleteCallback at h
  rcases List.mem_append.mp h with first | last
  · simp only [List.mem_cons, List.not_mem_nil, or_false] at first
    rcases first with rfl | rfl <;> simp [Stmt.packs]
  · split_ifs at last
    · exact closeCallback_plain last
    · unfold PbServer.armTimer at last
      split_ifs at last <;> simp only [List.mem_append, List.mem_cons, List.not_mem_nil, or_false] at last
      · rcases last with (rfl | rfl) | rfl | rfl <;> simp [Stmt.packs]
      · rcases last with rfl | rfl <;> simp [Stmt.packs]

theorem responseCallback_plain {respStr : Bytes} (h : s ∈ srv.responseCallback n respStr) :
    (∀ k ∈ s.packs, k = n) ∧ ∀ k, s = .runAfter (.write k) → k = n := by
  unfold PbServer.responseCallback PbServer.armTimer at h
  split_ifs at h <;> simp only [List.mem_append, List.mem_cons, List.not_mem_nil, or_false] at h
  · rcases h with (rfl | rfl | rfl | rfl | rfl | rfl) | rfl | rfl <;> simp [Stmt.packs, eq_comm]
  · rcases h with rfl | rfl | rfl | rfl | rfl | rfl <;> simp [Stmt.packs]

/-- The write-complete callback replaces the timer or deletes the connection. -/
theorem writeCompleteCallback_supersedes (enabled : 0 < srv.readTimeoutMs) (connType : ConnType) :
    .bumpTimer ∈ srv.writeCompleteCallback connType ∨
      .deleteConn ∈ srv.writeCompleteCallback connType := by
  unfold PbServer.writeCompleteCallback PbServer.armTimer
  rw [if_pos enabled]
  split_ifs
  · exact .inr (by simp [PbServer.closeCallback])
  · exact .inl (by simp)

theorem responseCallback_bumps (enabled : 0 < srv.writeTimeoutMs) (n : Nat) (respStr : Bytes) :
    .bumpTimer ∈ srv.responseCallback n respStr := by
  unfold PbServer.responseCallback PbServer.armTimer
  rw [if_pos enabled]
  simp

theorem superseded_of_agenda (h : .bumpTimer ∈ l.agenda ∨ .deleteConn ∈ l.agenda) : l.Superseded :=
  h.imp (fun hs => mem_pending.mpr (.inl hs)) fun hs => mem_pending.mpr (.inl hs)

theorem Superseded.mono (h : l.Superseded)
    (kept : ∀ s, s = .bumpTimer ∨ s = .deleteConn → s ∈ l.pending → s ∈ l'.pending) :
    l'.Superseded :=
  h.imp (kept _ (.inl rfl)) (kept _ (.inr rfl))

theorem timed_setup (h : Timed l) (hs : l.setup = s :: rest)
    (run : Executed s { l with setup := rest } l') : Timed l' := by
  obtain ⟨packs, plain⟩ := h.loop s (.inl (by simp [hs]))
  have same : l'.pending = l.pending := by rw [pending, pending, run.agenda, run.packs]
  refine ⟨?_, fun n hn => ?_, fun t ht => ?_, ?_, ?_⟩
  · rw [run.packs]
    exact h.sync
  · rw [run.packed, packs, List.append_nil, run.written] at hn
    rw [run.packs]
    exact h.known n hn
  · rw [run.setup, run.agenda] at ht
    exact h.loop t (ht.imp_left fun ht => by rw [hs]; exact List.mem_cons_of_mem _ ht)
  · rw [run.packs, run.written]
    exact h.todo
  · refine guards_exec (l := l) run rfl rfl rfl rfl rfl h.timers (fun n hn => absurd hn (plain n)) ?_
    exact fun _ _ before => before.mono fun t _ ht => same ▸ ht

theorem timed_stmt (h : Timed l) (hs : l.agenda = s :: rest)
    (run : Executed s { l with agenda := rest } l') : Timed l' := by
  obtain ⟨packs, plain⟩ := h.loop s (.inr (by simp [hs]))
  refine ⟨?_, fun n hn => ?_, fun t ht => ?_, ?_, ?_⟩
  · rw [run.packs]
    exact h.sync
  · rw [run.packed, packs, List.append_nil, run.written] at hn
    rw [run.packs]
    exact h.known n hn
  · rw [run.setup, run.agenda] at ht
    exact h.loop t (ht.imp_right fun ht => by rw [hs]; exact List.mem_cons_of_mem _ ht)
  · rw [run.packs, run.written]
    exact h.todo
  · refine guards_exec (l := l) run rfl rfl rfl rfl rfl h.timers (fun n hn => absurd hn (plain n)) ?_
    intro bump delete before
    refine before.mono fun t ht hm => ?_
    rw [mem_pending, hs, List.mem_cons] at hm
    rw [mem_pending, run.agenda, run.packs]
    refine hm.imp_left fun hm => hm.resolve_left ?_
    rintro rfl
    exact ht.elim bump delete

theorem timed_respond (h : Timed l) (hp : l.packs[n]? = some pack) (hs : pack.todo = s :: rest)
    (run : Executed s { l with packs := l.packs.set n { pack with todo := rest } } l') : Timed l' := by
  have hmem : pack ∈ l.packs := List.mem_of_getElem? hp
  obtain ⟨packs, write⟩ := h.todo pack hmem s (by simp [hs])
  have len : l'.packs.length = l.packs.length := by rw [run.packs, List.length_set]
  have mem : ∀ p ∈ l'.packs, p ∈ l.packs ∨ p = { pack with todo := rest } := by
    rw [run.packs]
    exact fun p hm => List.mem_or_eq_of_mem_set hm
  have lost : ∀ p ∈ l.packs, p ∈ l'.packs ∨ p = pack := by
    intro p hm
    obtain ⟨k, hk, rfl⟩ := List.getElem_of_mem hm
    by_cases hkn : k = n
    · subst hkn
      exact .inr (Option.some.inj ((List.getElem?_eq_getElem hk).symm.trans hp))
    · refine .inl (List.mem_of_getElem? (i := k) ?_)
      rw [run.packs, List.getElem?_set_ne (Ne.symm hkn), List.getElem?_eq_getElem hk]
  have replaced : { pack with todo := rest } ∈ l'.packs := by
    refine List.mem_of_getElem? (i := n) ?_
    rw [run.packs, List.getElem?_set_self (List.getElem?_eq_some_iff.mp hp).1]
  refine ⟨fun p hm => ?_, fun k hk => ?_, ?_, fun p hm t ht => ?_, ?_⟩
  · rcases mem p hm with old | rfl
    · exact h.sync p old
    · exact h.sync pack hmem
  · rw [run.packed, List.mem_append, run.written] at hk
    rw [len]
    rcases hk with (old | new) | written
    · exact h.known k (.inl old)
    · exact packs k new
    · exact h.known k (.inr written)
  · rw [run.setup, run.agenda]
    exact h.loop
  · rw [len, run.written]
    rcases mem p hm with old | rfl
    · exact h.todo p old t ht
    · exact h.todo pack hmem t (by rw [hs]; exact List.mem_cons_of_mem _ ht)
  · refine guards_exec (l := l) run rfl rfl rfl List.length_set rfl h.timers write ?_
    intro bump delete before
    refine before.mono fun t ht hm => ?_
    rw [mem_pending] at hm
    rw [mem_pending, run.agenda]
    refine hm.imp_right ?_
    rintro ⟨p, hp', hm⟩
    rcases lost p hp' with kept | rfl
    · exact ⟨p, kept, hm⟩
    · refine ⟨_, replaced, ?_⟩
      rw [hs] at hm
      refine (List.mem_cons.mp hm).resolve_left ?_
      rintro rfl
      exact ht.elim bump delete

theorem timed_event (read : 0 < srv.readTimeoutMs) (write : 0 < srv.writeTimeoutMs) (h : Timed l)
    (rest : l.AtRest) (later : answer.later = false)
    (hc : l.conn = some c) (outcome : Outcome srv { l with phase := .handled } c events io answer l') :
    Timed l' := by
  obtain ⟨none, settled⟩ := h.settled rest
  have timers : ∀ {l' : Lifetime} {d : TCPConnection}, l'.conn = some d → d.timerId = c.timerId →
      l'.timers = l.timers → l'.phase = .handled →
      (∀ t, l.InPhase t ∨ l.Superseded → l'.InPhase t ∨ l'.Superseded) →
      ∀ c, l'.conn = some c → ∀ t, t ∈ l'.timers ∨ t ∈ l'.phase.expired → l'.Guards c t := by
    intro l' d hd same timers phase kept
    refine guards_frame (fun c' hc' => ⟨c, hc, ?_⟩) (fun t ht => ?_) kept h.timers
    · rw [← Option.some.inj (hd.symm.trans hc')]
      exact same
    · rw [timers, phase] at ht
      exact ht.imp_right fun ht => by cases ht
  have idle : ∀ s, s ∈ l.setup ∨ s ∈ l.agenda → s.packs = [] ∧ ∀ n, s ≠ .runAfter (.write n) := h.loop
  have parsed : ∀ {d : TCPConnection}, Parsed c d → d.timerId = c.timerId := by
    intro d hd
    rw [hd]
  cases outcome with
  | wrote => exact ⟨h.sync, h.known, idle, h.todo, timers rfl rfl rfl rfl fun _ => id⟩
  | ignored _ => exact ⟨h.sync, h.known, idle, h.todo, timers rfl rfl rfl rfl fun _ => id⟩
  | @waits n rbuf d _ _ _ _ hcall =>
      have same := parsed ((Parsed.rbuf c rbuf).trans (dataReadCallback_parsed hcall))
      exact ⟨h.sync, h.known, idle, h.todo, timers rfl same rfl rfl fun _ => id⟩
  | closes _ closing =>
      refine ⟨h.sync, h.known, fun s hs => ?_, h.todo,
        timers rfl (parsed closing.parsed) rfl rfl fun _ _ => .inr ?_⟩
      · rcases hs with setup | agenda
        · exact h.loop s (.inl setup)
        · exact closeCallback_plain agenda
      · exact superseded_of_agenda (.inr (by simp [PbServer.closeCallback]))
  | @completes _ _ _ ctx _ _ _ _ _ =>
      refine ⟨h.sync, fun n hn => ?_, fun s hs => ?_, fun p hm s hs => ?_,
        timers rfl rfl rfl rfl fun _ _ => .inr ?_⟩
      · rcases hn with hn | hn
        · cases hn
        · exact h.known n (List.mem_append.mp hn).symm
      · rcases hs with setup | agenda
        · exact h.loop s (.inl setup)
        · exact writeCompleteCallback_plain agenda
      · rw [none p hm] at hs
        cases hs
      · exact superseded_of_agenda (writeCompleteCallback_supersedes read ctx.base.connType)
  | @dispatches n rbuf d request _ _ _ _ hcall _ =>
      have same := parsed ((Parsed.rbuf c rbuf).trans (dataReadCallback_parsed hcall))
      have len : ∀ pack : Pack, (l.packs ++ [pack]).length = l.packs.length + 1 := fun pack =>
        List.length_append
      refine ⟨fun p hm => ?_, fun n hn => ?_, idle, fun p hm s hs => ?_,
        timers rfl same rfl rfl fun _ _ => .inr (.inl ?_)⟩
      · rcases List.mem_append.mp hm with old | new
        · exact h.sync p old
        · rw [List.mem_singleton.mp new]
          exact later
      · exact (h.known n hn).trans_le ((Nat.le_add_right _ 1).trans (len _).ge)
      · rcases List.mem_append.mp hm with old | new
        · rw [none p old] at hs
          cases hs
        · obtain rfl := List.mem_singleton.mp new
          obtain ⟨packs, write⟩ := responseCallback_plain hs
          refine ⟨fun k hk => ?_, fun k hk written => ?_⟩
          · rw [packs k hk]
            exact (Nat.lt_add_one _).trans_le (len _).ge
          · exact absurd (h.known k (.inr written)) ((write k hk) ▸ Nat.lt_irrefl _)
      · exact mem_pending.mpr (.inr ⟨_, List.mem_append_right _ List.mem_cons_self,
          responseCallback_bumps write _ _⟩)

theorem timed_step (read : 0 < srv.readTimeoutMs) (write : 0 < srv.writeTimeoutMs)
    (sync : srv.async = false) (h : Timed l) (step : Step srv l m l') : Timed l' := by
  have frame : ∀ {l' : Lifetime}, l'.conn = l.conn → l'.setup = l.setup → l'.agenda = l.agenda →
      l'.packs = l.packs → l'.written = l.written → l'.packed = l.packed →
      (∀ t, t ∈ l'.timers ∨ t ∈ l'.phase.expired → t ∈ l.timers ∨ t ∈ l.phase.expired) →
      Timed l' := by
    intro l' conn setup agenda packs written packed timers
    have pending : l'.pending = l.pending := by rw [Lifetime.pending, Lifetime.pending, agenda, packs]
    refine ⟨?_, ?_, ?_, ?_, guards_frame (fun c' hc' => ⟨c', conn ▸ hc', rfl⟩) timers ?_ h.timers⟩
    · rw [packs]
      exact h.sync
    · rw [packed, written, packs]
      exact h.known
    · rw [setup, agenda]
      exact h.loop
    · rw [packs, written]
      exact h.todo
    · exact fun t before => before.imp (inPhase_congr (by rw [packs]) written) fun before =>
        before.mono fun s _ hs => pending ▸ hs
  cases step_moved step with
  | fault _ => exact frame rfl rfl rfl rfl rfl rfl fun _ => id
  | setup hs run => exact timed_setup h hs run
  | stmt hs run => exact timed_stmt h hs run
  | respond hp hs run => exact timed_respond h hp hs run
  | @event events io answer c _ rest later hc _ _ outcome =>
      refine timed_event read write h rest ?_ hc outcome
      cases hl : answer.later with
      | false => rfl
      | true =>
          have async := later hl
          rw [sync] at async
          cases async
  | quiet _ =>
      refine frame rfl rfl rfl rfl rfl rfl fun t ht => ht.imp_right fun ht => ?_
      cases ht
  | swap _ _ =>
      refine frame rfl rfl rfl rfl rfl rfl fun t ht => ht.imp_right fun ht => ?_
      cases ht
  | @func n _ rest hp run =>
      have none := (h.settled rest).2
      have packs : l'.packs = l.packs := run.packs
      have written : l'.written = l.written := run.written
      refine ⟨?_, fun k hk => ?_, ?_, ?_, ?_⟩
      · rw [packs]
        exact h.sync
      · rw [run.packed, written] at hk
        rw [packs]
        exact h.known k (hk.imp_left fun hk => by simpa [Stmt.packs] using hk)
      · rw [run.setup, run.agenda]
        exact h.loop
      · rw [packs, written]
        exact h.todo
      · refine guards_exec (l := l) run rfl rfl (by rw [hp]; rfl) rfl rfl h.timers ?_
          fun _ _ before => absurd before none
        rintro n hn
        cases hn
  | drain _ hp perm =>
      refine frame rfl rfl rfl rfl rfl rfl fun t ht => .inl ?_
      rw [perm.mem_iff, List.mem_append]
      exact ht.symm
  | @expire timer rest c _ hp _ hc _ =>
      refine ⟨h.sync, h.known, fun s hs => ?_, h.todo,
        guards_frame (l := l) (fun c' hc' => ⟨c', hc', rfl⟩) (fun t ht => ?_) (fun t _ => .inr ?_)
          h.timers⟩
      · rcases hs with setup | agenda
        · exact h.loop s (.inl setup)
        · exact closeCallback_plain agenda
      · rw [hp]
        exact ht.imp_right fun ht => List.mem_cons_of_mem _ ht
      · exact superseded_of_agenda (.inr (by simp [PbServer.closeCallback]))
  | stale _ hp =>
      refine frame rfl rfl rfl rfl rfl rfl fun t ht => ?_
      rw [hp]
      exact ht.imp_right fun ht => List.mem_cons_of_mem _ ht
  | poll _ _ =>
      refine frame rfl rfl rfl rfl rfl rfl fun t ht => ht.imp_right fun ht => ?_
      cases ht

theorem timed_start : Timed (accepted srv fd) := by
  refine ⟨nofun, ?_, fun s hs => ?_, nofun, ?_⟩
  · rintro n (h | h) <;> cases h
  · rcases hs with setup | agenda
    · exact newConnectionCallback_plain setup
    · cases agenda
  · rintro c _ t (h | h) <;> cases h

/-- With both timeouts and synchronous services. -/
theorem closesInPhase_paired (read : 0 < srv.readTimeoutMs) (write : 0 < srv.writeTimeoutMs)
    (sync : srv.async = false) (run : Run (lifetime srv fd) ls l) (recent : Guarded Recent ls) :
    Guarded ClosesInPhase ls := by
  have enabled : Guarded (fun l m => l.Enabled srv m) ls := run.guarded fun step => step.2.1
  refine run.forall_steps (I := Timed) (recent.and enabled) ?_ ?_ ?_
  · rintro _ rfl
    exact timed_start
  · exact fun h _ step => timed_step read write sync h step
  · intro l m h guard timer firing
    obtain ⟨rfl, expired, c, hc, same⟩ := firing_timer firing
    obtain ⟨le, phase⟩ := h.timers c hc timer (.inr expired)
    have close := guard.1 timer firing c hc
    have current : timer.id = c.timerId := by omega
    exact (phase current).resolve_right (h.settled guard.2.1).2

/-- With both timeouts disabled no timer is ever armed. -/
structure Untimed (l : Lifetime) : Prop where
  statements : ∀ s ∈ l.statements, ∀ i n, s.arms i n = []
  timers : ∀ c, l.conn = some c → l.timers = [] ∧ l.phase.expired = []

theorem armTimer_disabled {ms : Int} {kind : TimerKind} (h : ms ≤ 0) :
    PbServer.armTimer ms kind = [] := if_neg (not_lt.mpr h)

/-- What the callbacks do without timers. -/
theorem callbacks_untimed (read : srv.readTimeoutMs ≤ 0) (write : srv.writeTimeoutMs ≤ 0)
    (h : s ∈ PbServer.closeCallback ∨ s ∈ srv.newConnectionCallback ∨
      (∃ connType, s ∈ srv.writeCompleteCallback connType) ∨
      ∃ n respStr, s ∈ srv.responseCallback n respStr) (i n : Nat) : s.arms i n = [] := by
  have close : s ∈ PbServer.closeCallback → s.arms i n = [] := by
    intro h
    simp only [PbServer.closeCallback, List.mem_cons, List.not_mem_nil, or_false] at h
    rcases h with rfl | rfl | rfl | rfl | rfl <;> rfl
  rcases h with h | h | ⟨connType, h⟩ | ⟨k, respStr, h⟩
  · exact close h
  · simp only [PbServer.newConnectionCallback, armTimer_disabled read, List.mem_append, List.mem_cons,
      List.not_mem_nil, or_false] at h
    rcases h with (rfl | rfl | rfl) | rfl | rfl | rfl <;> rfl
  · rcases List.mem_append.mp h with first | last
    · simp only [List.mem_cons, List.not_mem_nil, or_false] at first
      rcases first with rfl | rfl <;> rfl
    · split_ifs at last
      · exact close last
      · simp only [armTimer_disabled read, List.append_nil, List.mem_cons, List.not_mem_nil,
          or_false] at last
        rcases last with rfl | rfl <;> rfl
  · simp only [PbServer.responseCallback, armTimer_disabled write, List.append_nil, List.mem_cons,
      List.not_mem_nil, or_false] at h
    rcases h with rfl | rfl | rfl | rfl | rfl | rfl <;> rfl

theorem Untimed.exec (h : Untimed l) (run : Executed s l₀ l') (conn : l₀.conn = l.conn)
    (timers : l₀.timers = l.timers) (expired : l₀.phase.expired = l.phase.expired)
    (arms : ∀ i n, s.arms i n = []) (hc' : l'.conn = some c') :
    l'.timers = [] ∧ l'.phase.expired = [] := by
  obtain ⟨_, c, hc, _, armed⟩ := run.kept c' hc'
  rw [conn] at hc
  obtain ⟨none, none'⟩ := h.timers c hc
  rw [armed, arms, List.append_nil, timers, run.phase, expired]
  exact ⟨none, none'⟩

theorem untimed_step (read : srv.readTimeoutMs ≤ 0) (write : srv.writeTimeoutMs ≤ 0) (h : Untimed l)
    (step : Step srv l m l') : Untimed l' := by
  refine ⟨fun s hs => ?_, fun c' hc' => ?_⟩
  · rcases statements_step step hs with before | close | complete | respond
    · exact h.statements s before
    · exact callbacks_untimed read write (.inl close)
    · exact callbacks_untimed read write (.inr (.inr (.inl complete)))
    · exact callbacks_untimed read write (.inr (.inr (.inr respond)))
  · have quiet : ∀ {c}, l.conn = some c → l.timers = [] ∧ l.phase.expired = [] := fun hc => h.timers _ hc
    cases step_moved step with
    | fault _ => exact h.timers c' hc'
    | setup hs run =>
        exact h.exec run rfl rfl rfl (h.statements _ (mem_statements.mpr (.inl (by simp [hs])))) hc'
    | stmt hs run =>
        exact h.exec run rfl rfl rfl
          (h.statements _ (mem_statements.mpr (.inr (.inl (by simp [hs]))))) hc'
    | respond hp hs run =>
        exact h.exec run rfl rfl rfl (h.statements _ (mem_statements.mpr
          (.inr (.inr ⟨_, List.mem_of_getElem? hp, by simp [hs]⟩)))) hc'
    | event _ _ hc _ _ outcome =>
        have timers := (quiet hc).1
        cases outcome <;> exact ⟨timers, rfl⟩
    | quiet _ => exact ⟨(quiet hc').1, rfl⟩
    | swap _ _ => exact ⟨(quiet hc').1, rfl⟩
    | func _ hp run => exact h.exec run rfl rfl (by rw [hp]; rfl) (fun _ _ => rfl) hc'
    | drain _ _ perm =>
        have none := perm
        rw [(quiet hc').1, List.nil_perm, List.append_eq_nil_iff] at none
        exact none.symm
    | expire _ hp _ _ _ =>
        have none := (quiet hc').2
        rw [hp] at none
        cases none
    | stale _ hp =>
        have none := (quiet hc').2
        rw [hp] at none
        cases none
    | poll _ _ => exact ⟨(quiet hc').1, rfl⟩

/-- Without timeouts nothing fires. -/
theorem closesInPhase_disabled (read : srv.readTimeoutMs ≤ 0) (write : srv.writeTimeoutMs ≤ 0)
    (run : Run (lifetime srv fd) ls l) : Guarded ClosesInPhase ls := by
  refine run.forall_steps (I := Untimed) guarded_true ?_ ?_ ?_
  · rintro _ rfl
    refine ⟨fun s hs => ?_, fun _ _ => ⟨rfl, rfl⟩⟩
    rcases mem_statements.mp hs with setup | agenda | ⟨pack, hm, _⟩
    · exact callbacks_untimed read write (.inr (.inl setup))
    · cases agenda
    · cases hm
  · exact fun h _ step => untimed_step read write h step
  · intro l m h _ timer firing
    obtain ⟨_, expired, c, hc, _⟩ := firing_timer firing
    rw [(h.timers c hc).2] at expired
    cases expired

end SmallRpc.Lifetime

namespace SmallRpc.PbServer

/-- The timeouts are enabled together or not at all, and no `done` comes late. -/
def Paired (readTimeoutMs writeTimeoutMs : Int) (async : Bool) : Prop :=
  (readTimeoutMs ≤ 0 ∧ writeTimeoutMs ≤ 0) ∨
    (0 < readTimeoutMs ∧ 0 < writeTimeoutMs ∧ async = false)

variable {srv srv' : PbServer}

/-- Two servers that differ only in how long their timeouts are. -/
structure SameSettings (srv srv' : PbServer) : Prop where
  protocols : srv.protocols = srv'.protocols
  services : srv.services = srv'.services
  parses : srv.parses = srv'.parses
  async : srv.async = srv'.async
  read : 0 < srv.readTimeoutMs ↔ 0 < srv'.readTimeoutMs
  write : 0 < srv.writeTimeoutMs ↔ 0 < srv'.writeTimeoutMs

theorem armTimer_congr {a b : Int} (h : 0 < a ↔ 0 < b) (kind : TimerKind) :
    armTimer a kind = armTimer b kind := by
  rw [armTimer, armTimer]
  simp only [h]

theorem SameSettings.next (h : SameSettings srv srv') (l : Lifetime) (m : Move) :
    l.next srv m = l.next srv' m := by
  have read := fun kind => armTimer_congr h.read kind
  have write := fun kind => armTimer_congr h.write kind
  have respond : ∀ n respStr, srv.responseCallback n respStr = srv'.responseCallback n respStr := by
    intro n respStr
    rw [responseCallback, responseCallback, write]
  have complete : ∀ connType, srv.writeCompleteCallback connType = srv'.writeCompleteCallback connType := by
    intro connType
    rw [writeCompleteCallback, writeCompleteCallback, read]
  have parse : srv.dataReadCallback = srv'.dataReadCallback := by
    funext conn
    rw [dataReadCallback, dataReadCallback, h.protocols]
  have request : srv.requestCallback = srv'.requestCallback := by
    have find : srv.findServiceMethod = srv'.findServiceMethod := by
      funext service method
      rw [findServiceMethod, findServiceMethod, h.services]
    funext conn
    simp only [requestCallback, find, h.parses]
  unfold Lifetime.next Lifetime.effect Lifetime.handle
  simp only [Lifetime.call, Lifetime.writeComplete, Lifetime.dataRead, Lifetime.request, respond, complete,
    parse, request]

theorem SameSettings.enabled (h : SameSettings srv srv') (l : Lifetime) (m : Move) :
    l.Enabled srv m ↔ l.Enabled srv' m := by
  cases m with
  | event events io answer =>
      unfold Lifetime.Enabled
      rw [h.async]
  | _ => exact Iff.rfl

theorem SameSettings.accepted (h : SameSettings srv srv') (fd : Nat) :
    Lifetime.accepted srv fd = Lifetime.accepted srv' fd := by
  rw [Lifetime.accepted, Lifetime.accepted, newConnectionCallback, newConnectionCallback,
    armTimer_congr h.read]

end SmallRpc.PbServer

namespace SmallRpc.TCPServer
open Runs Lifetime PbServer

variable {srv srv' : PbServer} {threadNum : Nat} {w : TCPServer} {es : List (TCPServer × Action)}

theorem next_congr (h : SameSettings srv srv') : next srv threadNum = next srv' threadNum := by
  funext w a
  cases a with
  | accept r =>
      cases r with
      | conn fd => simp only [next, accept, h.accepted]
      | again => rfl
      | failed => rfl
  | act i m => simp only [next, act, h.next]

theorem enabled_congr (h : SameSettings srv srv') (w : TCPServer) (a : Action) :
    w.Enabled srv a ↔ w.Enabled srv' a := by
  cases a with
  | accept r => cases r <;> exact Iff.rfl
  | act i m => simp only [Enabled, h.enabled]

/-- A run of a server is one of every server with the same settings. -/
theorem run_visits_congr (h : SameSettings srv srv') (as : List Action)
    (enabled : ∀ e ∈ visits (next srv' 2) booted as, e.1.Enabled srv' e.2) :
    Run (server srv 2) (visits (next srv' 2) booted as) (replay (next srv' 2) booted as) := by
  rw [← next_congr h] at enabled ⊢
  exact run_visits srv as fun e he => (enabled_congr h e.1 e.2).mpr (enabled e he)

/-- The service `a` again, with timeouts. -/
def timed (async : Bool) (readTimeoutMs writeTimeoutMs : Int) : PbServer :=
  { echo async with readTimeoutMs, writeTimeoutMs }

theorem timed_same (async : Bool) {r w r' w' : Int} (read : 0 < r ↔ 0 < r') (write : 0 < w ↔ 0 < w') :
    SameSettings (timed async r w) (timed async r' w') :=
  ⟨rfl, rfl, rfl, rfl, read, write⟩

/-- A request that keeps the connection. -/
def keepAliveRequest : Bytes :=
  [0x19, 0x95, 0x10, 0x28] ++ [0, 0, 0, 1] ++ [0, 0, 0, 3] ++ [0x61, 0x2F, 0x62] ++
    [0, 0, 0, 4] ++ [1, 2, 3, 4]

/-- The request comes right after the setting up of `n` statements. -/
def asked (n : Nat) (later : Bool) : List Action :=
  .accept (.conn 7) :: List.replicate n (.act 0 .setup) ++
    [.act 0 (.event { epollin := true } { read := .data keepAliveRequest }
      { respStr := [104, 105], later })]

/-- The read timer expires while the response waits for the socket. -/
def readTimerFires : List Action :=
  asked 8 false ++ List.replicate 6 (.act 0 (.respond 0)) ++
    [.act 0 .swap, .act 0 .func, .act 0 (.drain [⟨.read, 1, 0⟩] []), .act 0 .timer]

/-- The write timer expires when the response is gone. -/
def writeTimerFires : List Action :=
  asked 6 false ++ List.replicate 8 (.act 0 (.respond 0)) ++
    [.act 0 .swap, .act 0 .func, .act 0 (.drain [] [⟨.write 0, 1, 1⟩]), .act 0 .poll,
     .act 0 (.event { epollout := true } { head := .wrote 16, extra := .wrote 2 } {})] ++
    List.replicate 4 (.act 0 .stmt) ++
    [.act 0 .swap, .act 0 (.drain [⟨.write 0, 1, 1⟩] []), .act 0 .timer]

/-- The read timer expires while the service is at work. -/
def readTimerFiresEarly : List Action :=
  asked 8 true ++ [.act 0 .swap, .act 0 (.drain [⟨.read, 1, 0⟩] []), .act 0 .timer]

variable {readTimeoutMs writeTimeoutMs : Int} {async : Bool}

/-- Every timer closes its connection only in the phase it guards, in all runs of all
servers with these settings. -/
def TimersInPhase (readTimeoutMs writeTimeoutMs : Int) (async : Bool) : Prop :=
  ∀ srv threadNum es w, srv.readTimeoutMs = readTimeoutMs → srv.writeTimeoutMs = writeTimeoutMs →
    srv.async = async → Run (server srv threadNum) es w → Guarded (Each Recent) es →
    Guarded (Each ClosesInPhase) es

theorem timersInPhase_paired (paired : Paired readTimeoutMs writeTimeoutMs async) :
    TimersInPhase readTimeoutMs writeTimeoutMs async := by
  rintro srv threadNum es w rfl rfl rfl run recent
  refine each_run run ?_ recent
  intro fd ls l run recent
  rcases paired with ⟨read, write⟩ | ⟨read, write, sync⟩
  · exact closesInPhase_disabled read write run
  · exact closesInPhase_paired read write sync run recent

/-- A single run in which a timer closes out of its phase. -/
theorem not_timersInPhase (r w : Int) (as : List Action) (read : 0 < readTimeoutMs ↔ 0 < r)
    (write : 0 < writeTimeoutMs ↔ 0 < w)
    (enabled : ∀ e ∈ visits (next (timed async r w) 2) booted as, e.1.Enabled (timed async r w) e.2)
    (recent : Guarded (Each Recent) (visits (next (timed async r w) 2) booted as))
    (closes : ¬ Guarded (Each ClosesInPhase) (visits (next (timed async r w) 2) booted as)) :
    ¬ TimersInPhase readTimeoutMs writeTimeoutMs async := by
  intro inPhase
  have run := run_visits_congr (timed_same async read write) as enabled
  exact closes (inPhase _ _ _ _ rfl rfl rfl run recent)

/-- The settings under which timers close a connection only in the phase they guard: both
timeouts disabled, or both enabled and every `done` inside `CallMethod`. -/
theorem timersInPhase_iff (readTimeoutMs writeTimeoutMs : Int) (async : Bool) :
    TimersInPhase readTimeoutMs writeTimeoutMs async ↔ Paired readTimeoutMs writeTimeoutMs async := by
  refine ⟨fun inPhase => ?_, timersInPhase_paired⟩
  by_cases read : 0 < readTimeoutMs
  · by_cases write : 0 < writeTimeoutMs
    · cases async with
      | false => exact .inr ⟨read, write, rfl⟩
      | true =>
          refine absurd inPhase (not_timersInPhase 1 1 readTimerFiresEarly
            (by simpa using read) (by simpa using write) ?_ ?_ ?_) <;> decide +kernel
    · refine absurd inPhase (not_timersInPhase 1 0 readTimerFires
        (by simpa using read) (by simpa using write) ?_ ?_ ?_) <;> cases async <;> decide +kernel
  · by_cases write : 0 < writeTimeoutMs
    · refine absurd inPhase (not_timersInPhase 0 1 writeTimerFires
        (by simpa using read) (by simpa using write) ?_ ?_ ?_) <;> cases async <;> decide +kernel
    · exact .inl ⟨not_lt.mp read, not_lt.mp write⟩

/-- The read timer alone: it fires while the response is being written. -/
theorem readTimer_closes_late : ¬ ∀ srv threadNum es w, Run (server srv threadNum) es w →
    Guarded (Each ClosesInPhase) es := by
  intro claim
  have closes := claim _ _ _ _
    (run_visits (timed false 1 0) readTimerFires (by decide +kernel))
  revert closes
  decide +kernel

end SmallRpc.TCPServer
