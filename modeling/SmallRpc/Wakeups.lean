import SmallRpc.TimeStamps

/-! An event loop and the threads that leave work for it. A function is pushed and the
`eventfd` written under one mutex; a timer is pushed under another one, and the `eventfd`
written after that; `stop` has no mutex. The loop resets the `eventfd`, swaps the queue,
drains the timers, looks at the flag and computes its timeout, each at its own point of a
turn. -/
namespace SmallRpc
open Runs

/-- Who calls `add_func`, `run_after` and `stop`: the loop's own thread does so from
inside of a handler, a function or a timer. -/
inductive Caller where
  | loop
  | thread (i : Nat)
  deriving DecidableEq, Repr

/-- Where the loop's thread is: at the head of the `while`, past it, in `epoll_wait`, in
the batch that it reported, in the functions or in the timers of this turn. -/
inductive LoopPoint where
  | top
  | computing
  | waiting (timeoutMs : Int) (now : TimeStamp)
  | events (wakeuper : Bool)
  | funcs (left : List Nat)
  | timers (left : List TimerManager.Timer)
  | stopped
  deriving DecidableEq

/-- `eventfd` is the counter. Whoever is in `toWake` has done the first half of a call and
has `wakeup` left; `holder` is in `add_func`, with `_funcs_mtx`. Functions are numbered in
the order in which they were pushed, timers likewise; `executed` are the functions called so
far. -/
structure EventLoop where
  isStop : Bool := false
  eventfd : Nat := 0
  funcs : List Nat := []
  timers : TimerManager := .empty
  holder : Option Caller := none
  toWake : Caller → Bool := fun _ => false
  point : LoopPoint := .top
  added : Nat := 0
  armed : Nat := 0
  executed : List Nat := []

inductive LoopMove where
  | addFunc (who : Caller)
  | runAfter (who : Caller) (clock : TimeStamp) (afterTimeMs : Int)
  | stop (who : Caller)
  | wakeup (who : Caller)
  | check
  | compute (now : TimeStamp)
  | interrupted
  | wait (wakeuper : Bool)
  | handleWakeuper
  | swap
  | func
  | drain (now : TimeStamp)
  | timer
  | again
  deriving DecidableEq

namespace LoopPoint

/-- What has been swapped out of `_funcs`. -/
def funcsLeft : LoopPoint → List Nat
  | funcs left => left
  | _ => []

/-- The timers of this turn that are still to be executed. -/
def timersLeft : LoopPoint → List TimerManager.Timer
  | timers left => left
  | _ => []

/-- In `epoll_wait`. -/
def blocked : LoopPoint → Bool
  | waiting _ _ => true
  | _ => false

/-- The loop's thread runs what is not its own: handlers, functions and timers. -/
def calling : LoopPoint → Bool
  | events _ => true
  | funcs _ => true
  | timers _ => true
  | _ => false

/-- Past the test of the flag, and not yet past the reading of the `eventfd`. -/
def asleep : LoopPoint → Bool
  | computing => true
  | waiting _ _ => true
  | events wakeuper => wakeuper
  | _ => false

variable {p : LoopPoint}

theorem blocked_iff : p.blocked = true ↔ ∃ t n, p = .waiting t n := by
  cases p <;> simp [blocked]

theorem funcsLeft_ne_nil : p.funcsLeft ≠ [] ↔ ∃ f left, p = .funcs (f :: left) := by
  cases p with
  | funcs left => cases left <;> simp [funcsLeft]
  | _ => simp [funcsLeft]

theorem timersLeft_ne_nil : p.timersLeft ≠ [] ↔ ∃ tm left, p = .timers (tm :: left) := by
  cases p with
  | timers left => cases left <;> simp [timersLeft]
  | _ => simp [timersLeft]

end LoopPoint

namespace EventLoop

/-- `addFunc`, `runAfter` and `stop` up to the `wakeup` that each of them ends with. -/
def next (s : EventLoop) : LoopMove → EventLoop
  | .addFunc who =>
    { s with funcs := s.funcs ++ [s.added], added := s.added + 1, holder := some who
             toWake := Function.update s.toWake who true }
  | .runAfter who clock afterTimeMs =>
    { s with timers := s.timers.addTimer ⟨clock.afterNowMs afterTimeMs, s.armed⟩
             armed := s.armed + 1
             toWake := Function.update s.toWake who true }
  | .stop who => { s with isStop := true, toWake := Function.update s.toWake who true }
  | .wakeup who =>
    { s with eventfd := s.eventfd + 1, toWake := Function.update s.toWake who false
             holder := if s.holder = some who then none else s.holder }
  | .check => { s with point := if s.isStop then .stopped else .computing }
  | .compute now => { s with point := .waiting (timeoutMs now s.timers) now }
  | .interrupted => { s with point := .top }
  | .wait wakeuper => { s with point := .events wakeuper }
  | .handleWakeuper => { s with eventfd := 0, point := .events false }
  | .swap => { s with point := .funcs s.funcs, funcs := [] }
  | .func =>
    match s.point with
    | .funcs (f :: left) => { s with point := .funcs left, executed := s.executed ++ [f] }
    | _ => s
  | .drain now =>
    let (exeTimers, timers) := EventLoop.drain now s.timers []
    { s with timers, point := .timers exeTimers }
  | .timer =>
    match s.point with
    | .timers (_ :: left) => { s with point := .timers left }
    | _ => s
  | .again => { s with point := .top }

/-- A call can be made by a thread that is in none, by the loop's only from what it runs. -/
def Callable (s : EventLoop) (who : Caller) : Prop :=
  s.toWake who = false ∧ (who = .loop → s.point.calling = true)

/-- The loop's thread is in no call. Its reading of the `eventfd` is one of the handlers;
that it is readable is reported only if it is, and may be left to the next turn. -/
def Enabled (s : EventLoop) : LoopMove → Prop
  | .addFunc who => s.Callable who ∧ s.holder = none
  | .runAfter who _ _ => s.Callable who
  | .stop who => s.Callable who
  | .wakeup who => s.toWake who = true
  | .check => s.point = .top
  | .compute _ => s.point = .computing
  | .interrupted => s.point.blocked = true
  | .wait wakeuper => s.point.blocked = true ∧ (wakeuper = true → s.eventfd ≠ 0)
  | .handleWakeuper => s.point = .events true ∧ s.toWake .loop = false
  | .swap => s.point = .events false ∧ s.toWake .loop = false ∧ s.holder = none
  | .func => s.point.funcsLeft ≠ [] ∧ s.toWake .loop = false
  | .drain _ => s.point = .funcs [] ∧ s.toWake .loop = false
  | .timer => s.point.timersLeft ≠ [] ∧ s.toWake .loop = false
  | .again => s.point = .timers [] ∧ s.toWake .loop = false

instance (s : EventLoop) (who : Caller) : Decidable (s.Callable who) :=
  inferInstanceAs (Decidable (_ ∧ (_ → _)))

instance (s : EventLoop) (m : LoopMove) : Decidable (s.Enabled m) := by
  cases m <;> unfold Enabled <;> infer_instance

/-- The `eventfd` is readable, or another thread is about to write it. -/
def Signalled (s : EventLoop) : Prop := s.eventfd ≠ 0 ∨ ∃ i, s.toWake (.thread i) = true

/-- The timeout is longer than it is till the deadline of some timer. -/
def Oversleeps (timeoutMs : Int) (now : TimeStamp) (timers : TimerManager) : Prop :=
  ∃ tm ∈ timers.entries, max 0 (tm.timestamp.toMs - now.toMs) < timeoutMs

/-- Stamps of a clock, with differences that an `int` holds. -/
def Ordinary (now : TimeStamp) (timers : TimerManager) : Prop :=
  now.Normal ∧ ∀ tm ∈ timers.entries,
    tm.timestamp.Normal ∧ TimeStamp.FitsInt (tm.timestamp.toMs - now.toMs)

/-- Differences to the deadlines that an `int` holds. -/
def InRange (now : TimeStamp) (timers : TimerManager) : Prop :=
  ∀ tm ∈ timers.entries, TimeStamp.FitsInt (tm.timestamp.toMs - now.toMs)

/-- What `gettimeofday` reports has less than a second of milliseconds. -/
def Clocked (_ : EventLoop) : LoopMove → Prop
  | .runAfter _ clock _ => clock.Normal
  | .compute now => now.Normal
  | _ => True

/-- A timer with a negative delay was not armed at a later time than the loop reads next. -/
def Follows : LoopMove → LoopMove → Prop
  | .runAfter _ clock afterTimeMs, .compute now => 0 ≤ afterTimeMs ∨ clock.toMs ≤ now.toMs
  | _, _ => True

/-- A loop does not sleep past a deadline without being signalled. -/
def Punctual (s : EventLoop) : Prop :=
  ∀ t n, s.point = .waiting t n → InRange n s.timers → Oversleeps t n s.timers → s.Signalled

instance (s : EventLoop) : ∀ m, Decidable (s.Clocked m)
  | .runAfter _ _ _ => inferInstanceAs (Decidable (TimeStamp.Normal _))
  | .compute _ => inferInstanceAs (Decidable (TimeStamp.Normal _))
  | .addFunc _ => isTrue trivial
  | .stop _ => isTrue trivial
  | .wakeup _ => isTrue trivial
  | .check => isTrue trivial
  | .interrupted => isTrue trivial
  | .wait _ => isTrue trivial
  | .handleWakeuper => isTrue trivial
  | .swap => isTrue trivial
  | .func => isTrue trivial
  | .drain _ => isTrue trivial
  | .timer => isTrue trivial
  | .again => isTrue trivial

instance : DecidableRel Follows := fun m m' => by
  unfold Follows
  split <;> infer_instance

instance (now : TimeStamp) (timers : TimerManager) : Decidable (InRange now timers) :=
  inferInstanceAs (Decidable (∀ tm ∈ timers.entries, _ ∧ _))

instance (timeoutMs : Int) (now : TimeStamp) (timers : TimerManager) :
    Decidable (Oversleeps timeoutMs now timers) :=
  inferInstanceAs (Decidable (∃ tm ∈ timers.entries, _ < _))

/-- The same with the loop's own thread, which cannot be blocked in a call. -/
def Stirred (s : EventLoop) : Prop := s.eventfd ≠ 0 ∨ ∃ who, s.toWake who = true

/-- The invariant. -/
structure Awake (s : EventLoop) : Prop where
  own : s.toWake .loop = true → s.point.calling = true
  funcs : s.funcs ≠ [] → s.point ≠ .events false → s.Stirred
  stop : s.isStop = true → s.point.asleep = true → s.Stirred
  timers : ∀ t n, s.point = .waiting t n → t = EventLoop.timeoutMs n s.timers ∨ s.Stirred
  order : s.executed ++ (s.point.funcsLeft ++ s.funcs) = List.range s.added

/-- Nothing left for a loop that is blocked goes unnoticed, and its functions are executed
in the order in which they were pushed, each of them once. -/
structure Attentive (s : EventLoop) : Prop where
  woken : ∀ t n, s.point = .waiting t n → s.funcs ≠ [] ∨ s.isStop = true → s.Signalled
  punctual : ∀ t n, s.point = .waiting t n → Ordinary n s.timers → Oversleeps t n s.timers →
    s.Signalled
  inOrder : s.executed <+: List.range s.added

end EventLoop

/-- A loop that its thread has been started for. -/
def eventLoop : System EventLoop LoopMove where
  start s := s = {}
  step s m s' := s.Enabled m ∧ s' = s.next m

namespace EventLoop
open TimerManager
variable {s s' : EventLoop} {m : LoopMove} {who : Caller} {now : TimeStamp} {timers : TimerManager}
  {tm : TimerManager.Timer} {t : Int} {es : List (EventLoop × LoopMove)}

/-- With a timer queued, the timeout is the time left to the one on top. -/
theorem timeoutMs_top {top : TimerManager.Timer} (htop : timers.top? = some top)
    (fits : TimeStamp.FitsInt (top.timestamp.toMs - now.toMs)) :
    EventLoop.timeoutMs now timers = max 0 (top.timestamp.toMs - now.toMs) := by
  have some : timers.entries ≠ [] := by
    intro none
    rw [TimerManager.top?, BinaryHeap.PriorityQueue.top?, none] at htop
    cases htop
  simp only [EventLoop.timeoutMs, if_neg some, getLatestTimer, htop, TimeStamp.sub_eq fits]
  split_ifs with passed
  · omega
  · omega

/-- A queue with a timer in it has one on top, which is one of its own. -/
theorem exists_top (ht : tm ∈ timers.entries) : ∃ top ∈ timers.entries, timers.top? = some top := by
  obtain ⟨top, rest, hq⟩ := List.exists_cons_of_ne_nil (List.ne_nil_of_mem ht)
  refine ⟨top, by rw [hq]; exact List.mem_cons_self, ?_⟩
  rw [TimerManager.top?, BinaryHeap.PriorityQueue.top?, hq]
  rfl

/-- The timer on top is due no later than any other. -/
theorem timeoutMs_le (ordinary : Ordinary now timers) (ht : tm ∈ timers.entries) :
    EventLoop.timeoutMs now timers ≤ max 0 (tm.timestamp.toMs - now.toMs) := by
  obtain ⟨top, mem, htop⟩ := exists_top ht
  obtain ⟨normalTop, fits⟩ := ordinary.2 top mem
  have first : ¬ tm.timestamp.toMs < top.timestamp.toMs := by
    rw [← TimeStamp.lt_iff_toMs (ordinary.2 tm ht).1 normalTop]
    exact top_first htop ht
  rw [timeoutMs_top htop fits]
  omega

theorem awake_start : Awake {} where
  own h := by cases h
  funcs h := absurd rfl h
  stop h := by cases h
  timers t n h := by cases h
  order := rfl

/-- A call has begun. -/
theorem stirred_of_toWake (h : s.toWake who = true) : s.Stirred := .inr ⟨who, h⟩

/-- A call made by a thread that may make it, and that leaves it with a `wakeup`. -/
theorem own_of_callable (h : s.Awake) (callable : s.Callable who)
    (call : Function.update s.toWake who true .loop = true) : s.point.calling = true := by
  by_cases hw : who = .loop
  · exact callable.2 hw
  · rw [Function.update_of_ne (Ne.symm hw)] at call
    exact h.own call

/-- Moves of the loop's thread between its calls. -/
theorem Awake.idle (h : s.Awake) (quiet : s.point.calling = false) : s.toWake .loop = false := by
  by_contra call
  rw [h.own (by simpa using call)] at quiet
  cases quiet

/-- Where the loop's thread is up, nothing has to be signalled but functions. -/
theorem awake_up (own : s.toWake .loop = true → s.point.calling = true)
    (funcs : s.funcs ≠ [] → s.point ≠ .events false → s.Stirred) (up : s.point.asleep = false)
    (order : s.executed ++ (s.point.funcsLeft ++ s.funcs) = List.range s.added) : s.Awake where
  own := own
  funcs := funcs
  stop _ asleep := by
    rw [up] at asleep
    cases asleep
  timers t n waiting := by
    rw [waiting] at up
    cases up
  order := order

theorem awake_step (h : s.Awake) (step : eventLoop.step s m s') : s'.Awake := by
  obtain ⟨enabled, rfl⟩ := step
  have order := h.order
  cases m with
  | addFunc who =>
      have stirred : (s.next (.addFunc who)).Stirred := stirred_of_toWake (Function.update_self ..)
      refine ⟨own_of_callable h enabled.1, fun _ _ => stirred, fun _ _ => stirred,
        fun _ _ _ => .inr stirred, ?_⟩
      simp only [next, List.range_succ, ← order, List.append_assoc]
  | runAfter who clock afterTimeMs =>
      have stirred : (s.next (.runAfter who clock afterTimeMs)).Stirred :=
        stirred_of_toWake (Function.update_self ..)
      exact ⟨own_of_callable h enabled, fun _ _ => stirred, fun _ _ => stirred,
        fun _ _ _ => .inr stirred, order⟩
  | stop who =>
      have stirred : (s.next (.stop who)).Stirred := stirred_of_toWake (Function.update_self ..)
      exact ⟨own_of_callable h enabled, fun _ _ => stirred, fun _ _ => stirred,
        fun _ _ _ => .inr stirred, order⟩
  | wakeup who =>
      have stirred : (s.next (.wakeup who)).Stirred := .inl (Nat.succ_ne_zero _)
      refine ⟨fun call => ?_, fun _ _ => stirred, fun _ _ => stirred, fun _ _ _ => .inr stirred, order⟩
      by_cases hw : who = .loop
      · simp [next, hw] at call
      · simp only [next, Function.update_of_ne (Ne.symm hw)] at call
        exact h.own call
  | check =>
      have top : s.point = .top := enabled
      have quiet := h.idle (by rw [top]; rfl)
      rw [top] at order
      cases stop : s.isStop with
      | true =>
          simp only [next, stop, if_true]
          refine awake_up (fun call => ?_) (fun some _ => h.funcs some (by simp [top])) rfl order
          exact absurd call (by simp [quiet])
      | false =>
          simp only [next, stop, Bool.false_eq_true, if_false]
          refine ⟨fun call => ?_, fun some _ => h.funcs some (by simp [top]), fun stopped _ => ?_,
            fun t n waiting => ?_, order⟩
          · exact absurd call (by simp [quiet])
          · exact absurd stopped (by simp)
          · cases waiting
  | compute now =>
      have computing : s.point = .computing := enabled
      have quiet := h.idle (by rw [computing]; rfl)
      rw [computing] at order
      refine ⟨fun call => ?_, fun some _ => h.funcs some (by simp [computing]),
        fun stop _ => h.stop stop (by rw [computing]; rfl), fun t n waiting => ?_, order⟩
      · exact absurd call (by simp [next, quiet])
      · simp only [next, LoopPoint.waiting.injEq] at waiting
        obtain ⟨rfl, rfl⟩ := waiting
        exact .inl rfl
  | interrupted =>
      obtain ⟨t, n, waiting⟩ := LoopPoint.blocked_iff.mp enabled
      have quiet := h.idle (by rw [waiting]; rfl)
      rw [waiting] at order
      refine awake_up (fun call => ?_) (fun some _ => h.funcs some (by simp [waiting])) rfl order
      exact absurd call (by simp [next, quiet])
  | wait wakeuper =>
      obtain ⟨blocked, readable⟩ := enabled
      obtain ⟨t, n, waiting⟩ := LoopPoint.blocked_iff.mp blocked
      rw [waiting] at order
      refine ⟨fun _ => rfl, fun some _ => h.funcs some (by simp [waiting]),
        fun _ asleep => .inl (readable asleep), fun t n point => ?_, order⟩
      cases point
  | handleWakeuper =>
      rw [enabled.1] at order
      exact awake_up (fun _ => rfl) (fun _ other => absurd rfl other) rfl order
  | swap =>
      rw [enabled.1] at order
      refine awake_up (fun _ => rfl) (fun some => absurd rfl some) rfl ?_
      simpa [next, LoopPoint.funcsLeft] using order
  | func =>
      obtain ⟨f, left, hp⟩ := LoopPoint.funcsLeft_ne_nil.mp enabled.1
      rw [hp] at order
      simp only [next, hp]
      refine awake_up (fun _ => rfl) (fun some _ => h.funcs some (by simp [hp])) rfl ?_
      simpa [LoopPoint.funcsLeft] using order
  | drain now =>
      rw [enabled.1] at order
      exact awake_up (fun _ => rfl) (fun some _ => h.funcs some (by simp [enabled.1])) rfl order
  | timer =>
      obtain ⟨tm, left, hp⟩ := LoopPoint.timersLeft_ne_nil.mp enabled.1
      rw [hp] at order
      simp only [next, hp]
      exact awake_up (fun _ => rfl) (fun some _ => h.funcs some (by simp [hp])) rfl order
  | again =>
      rw [enabled.1] at order
      refine awake_up (fun call => ?_) (fun some _ => h.funcs some (by simp [enabled.1])) rfl order
      exact absurd call (by simp [next, enabled.2])

theorem Awake.signalled (h : s.Awake) {n : TimeStamp} (waiting : s.point = .waiting t n)
    (stirred : s.Stirred) : s.Signalled := by
  rcases stirred with readable | ⟨who, call⟩
  · exact .inl readable
  · cases who with
    | loop =>
        rw [h.idle (by rw [waiting]; rfl)] at call
        cases call
    | thread i => exact .inr ⟨i, call⟩

/-- The invariant holds in every run. -/
theorem awake_run (run : Run eventLoop es s) : s.Awake := by
  apply run.invariant guarded_true
  · rintro _ rfl
    exact awake_start
  · exact fun h _ step => awake_step h step

theorem Awake.woken (h : s.Awake) {n : TimeStamp} (waiting : s.point = .waiting t n)
    (left : s.funcs ≠ [] ∨ s.isStop = true) : s.Signalled := by
  apply h.signalled waiting
  rcases left with some | stop
  · exact h.funcs some (by simp [waiting])
  · exact h.stop stop (by rw [waiting]; rfl)

theorem Awake.inOrder (h : s.Awake) : s.executed <+: List.range s.added := by
  rw [← h.order]
  exact List.prefix_append _ _

/-- No wake-up and no function is lost, whatever the threads do. -/
theorem attentive (run : Run eventLoop es s) : s.Attentive := by
  have h := awake_run run
  refine ⟨fun _ _ => h.woken, fun t n waiting ordinary oversleeps => ?_, h.inOrder⟩
  apply h.signalled waiting
  obtain ⟨tm, ht, late⟩ := oversleeps
  rcases h.timers t n waiting with same | stirred
  · have bound := timeoutMs_le ordinary ht
    rw [← same] at bound
    omega
  · exact stirred

/-- A deadline that was asked for at a time that is not after this one, or with a delay. -/
def Asked (now deadline : TimeStamp) : Prop :=
  ∃ (clock : TimeStamp) (d : Int), clock.Normal ∧ deadline = clock.afterNowMs d ∧
    (0 ≤ d ∨ clock.toMs ≤ now.toMs)

/-- Of two deadlines so asked for, the one that comes first leaves no more time, if any. -/
theorem Asked.le {a b : TimeStamp} (ha : Asked now a) (hb : Asked now b) (first : ¬ b.lt a = true) :
    max 0 (a.toMs - now.toMs) ≤ max 0 (b.toMs - now.toMs) := by
  obtain ⟨clock, d, normal, rfl, asked⟩ := ha
  rcases lt_or_ge d 0 with early | late
  · -- a negative delay has passed by now
    obtain ⟨same, _⟩ := TimeStamp.afterNowMs_toMs_of_neg normal early
    omega
  · obtain ⟨normalA, _⟩ := TimeStamp.afterNowMs_toMs normal late
    obtain ⟨clock', d', normal', rfl, asked'⟩ := hb
    rcases lt_or_ge d' 0 with early' | late'
    · obtain ⟨_, second⟩ := TimeStamp.afterNowMs_toMs_of_neg normal' early'
      unfold TimeStamp.Normal at normal' normalA
      unfold TimeStamp.lt at first
      unfold TimeStamp.toMs at *
      split_ifs at first with other
      · simp only [decide_eq_true_eq] at first
        omega
      · simp only [decide_eq_true_eq] at first
        omega
    · obtain ⟨normalB, _⟩ := TimeStamp.afterNowMs_toMs normal' late'
      rw [TimeStamp.lt_iff_toMs normalB normalA] at first
      omega

/-- Every queued timer was armed in the run. -/
theorem armed_run (run : Run eventLoop es s) (ht : tm ∈ s.timers.entries) :
    ∃ who clock d, .runAfter who clock d ∈ es.map Prod.snd ∧ tm.timestamp = clock.afterNowMs d := by
  obtain ⟨s₀, rfl, path⟩ := run
  induction path with
  | nil => cases ht
  | @snoc es s m s' path step ih =>
      obtain ⟨enabled, rfl⟩ := step
      have old : tm ∈ s.timers.entries → ∃ who clock d,
          .runAfter who clock d ∈ (es ++ [(s, m)]).map Prod.snd ∧ tm.timestamp = clock.afterNowMs d := by
        intro queued
        obtain ⟨who, clock, d, mem, same⟩ := ih queued
        refine ⟨who, clock, d, ?_, same⟩
        rw [List.map_append]
        exact List.mem_append_left _ mem
      cases m with
      | runAfter who clock d =>
          rcases List.mem_cons.mp (addTimer_perm.mem_iff.mp ht) with rfl | queued
          · exact ⟨who, clock, d, by simp, rfl⟩
          · exact old queued
      | drain now => exact old ((drained now s.timers).perm.mem_iff.mpr (List.mem_append_right _ ht))
      | func =>
          obtain ⟨f, left, hp⟩ := LoopPoint.funcsLeft_ne_nil.mp enabled.1
          simp only [next, hp] at ht
          exact old ht
      | timer =>
          obtain ⟨f, left, hp⟩ := LoopPoint.timersLeft_ne_nil.mp enabled.1
          simp only [next, hp] at ht
          exact old ht
      | _ => exact old ht

/-- A loop that is blocked has just computed its timeout, or somebody has called it since. -/
theorem waiting_last {n : TimeStamp} (run : Run eventLoop es s) (waiting : s.point = .waiting t n) :
    s.Stirred ∨ ∃ fs u, es = fs ++ [(u, .compute n)] ∧ Run eventLoop fs u ∧ s = u.next (.compute n) := by
  obtain ⟨s₀, rfl, path⟩ := run
  cases path with
  | nil => cases waiting
  | @snoc fs u m _ path step =>
      obtain ⟨enabled, rfl⟩ := step
      cases m with
      | addFunc who => exact .inl (stirred_of_toWake (Function.update_self ..))
      | runAfter who clock d => exact .inl (stirred_of_toWake (Function.update_self ..))
      | stop who => exact .inl (stirred_of_toWake (Function.update_self ..))
      | wakeup who => exact .inl (.inl (Nat.succ_ne_zero _))
      | compute now =>
          simp only [next, LoopPoint.waiting.injEq] at waiting
          obtain ⟨_, rfl⟩ := waiting
          exact .inr ⟨fs, u, rfl, ⟨_, rfl, path⟩, rfl⟩
      | check =>
          simp only [next] at waiting
          split_ifs at waiting
      | func =>
          obtain ⟨f, left, hp⟩ := LoopPoint.funcsLeft_ne_nil.mp enabled.1
          simp only [next, hp] at waiting
          cases waiting
      | timer =>
          obtain ⟨f, left, hp⟩ := LoopPoint.timersLeft_ne_nil.mp enabled.1
          simp only [next, hp] at waiting
          cases waiting
      | _ => cases waiting

theorem punctual_run (run : Run eventLoop es s) (clocked : Guarded Clocked es)
    (follows : (es.map Prod.snd).Pairwise Follows) : s.Punctual := by
  intro t n waiting fits oversleeps
  have awake := awake_run run
  apply awake.signalled waiting
  rcases waiting_last run waiting with stirred | ⟨fs, u, rfl, before, rfl⟩
  · exact stirred
  · rcases awake.timers t n waiting with same | stirred
    · rw [List.map_append, List.pairwise_append] at follows
      have asked : ∀ tm ∈ u.timers.entries, Asked n tm.timestamp := by
        intro tm ht
        obtain ⟨who, clock, d, mem, made⟩ := armed_run before ht
        obtain ⟨e, he, hm⟩ := List.mem_map.mp mem
        have normal := clocked e (List.mem_append_left _ he)
        rw [hm] at normal
        exact ⟨clock, d, normal, made, follows.2.2 _ mem _ (List.mem_singleton_self _)⟩
      obtain ⟨tm, ht, late⟩ := oversleeps
      obtain ⟨top, mem, htop⟩ := exists_top ht
      have first : EventLoop.timeoutMs n (u.next (.compute n)).timers = max 0 (top.timestamp.toMs - n.toMs) :=
        timeoutMs_top htop (fits top mem)
      have bound := (asked top mem).le (asked tm ht) (top_first htop ht)
      rw [same] at late
      omega
    · exact stirred

/-- What is left for a blocked loop is signalled to it, its timeout ends with the first deadline,
and functions are executed in the order of the mutex, each of them once. -/
theorem nothing_lost (run : Run eventLoop es s) :
    (∀ t n, s.point = .waiting t n → s.funcs ≠ [] ∨ s.isStop = true → s.Signalled) ∧
    (Guarded Clocked es → (es.map Prod.snd).Pairwise Follows → s.Punctual) ∧
    s.executed <+: List.range s.added :=
  ⟨fun _ _ => (awake_run run).woken, punctual_run run, (awake_run run).inOrder⟩

/-- A thread leaves a function, and the loop comes for it from `epoll_wait`. -/
def served : List LoopMove :=
  [.check, .compute ⟨7, 0⟩, .addFunc (.thread 1), .wakeup (.thread 1), .wait true, .handleWakeuper, .swap,
   .func, .addFunc .loop, .wakeup .loop, .drain ⟨7, 1⟩, .again, .check, .compute ⟨7, 1⟩]

theorem run_eventLoop (ms : List LoopMove) (enabled : ∀ e ∈ visits next {} ms, e.1.Enabled e.2) :
    Run eventLoop (visits next {} ms) (replay next {} ms) :=
  ⟨_, rfl, path_replay (S := eventLoop) (E := Enabled) (fun {_ _} ready => ⟨ready, rfl⟩) enabled⟩

theorem served_attentive : (replay next {} served).Attentive :=
  attentive (run_eventLoop served (by decide +kernel))

/-- The second function, pushed by the first one, finds the `eventfd` readable. -/
example : (replay next {} served).funcs = [1] ∧ (replay next {} served).executed = [0] ∧
    (replay next {} served).eventfd = 1 := by decide +kernel

/-- A timer is queued and the loop waits for it; another thread arms one that is due before. -/
def timed : List LoopMove :=
  [.check, .compute ⟨6, 0⟩, .runAfter (.thread 1) ⟨7, 0⟩ 500, .wakeup (.thread 1), .wait true,
   .handleWakeuper, .swap, .drain ⟨7, 50⟩, .again, .check, .compute ⟨7, 100⟩,
   .runAfter (.thread 2) ⟨7, 200⟩ 100]

theorem timed_not_lost : (replay next {} timed).Signalled :=
  (nothing_lost (run_eventLoop timed (by decide +kernel))).2.1 (by decide +kernel) (by decide +kernel)
    400 ⟨7, 100⟩ (by decide +kernel) (by decide +kernel) (by decide +kernel)

/-- A delay of half a second less than nothing, and then the clock is set back by a second. The
stamp it was armed with is 400 milliseconds before second 7, and does not come out on top. -/
def setBack : List LoopMove :=
  [.runAfter (.thread 1) ⟨7, 100⟩ (-500), .wakeup (.thread 1), .runAfter (.thread 1) ⟨6, 100⟩ 800,
   .wakeup (.thread 1), .check, .compute ⟨6, 100⟩, .wait true, .handleWakeuper, .swap, .drain ⟨6, 200⟩,
   .again, .check, .compute ⟨6, 500⟩]

theorem setBack_oversleeps : ¬ ∀ es s, Run eventLoop es s → Guarded Clocked es → s.Punctual := by
  intro claim
  have signalled := claim _ _ (run_eventLoop setBack (by decide +kernel)) (by decide +kernel) 400 ⟨6, 500⟩
    (by decide +kernel) (by decide +kernel) (by decide +kernel)
  rcases signalled with readable | ⟨i, call⟩
  · revert readable
    decide +kernel
  · change Function.update (Function.update (Function.update (Function.update (fun _ => false)
      (Caller.thread 1) true) (.thread 1) false) (.thread 1) true) (.thread 1) false (.thread i) = true at call
    simp [Function.update_apply] at call

/-- How often `epoll_wait` is called. -/
def computes : List (EventLoop × LoopMove) → Nat
  | [] => 0
  | (_, .compute _) :: fs => computes fs + 1
  | _ :: fs => computes fs

/-- A loop on its way into `epoll_wait`. -/
def entering (s : EventLoop) : Nat := if s.point = .computing then 1 else 0

variable {fs gs : List (EventLoop × LoopMove)} {u : EventLoop}

theorem computes_append : computes (fs ++ gs) = computes fs + computes gs := by
  induction fs with
  | nil => exact (Nat.zero_add _).symm
  | cons f fs ih =>
      obtain ⟨t, m⟩ := f
      cases m with
      | compute now =>
          simp only [List.cons_append, computes, ih]
          omega
      | _ => simpa only [List.cons_append, computes] using ih

/-- A loop whose flag is set does not pass the test again. -/
theorem stopping_step (stop : s.isStop = true) (step : eventLoop.step s m s') :
    s'.isStop = true ∧ computes [(s, m)] + s'.entering ≤ s.entering := by
  obtain ⟨enabled, rfl⟩ := step
  have bound : s.next m = { s.next m with isStop := true } ∧ (s.next m).point ≠ .computing →
      computes [(s, m)] = 0 → (s.next m).isStop = true ∧
        computes [(s, m)] + (s.next m).entering ≤ s.entering := by
    rintro ⟨kept, up⟩ none
    refine ⟨by rw [kept], ?_⟩
    rw [none, entering, if_neg up]
    exact Nat.zero_le _
  cases m with
  | addFunc who => exact ⟨stop, (Nat.zero_add _).le⟩
  | runAfter who clock afterTimeMs => exact ⟨stop, (Nat.zero_add _).le⟩
  | stop who => exact ⟨rfl, (Nat.zero_add _).le⟩
  | wakeup who => exact ⟨stop, (Nat.zero_add _).le⟩
  | compute now =>
      have computing : s.point = .computing := enabled
      refine ⟨stop, ?_⟩
      simp [computes, entering, next, computing]
  | check => exact bound (by simp [next, stop]) rfl
  | interrupted => exact bound (by simp [next, stop]) rfl
  | wait wakeuper => exact bound (by simp [next, stop]) rfl
  | handleWakeuper => exact bound (by simp [next, stop]) rfl
  | swap => exact bound (by simp [next, stop]) rfl
  | drain now => exact bound (by simp [next, stop]) rfl
  | again => exact bound (by simp [next, stop]) rfl
  | func =>
      obtain ⟨f, left, hp⟩ := LoopPoint.funcsLeft_ne_nil.mp enabled.1
      exact bound (by simp [next, hp, stop]) rfl
  | timer =>
      obtain ⟨tm, left, hp⟩ := LoopPoint.timersLeft_ne_nil.mp enabled.1
      exact bound (by simp [next, hp, stop]) rfl

theorem stopping_path (stop : s.isStop = true) (path : Path eventLoop s fs u) :
    u.isStop = true ∧ computes fs + u.entering ≤ s.entering := by
  induction path with
  | nil => exact ⟨stop, (Nat.zero_add _).le⟩
  | snoc path step ih =>
      obtain ⟨stopping, before⟩ := ih
      obtain ⟨still, here⟩ := stopping_step stopping step
      refine ⟨still, ?_⟩
      rw [computes_append]
      omega

/-- Once `stop` has set the flag, `epoll_wait` is called at most once more, and a loop that
is blocked in it is signalled. -/
theorem stop_seen (run : Run eventLoop es s) (stop : s.isStop = true) (path : Path eventLoop s fs u) :
    computes fs ≤ 1 ∧ ∀ t n, u.point = .waiting t n → u.Signalled := by
  obtain ⟨stopping, bound⟩ := stopping_path stop path
  constructor
  · have once : s.entering ≤ 1 := by
      unfold entering
      split_ifs
      · exact le_rfl
      · exact Nat.zero_le 1
    omega
  · obtain ⟨s₀, start, before⟩ := run
    have awake : u.Awake := awake_run ⟨s₀, start, before.trans path⟩
    intro t n waiting
    exact awake.signalled waiting (awake.stop stopping (by rw [waiting]; rfl))

/-- A step takes nothing back of what is executed or about to be. -/
theorem taken_step (step : eventLoop.step s m s') :
    s.executed.length + s.point.funcsLeft.length ≤ s'.executed.length + s'.point.funcsLeft.length := by
  obtain ⟨enabled, rfl⟩ := step
  have nothing : s.point.funcsLeft = [] → s.executed.length + s.point.funcsLeft.length ≤
      s.executed.length + (s.next m).point.funcsLeft.length := by
    intro none
    rw [none]
    exact Nat.add_le_add_left (Nat.zero_le _) _
  cases m with
  | addFunc who => exact le_rfl
  | runAfter who clock afterTimeMs => exact le_rfl
  | stop who => exact le_rfl
  | wakeup who => exact le_rfl
  | check => exact nothing (by rw [show s.point = .top from enabled]; rfl)
  | compute now => exact nothing (by rw [show s.point = .computing from enabled]; rfl)
  | interrupted =>
      obtain ⟨t, n, waiting⟩ := LoopPoint.blocked_iff.mp enabled
      exact nothing (by rw [waiting]; rfl)
  | wait wakeuper =>
      obtain ⟨t, n, waiting⟩ := LoopPoint.blocked_iff.mp enabled.1
      exact nothing (by rw [waiting]; rfl)
  | handleWakeuper => exact nothing (by rw [enabled.1]; rfl)
  | swap => exact nothing (by rw [enabled.1]; rfl)
  | drain now => exact nothing (by rw [enabled.1]; rfl)
  | again => exact nothing (by rw [enabled.1]; rfl)
  | func =>
      obtain ⟨f, left, hp⟩ := LoopPoint.funcsLeft_ne_nil.mp enabled.1
      simp only [next, hp, LoopPoint.funcsLeft, List.length_cons, List.length_append, List.length_nil]
      omega
  | timer =>
      obtain ⟨tm, left, hp⟩ := LoopPoint.timersLeft_ne_nil.mp enabled.1
      simp [next, hp, LoopPoint.funcsLeft]

theorem taken_path (path : Path eventLoop s fs u) :
    s.executed.length + s.point.funcsLeft.length ≤ u.executed.length + u.point.funcsLeft.length := by
  induction path with
  | nil => exact le_rfl
  | snoc path step ih => exact ih.trans (taken_step step)

/-- Every function that was pushed before a swap has been executed once the loop is
through with what it swapped. -/
theorem swapped_executed (run : Run eventLoop es s) (swap : eventLoop.step s .swap s')
    (path : Path eventLoop s' fs u) (through : u.point.funcsLeft = []) :
    List.range s.added <+: u.executed := by
  have before := (awake_run (run.snoc swap)).order
  obtain ⟨s₀, start, first⟩ := run
  have after := (awake_run ⟨s₀, start, (first.snoc swap).trans path⟩).order
  obtain ⟨enabled, rfl⟩ := swap
  have taken := taken_path path
  rw [through, List.length_nil] at taken
  have all := congrArg List.length before
  simp only [next, List.append_nil, LoopPoint.funcsLeft, List.length_append, List.length_range] at all taken
  have done : u.executed <+: List.range u.added := by
    rw [← after]
    exact List.prefix_append _ _
  have enough : s.added ≤ u.executed.length := by omega
  have fits := done.length_le
  rw [List.length_range] at fits
  refine List.prefix_of_prefix_length_le ?_ done (by rwa [List.length_range])
  obtain ⟨k, hk⟩ := Nat.exists_eq_add_of_le (enough.trans fits)
  rw [hk, List.range_add]
  exact List.prefix_append _ _

/-- The loop goes on from the last `wait`, with the flag set by a thread. -/
def stopping : List LoopMove :=
  [.stop (.thread 2), .wakeup (.thread 2), .wait true, .handleWakeuper, .swap, .func, .drain ⟨7, 2⟩,
   .again, .check]

theorem served_stop_seen :
    computes (visits next (replay next {} (served ++ [.stop (.thread 2)])) (stopping.drop 1)) ≤ 1 ∧
      ∀ t n, (replay next (replay next {} (served ++ [.stop (.thread 2)])) (stopping.drop 1)).point =
        .waiting t n →
      (replay next (replay next {} (served ++ [.stop (.thread 2)])) (stopping.drop 1)).Signalled := by
  have run := run_eventLoop (served ++ [.stop (.thread 2)]) (by decide +kernel)
  exact stop_seen run (by decide +kernel) (path_replay (S := eventLoop) (E := Enabled)
    (fun {_ _} ready => ⟨ready, rfl⟩) (by decide +kernel))

/-- The first turn of the loop, up to the swap, and the rest of it. -/
theorem served_swapped :
    List.range (replay next {} (served.take 6)).added <+:
      (replay next (next (replay next {} (served.take 6)) .swap) [.func, .addFunc .loop]).executed :=
  swapped_executed (run_eventLoop (served.take 6) (by decide +kernel)) ⟨by decide +kernel, rfl⟩
    (path_replay (S := eventLoop) (E := Enabled) (fun {_ _} ready => ⟨ready, rfl⟩) (by decide +kernel))
    (by decide +kernel)

end EventLoop

end SmallRpc
