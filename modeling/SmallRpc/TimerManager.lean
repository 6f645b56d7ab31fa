import SmallRpc.BinaryHeap
import SmallRpc.Runs

/-! The timers of an `EventLoop`. `run_after` and the drain of an iteration each hold
`_timers_mtx`, so they come one after the other; a timer's function may call `run_after`
too, and does so after the drain it was taken in. -/
namespace SmallRpc
open BinaryHeap Runs

structure TimeStamp where
  sec : Int
  msec : Int
  deriving DecidableEq, Repr

namespace TimeStamp

/-- `operator<`. -/
def lt (a b : TimeStamp) : Bool := if a.sec ≠ b.sec then a.sec < b.sec else a.msec < b.msec

/-- `after_now_ms`, with what the clock says. -/
def afterNowMs (now : TimeStamp) (afterTimeMs : Int) : TimeStamp :=
  let tmp := now.msec + afterTimeMs
  ⟨now.sec + tmp.tdiv 1000, tmp.tmod 1000⟩

/-- The order that `operator<` decides. -/
def key (a : TimeStamp) : Int ×ₗ Int := toLex (a.sec, a.msec)

theorem lt_iff {a b : TimeStamp} : a.lt b = true ↔ a.key < b.key := by
  rw [key, key, Prod.Lex.toLex_lt_toLex]
  unfold lt
  split_ifs with same
  · simp [same]
  · push Not at same
    simp [same]

end TimeStamp

namespace TimerManager

/-- `func` stands for the function: it is the number of the `run_after` that brought it. -/
structure Timer where
  timestamp : TimeStamp
  func : Nat
  deriving DecidableEq, Repr

namespace Timer

/-- `operator<`, which turns the order round. -/
def lt (a b : Timer) : Bool := !a.timestamp.lt b.timestamp

def deadline (tm : Timer) : Int ×ₗ Int := tm.timestamp.key

/-- Equal deadlines compare as less than each other. -/
theorem compares : Compares deadline lt where
  le_of_true h := by
    unfold lt at h
    rw [Bool.not_eq_true', Bool.eq_false_iff, Ne, TimeStamp.lt_iff, not_lt] at h
    exact h
  le_of_false h := by
    unfold lt at h
    rw [Bool.not_eq_false', TimeStamp.lt_iff] at h
    exact h.le

end Timer
end TimerManager

abbrev TimerManager := PriorityQueue TimerManager.Timer.deadline

namespace TimerManager
open PriorityQueue

def top? (timers : TimerManager) : Option Timer := PriorityQueue.top? timers

def pop (timers : TimerManager) : TimerManager := PriorityQueue.pop Timer.compares timers

def addTimer (timers : TimerManager) (tm : Timer) : TimerManager :=
  PriorityQueue.emplace Timer.compares timers tm

variable {timers : TimerManager} {tm t : Timer} {now : TimeStamp}

theorem addTimer_perm : (timers.addTimer tm).entries.Perm (tm :: timers.entries) := push_perm

theorem pop_perm (h : timers.top? = some tm) : timers.entries.Perm (tm :: timers.pop.entries) :=
  BinaryHeap.pop_perm h

/-- No queued timer is due before the one on top. -/
theorem top_first (h : timers.top? = some tm) (ht : t ∈ timers.entries) :
    ¬ t.timestamp.lt tm.timestamp = true := by
  rw [TimeStamp.lt_iff, not_lt]
  exact timers.heap.le_top h ht

end TimerManager

namespace EventLoop

/-- The loop over `_timers`, which stops at the first timer that is not due. -/
def drain (now : TimeStamp) (timers : TimerManager) (exeTimers : List TimerManager.Timer) :
    List TimerManager.Timer × TimerManager :=
  match _h : TimerManager.top? timers with
  | none => (exeTimers, timers)
  | some tm =>
    if tm.timestamp.lt now then drain now (TimerManager.pop timers) (exeTimers ++ [tm])
    else (exeTimers, timers)
termination_by timers.entries.length
decreasing_by
  rw [(TimerManager.pop_perm _h).length_eq]
  exact Nat.lt_succ_self _

inductive TimerStep where
  | runAfter (clock : TimeStamp) (afterTimeMs : Int)
  | iteration (now : TimeStamp)
  deriving DecidableEq, Repr

/-- `added` are the timers as `run_after` made them. Every iteration is kept with its
`now` and with the timers it executed, in their order. -/
structure Timers where
  manager : TimerManager := .empty
  added : List TimerManager.Timer := []
  iterations : List (TimeStamp × List TimerManager.Timer) := []

namespace Timers

def next (s : Timers) : TimerStep → Timers
  | .runAfter clock afterTimeMs =>
    let tm : TimerManager.Timer := ⟨clock.afterNowMs afterTimeMs, s.added.length⟩
    { s with manager := s.manager.addTimer tm, added := s.added ++ [tm] }
  | .iteration now =>
    let (exeTimers, manager) := drain now s.manager []
    { s with manager, iterations := s.iterations ++ [(now, exeTimers)] }

def executed (s : Timers) : List TimerManager.Timer := s.iterations.flatMap Prod.snd

/-- What an iteration executes was due, in the order of the deadlines. -/
def OnTime (iteration : TimeStamp × List TimerManager.Timer) : Prop :=
  (∀ tm ∈ iteration.2, tm.timestamp.lt iteration.1 = true) ∧
    iteration.2.Pairwise fun a b => ¬ b.timestamp.lt a.timestamp = true

/-- Every timer is queued or was executed, and none is both or twice. -/
structure Kept (s : Timers) : Prop where
  perm : (s.executed ++ s.manager.entries).Perm s.added
  numbered : s.added.map TimerManager.Timer.func = List.range s.added.length
  onTime : ∀ iteration ∈ s.iterations, OnTime iteration

/-- What is asked of the timers at the end of any sequence of steps. -/
structure Fire (s : Timers) : Prop where
  once : (s.executed.map TimerManager.Timer.func).Nodup
  none_lost : (s.executed ++ s.manager.entries).Perm s.added
  on_time : ∀ iteration ∈ s.iterations, OnTime iteration
  none_skipped : ∀ now, ∀ tm ∈ (s.next (.iteration now)).manager.entries,
    ¬ tm.timestamp.lt now = true

end Timers

variable {now : TimeStamp} {timers : TimerManager} {exeTimers : List TimerManager.Timer}
  {s : Timers} {step : TimerStep} {steps : List TimerStep}

/-- What a drain takes out, next to what it leaves. -/
structure Drained (now : TimeStamp) (timers : TimerManager) (taken : List TimerManager.Timer)
    (left : TimerManager) : Prop where
  perm : timers.entries.Perm (taken ++ left.entries)
  onTime : Timers.OnTime (now, taken)
  rest : ∀ tm ∈ left.entries, ¬ tm.timestamp.lt now = true

theorem drain_drained : ∃ taken, (drain now timers exeTimers).1 = exeTimers ++ taken ∧
    Drained now timers taken (drain now timers exeTimers).2 := by
  induction timers, exeTimers using drain.induct now with
  | case1 timers exeTimers top =>
      have empty : timers.entries = [] := List.head?_eq_none_iff.mp (by
        rw [List.head?_eq_getElem?]
        exact top)
      rw [drain]
      split
      · refine ⟨[], (List.append_nil _).symm, .refl _, ⟨by simp, .nil⟩, fun tm ht => ?_⟩
        rw [empty] at ht
        cases ht
      · rename_i tm other
        rw [top] at other
        cases other
  | case2 timers exeTimers tm top due ih =>
      obtain ⟨taken, hout, drained⟩ := ih
      have perm := TimerManager.pop_perm top
      have run : drain now timers exeTimers =
          drain now (TimerManager.pop timers) (exeTimers ++ [tm]) := by
        rw [drain]
        split
        · rename_i other
          rw [top] at other
          cases other
        · rename_i tm' other
          obtain rfl := Option.some.inj (top.symm.trans other)
          rw [if_pos due]
      rw [run]
      refine ⟨tm :: taken, by rw [hout, List.append_assoc]; rfl, perm.trans (drained.perm.cons tm),
        ⟨?_, ?_⟩, drained.rest⟩
      · exact List.forall_mem_cons.mpr ⟨due, drained.onTime.1⟩
      · refine List.pairwise_cons.mpr ⟨fun t ht => ?_, drained.onTime.2⟩
        have old : t ∈ timers.entries :=
          perm.mem_iff.mpr (List.mem_cons_of_mem _ (drained.perm.mem_iff.mpr (List.mem_append_left _ ht)))
        exact TimerManager.top_first top old
  | case3 timers exeTimers tm top late =>
      have run : drain now timers exeTimers = (exeTimers, timers) := by
        rw [drain]
        split
        · rfl
        · rename_i tm' other
          obtain rfl := Option.some.inj (top.symm.trans other)
          rw [if_neg late]
      rw [run]
      refine ⟨[], (List.append_nil _).symm, .refl _, ⟨by simp, .nil⟩, fun t ht => ?_⟩
      have first := TimerManager.top_first top ht
      rw [TimeStamp.lt_iff, not_lt] at first late ⊢
      exact late.trans first

theorem drained (now : TimeStamp) (timers : TimerManager) :
    Drained now timers (drain now timers []).1 (drain now timers []).2 := by
  obtain ⟨taken, hout, h⟩ := @drain_drained now timers []
  rw [hout]
  exact h

theorem kept_next (h : s.Kept) : (s.next step).Kept := by
  cases step with
  | runAfter clock afterTimeMs =>
      refine ⟨?_, ?_, h.onTime⟩
      · have queued := @TimerManager.addTimer_perm s.manager
          ⟨clock.afterNowMs afterTimeMs, s.added.length⟩
        refine (queued.append_left _).trans (List.perm_middle.trans ?_)
        exact (h.perm.cons _).trans (List.perm_append_singleton _ _).symm
      · change List.map _ (s.added ++ [_]) = List.range (s.added ++ [_]).length
        rw [List.map_append, h.numbered, List.length_append, List.length_singleton, List.range_succ]
        rfl
  | iteration now =>
      have out := drained now s.manager
      refine ⟨?_, h.numbered, ?_⟩
      · change ((s.iterations ++ [(now, _)]).flatMap Prod.snd ++ _).Perm s.added
        rw [List.flatMap_append, List.flatMap_singleton, List.append_assoc]
        exact (out.perm.symm.append_left _).trans h.perm
      · intro iteration hm
        rcases List.mem_append.mp hm with old | new
        · exact h.onTime iteration old
        · rw [List.mem_singleton.mp new]
          exact out.onTime

theorem kept_replay : (replay Timers.next {} steps).Kept :=
  List.foldlRecOn steps Timers.next ⟨.refl _, rfl, by simp⟩ fun _ h _ _ => kept_next h

/-- The deadlines that a sequence of steps asks for, in their order. -/
def deadlines (steps : List TimerStep) : List TimeStamp :=
  steps.filterMap fun
    | .runAfter clock afterTimeMs => some (clock.afterNowMs afterTimeMs)
    | .iteration _ => none

/-- There is one timer for each `run_after`, and no other. -/
theorem added_replay (steps : List TimerStep) : (replay Timers.next {} steps).added =
    (deadlines steps).mapIdx fun i deadline => ⟨deadline, i⟩ := by
  induction steps using List.reverseRecOn with
  | nil => rfl
  | append_singleton steps step ih =>
      have last : replay Timers.next {} (steps ++ [step]) = (replay Timers.next {} steps).next step :=
        List.foldl_concat ..
      rw [last, deadlines, List.filterMap_append]
      cases step with
      | iteration now => exact ih.trans (congrArg _ (List.append_nil _).symm)
      | runAfter clock afterTimeMs =>
          change _ ++ [_] = List.mapIdx _ (deadlines steps ++ [_])
          rw [List.mapIdx_concat, ← ih]
          congr 3
          rw [ih, List.length_mapIdx]

/-- Timers fire once, when due and in the order of their deadlines, and an iteration
leaves none that is due. -/
theorem timers_fire (steps : List TimerStep) : Timers.Fire (replay Timers.next {} steps) := by
  have kept : (replay Timers.next {} steps).Kept := kept_replay
  refine ⟨?_, kept.perm, kept.onTime, fun now => (drained now _).rest⟩
  have all := (kept.perm.map TimerManager.Timer.func).nodup_iff.mpr (by
    rw [kept.numbered]
    exact List.nodup_range)
  rw [List.map_append] at all
  exact all.of_append_left

/-- Of three timers, two with the same deadline, the iteration that comes in between
executes two. -/
example : (replay Timers.next {} [.runAfter ⟨7, 0⟩ 500, .runAfter ⟨7, 100⟩ 1000,
    .runAfter ⟨7, 200⟩ 300, .iteration ⟨7, 501⟩]).iterations.map (fun it => it.2.map (·.func)) =
      [[2, 0]] := by decide +kernel

end EventLoop
end SmallRpc
