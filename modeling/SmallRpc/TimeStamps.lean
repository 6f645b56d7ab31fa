import SmallRpc.TimerManager

/-! The arithmetic of time stamps, and what the event loop and its queue make of it. A
difference of two stamps is computed in a `long` and cast to `int`; stamps of a clock are
far enough from the limits of a `long` for its arithmetic to be exact. -/
namespace SmallRpc
open BinaryHeap Runs

namespace TimeStamp

/-- `operator==`. -/
def eq (a b : TimeStamp) : Bool := a.sec = b.sec ∧ a.msec = b.msec

/-- `operator-`. -/
def sub (a b : TimeStamp) : Int := ((a.sec - b.sec) * 1000 + a.msec - b.msec).bmod (2 ^ 32)

/-- `now`, with what `gettimeofday` reports. -/
def ofTimeval (tvSec tvUsec : Int) : TimeStamp := ⟨tvSec, tvUsec.tdiv 1000⟩

/-- The milliseconds are less than a second. -/
def Normal (a : TimeStamp) : Prop := 0 ≤ a.msec ∧ a.msec < 1000

instance (a : TimeStamp) : Decidable a.Normal := inferInstanceAs (Decidable (_ ∧ _))

/-- Milliseconds since the epoch. -/
def toMs (a : TimeStamp) : Int := a.sec * 1000 + a.msec

/-- The values of an `int`. -/
def FitsInt (n : Int) : Prop := -2 ^ 31 ≤ n ∧ n < 2 ^ 31

variable {a b c now : TimeStamp} {d : Int}

theorem ofTimeval_normal {tvSec tvUsec : Int} (nonneg : 0 ≤ tvUsec) (h : tvUsec < 1000000) :
    (ofTimeval tvSec tvUsec).Normal := by
  simp only [Normal, ofTimeval, Int.tdiv_eq_ediv_of_nonneg nonneg]
  omega

theorem toMs_sub (a b : TimeStamp) :
    (a.sec - b.sec) * 1000 + a.msec - b.msec = a.toMs - b.toMs := by
  unfold toMs
  omega

/-- A difference that an `int` can hold is computed exactly. -/
theorem sub_eq (h : FitsInt (a.toMs - b.toMs)) : a.sub b = a.toMs - b.toMs := by
  obtain ⟨low, high⟩ := h
  rw [sub, toMs_sub]
  apply Int.bmod_eq_of_le
  · omega
  · omega

/-- The lexicographic order is that of the milliseconds. -/
theorem lt_iff_toMs (ha : a.Normal) (hb : b.Normal) : a.lt b = true ↔ a.toMs < b.toMs := by
  unfold Normal at ha hb
  unfold lt toMs
  split_ifs with same
  · rw [decide_eq_true_eq]
    omega
  · rw [decide_eq_true_eq]
    omega

theorem afterNowMs_toMs (h : now.Normal) (hd : 0 ≤ d) :
    (now.afterNowMs d).Normal ∧ (now.afterNowMs d).toMs = now.toMs + d := by
  unfold Normal at h ⊢
  have nonneg : 0 ≤ now.msec + d := by omega
  simp only [afterNowMs, toMs]
  rw [Int.tdiv_eq_ediv_of_nonneg nonneg, Int.tmod_eq_emod_of_nonneg nonneg]
  omega

/-- A negative delay gives a stamp of the right time, whose milliseconds may be negative; its
second is not after that of the clock. -/
theorem afterNowMs_toMs_of_neg (h : now.Normal) (hd : d < 0) :
    (now.afterNowMs d).toMs = now.toMs + d ∧ (now.afterNowMs d).sec ≤ now.sec := by
  unfold Normal at h
  have split := Int.mul_tdiv_add_tmod (now.msec + d) 1000
  have earlier : (now.msec + d).tdiv 1000 ≤ 0 := by
    rcases lt_or_ge (now.msec + d) 0 with neg | nonneg
    · have low := Int.lt_tmod_of_pos (now.msec + d) (by decide : (0 : Int) < 1000)
      omega
    · rw [Int.tdiv_eq_ediv_of_nonneg nonneg]
      omega
  simp only [afterNowMs, toMs]
  omega

theorem eq_iff : a.eq b = true ↔ a = b := by
  rw [eq, decide_eq_true_eq]
  constructor
  · intro same
    cases a
    cases b
    simp only at same
    rw [same.1, same.2]
  · rintro rfl
    exact ⟨rfl, rfl⟩

theorem key_inj (h : a.key = b.key) : a = b := by
  obtain ⟨sec, msec⟩ := Prod.mk.inj (toLex.injective h)
  exact eq_iff.mp (by rw [eq, decide_eq_true_eq]; exact ⟨sec, msec⟩)

instance : IsStrictTotalOrder TimeStamp fun a b => a.lt b = true where
  trichotomous a b hab hba := by
    rw [lt_iff, not_lt] at hab hba
    exact key_inj (le_antisymm hba hab)
  irrefl a := by
    rw [lt_iff]
    exact lt_irrefl _
  trans a b c hab hbc := by
    rw [lt_iff] at hab hbc ⊢
    exact hab.trans hbc

end TimeStamp

namespace TimerManager

def getLatestTimer (timers : TimerManager) : TimeStamp :=
  match timers.top? with
  | none => ⟨0, 0⟩
  | some tm => tm.timestamp

end TimerManager

namespace EventLoop

def defaultEpollTimeout : Int := 256

/-- What `loop` passes to `epoll_wait`. -/
def timeoutMs (now : TimeStamp) (timers : TimerManager) : Int :=
  let timeoutMs :=
    if timers.entries = [] then defaultEpollTimeout
    else (TimerManager.getLatestTimer timers).sub now
  if timeoutMs < 0 then 0 else timeoutMs

variable {now : TimeStamp} {timers : TimerManager} {tm t : TimerManager.Timer} {s : Timers}
  {steps : List TimerStep} {clock : TimeStamp} {d : Int}

/-- The delays that `run_after` is called with, and the clock at each call. -/
def Armed (now : TimeStamp) (steps : List TimerStep) : Prop :=
  ∀ clock d, .runAfter clock d ∈ steps →
    clock.Normal ∧ now.lt clock = false ∧ 0 ≤ d ∧ d < 2 ^ 31

/-- Of two timers with the earliest deadline one is on top. -/
theorem latest_eq (ht : tm ∈ timers.entries)
    (earliest : ∀ t ∈ timers.entries, t.timestamp.lt tm.timestamp = false) :
    TimerManager.getLatestTimer timers = tm.timestamp := by
  obtain ⟨top, rest, hq⟩ := List.exists_cons_of_ne_nil (List.ne_nil_of_mem ht)
  have htop : timers.top? = some top := by
    rw [TimerManager.top?, PriorityQueue.top?, hq]
    rfl
  have first := TimerManager.top_first htop ht
  have last := Bool.eq_false_iff.mp (earliest top (by rw [hq]; exact List.mem_cons_self))
  rw [TimeStamp.lt_iff, not_lt] at first
  rw [Ne, TimeStamp.lt_iff, not_lt] at last
  rw [TimerManager.getLatestTimer, htop]
  exact TimeStamp.key_inj (le_antisymm first last)

/-- Every timer was made by a `run_after`. -/
theorem added_armed (ht : t ∈ (replay Timers.next {} steps).added) :
    ∃ clock d, .runAfter clock d ∈ steps ∧ t.timestamp = clock.afterNowMs d := by
  rw [added_replay] at ht
  obtain ⟨i, hi, rfl⟩ := List.mem_mapIdx.mp ht
  obtain ⟨step, hm, made⟩ := List.mem_filterMap.mp (List.getElem_mem hi)
  cases step with
  | iteration now => cases made
  | runAfter clock d => exact ⟨clock, d, hm, (Option.some.inj made).symm⟩

/-- A queued timer was armed no later than now, so no more than its delay is left. -/
theorem left_le (hn : now.Normal) (armed : Armed now steps)
    (ht : t ∈ (replay Timers.next {} steps).manager.entries) :
    t.timestamp.Normal ∧ t.timestamp.toMs - now.toMs < 2 ^ 31 := by
  have kept : (replay Timers.next {} steps).Kept := kept_replay
  have added := kept.perm.mem_iff.mp (List.mem_append_right _ ht)
  obtain ⟨clock, d, hm, same⟩ := added_armed added
  obtain ⟨normal, past, nonneg, small⟩ := armed clock d hm
  obtain ⟨normal', left⟩ := TimeStamp.afterNowMs_toMs normal nonneg
  have order : ¬ now.toMs < clock.toMs := by
    rw [← TimeStamp.lt_iff_toMs hn normal, past]
    simp
  rw [same]
  exact ⟨normal', by omega⟩

/-- Stamps, their differences and delays agree; so `epoll_wait` gets exactly the time left
to the earliest deadline. -/
theorem stamps_agree :
    (∀ (now : TimeStamp) (d : Int), now.Normal → 0 ≤ d → d < 2 ^ 31 →
      (now.afterNowMs d).Normal ∧ (now.afterNowMs d).sub now = d) ∧
    IsStrictTotalOrder TimeStamp (fun a b => a.lt b = true) ∧
    (∀ a b : TimeStamp, a.eq b = true ↔ a.lt b = false ∧ b.lt a = false) ∧
    (∀ a b : TimeStamp, a.Normal → b.Normal → TimeStamp.FitsInt (a.toMs - b.toMs) →
      (a.lt b = true ↔ a.sub b < 0)) ∧
    ∀ steps now, now.Normal → Armed now steps →
      ∀ tm ∈ (replay Timers.next {} steps).manager.entries,
        (∀ t ∈ (replay Timers.next {} steps).manager.entries,
          t.timestamp.lt tm.timestamp = false) →
        -2 ^ 31 ≤ tm.timestamp.toMs - now.toMs →
        timeoutMs now (replay Timers.next {} steps).manager =
          max 0 (tm.timestamp.toMs - now.toMs) := by
  refine ⟨fun now d hn nonneg small => ?_, inferInstance, fun a b => ?_, fun a b ha hb fits => ?_,
    fun steps now hn armed tm ht earliest overdue => ?_⟩
  · obtain ⟨normal, later⟩ := TimeStamp.afterNowMs_toMs hn nonneg
    have exact_ : (now.afterNowMs d).toMs - now.toMs = d := by omega
    have fits : TimeStamp.FitsInt ((now.afterNowMs d).toMs - now.toMs) := by
      unfold TimeStamp.FitsInt
      omega
    exact ⟨normal, (TimeStamp.sub_eq fits).trans exact_⟩
  · rw [TimeStamp.eq_iff, Bool.eq_false_iff, Bool.eq_false_iff, Ne, Ne, TimeStamp.lt_iff,
      TimeStamp.lt_iff, not_lt, not_lt]
    constructor
    · rintro rfl
      exact ⟨le_rfl, le_rfl⟩
    · rintro ⟨ba, ab⟩
      exact TimeStamp.key_inj (le_antisymm ab ba)
  · rw [TimeStamp.lt_iff_toMs ha hb, TimeStamp.sub_eq fits]
    omega
  · have fits : TimeStamp.FitsInt (tm.timestamp.toMs - now.toMs) := ⟨overdue, (left_le hn armed ht).2⟩
    have some : (replay Timers.next {} steps).manager.entries ≠ [] := List.ne_nil_of_mem ht
    simp only [timeoutMs, if_neg some, latest_eq ht earliest, TimeStamp.sub_eq fits]
    split_ifs with passed
    · omega
    · omega

/-- One timer is left of two, 400 milliseconds before its deadline. -/
theorem stamps_agree_sample :
    (TimeStamp.afterNowMs ⟨7, 900⟩ 3900).sub ⟨7, 900⟩ = 3900 ∧
    (TimeStamp.lt ⟨7, 900⟩ ⟨8, 100⟩ = true ↔ TimeStamp.sub ⟨7, 900⟩ ⟨8, 100⟩ < 0) ∧
    timeoutMs ⟨7, 800⟩ (replay Timers.next {} [.runAfter ⟨7, 0⟩ 500, .runAfter ⟨7, 100⟩ 1100,
      .iteration ⟨7, 501⟩]).manager = max 0 (TimeStamp.toMs ⟨8, 200⟩ - TimeStamp.toMs ⟨7, 800⟩) := by
  obtain ⟨delay, _, _, order, timeout⟩ := stamps_agree
  refine ⟨(delay ⟨7, 900⟩ 3900 (by decide) (by decide) (by decide)).2, ?_, ?_⟩
  · exact order ⟨7, 900⟩ ⟨8, 100⟩ (by decide) (by decide) (by unfold TimeStamp.FitsInt; decide)
  · refine timeout _ ⟨7, 800⟩ (by decide) ?_ ⟨⟨8, 200⟩, 1⟩ (by decide +kernel) (by decide +kernel)
      (by decide)
    intro clock d hm
    simp only [List.mem_cons, TimerStep.runAfter.injEq, reduceCtorEq, List.not_mem_nil, or_false] at hm
    rcases hm with ⟨rfl, rfl⟩ | ⟨rfl, rfl⟩ <;> decide

end EventLoop

namespace TimerManager
variable {a b : Timer} {S : Set Timer}

/-- What `std::priority_queue` asks of its comparison on the timers it may hold, and what
makes it put the earliest on top. -/
structure Contract (S : Set Timer) : Prop where
  irreflexive : ∀ a ∈ S, a.lt a = false
  asymmetric : ∀ a ∈ S, ∀ b ∈ S, a.lt b = true → b.lt a = false
  transitive : ∀ a ∈ S, ∀ b ∈ S, ∀ c ∈ S, a.lt b = true → b.lt c = true → a.lt c = true
  incomparable : ∀ a ∈ S, ∀ b ∈ S, ∀ c ∈ S, a.lt b = false ∧ b.lt a = false →
    b.lt c = false ∧ c.lt b = false → a.lt c = false ∧ c.lt a = false
  earlier_above : ∀ a ∈ S, ∀ b ∈ S, a.timestamp.lt b.timestamp = true → b.lt a = true ∧ a.lt b = false

theorem lt_iff : a.lt b = true ↔ b.deadline ≤ a.deadline := by
  rw [Timer.lt, Bool.not_eq_true', Bool.eq_false_iff, Ne, TimeStamp.lt_iff, not_lt]
  exact Iff.rfl

/-- Two timers are less than each other exactly if their deadlines are the same. -/
theorem lt_both_iff : (a.lt b = true ∧ b.lt a = true) ↔ a.timestamp = b.timestamp := by
  rw [lt_iff, lt_iff]
  constructor
  · rintro ⟨ba, ab⟩
    exact TimeStamp.key_inj (le_antisymm ab ba)
  · intro same
    rw [Timer.deadline, Timer.deadline, same]
    exact ⟨le_rfl, le_rfl⟩

/-- The comparison breaks the contract at every timer, which is less than itself, and at
every two of the same deadline; it keeps it at timers of different deadlines. -/
theorem contract_iff (S : Set Timer) (a b : Timer) :
    (Contract S ↔ S = ∅) ∧
    ((a.lt b = true → b.lt a = false) ↔ a.timestamp ≠ b.timestamp) ∧
    (a.timestamp.lt b.timestamp = true → b.lt a = true ∧ a.lt b = false) := by
  refine ⟨⟨fun contract => ?_, ?_⟩, ?_, fun earlier => ?_⟩
  · apply Set.eq_empty_of_forall_notMem
    intro t ht
    have itself : t.lt t = true := (lt_both_iff.mpr rfl).1
    rw [contract.irreflexive t ht] at itself
    cases itself
  · rintro rfl
    exact ⟨by simp, by simp, by simp, by simp, by simp⟩
  · rw [Ne, ← lt_both_iff, not_and, Bool.not_eq_true]
  · rw [TimeStamp.lt_iff] at earlier
    rw [lt_iff, Bool.eq_false_iff, Ne, lt_iff, not_le]
    exact ⟨earlier.le, earlier⟩

/-- Two timers armed in the same millisecond are less than each other. -/
theorem not_contract : ¬ ∀ S : Set Timer, Contract S := by
  intro claim
  have both := (claim Set.univ).asymmetric ⟨⟨7, 500⟩, 0⟩ trivial ⟨⟨7, 500⟩, 1⟩ trivial rfl
  cases both

end TimerManager
end SmallRpc
