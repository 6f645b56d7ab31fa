import Mathlib

/-! First occurrence of a pattern in a word, the way `memchr` and `memmem` look
for it. Every lemma is about how the answer behaves when the word grows. -/
namespace FirstMatch

variable {α : Type*} [DecidableEq α] {pat w v : List α} {n : Nat}

/-- The least position of `w` at which `pat` starts. -/
def firstMatch (pat : List α) : List α → Option Nat
  | [] => if pat <+: [] then some 0 else none
  | x :: xs => if pat <+: x :: xs then some 0 else (firstMatch pat xs).map (· + 1)

theorem firstMatch_eq_some_iff :
    firstMatch pat w = some n ↔ pat <+: w.drop n ∧ n ≤ w.length ∧ ∀ m < n, ¬ pat <+: w.drop m := by
  induction w generalizing n with
  | nil =>
      simp only [firstMatch, List.drop_nil, List.length_nil]
      split_ifs with h
      · simp only [Option.some.injEq]
        constructor
        · rintro rfl
          exact ⟨h, le_rfl, fun m hm => absurd hm (Nat.not_lt_zero m)⟩
        · rintro ⟨_, hn, _⟩
          omega
      · simp [h]
  | cons x xs ih =>
      simp only [firstMatch]
      split_ifs with h
      · simp only [Option.some.injEq]
        constructor
        · rintro rfl
          exact ⟨h, Nat.zero_le _, fun m hm => absurd hm (Nat.not_lt_zero m)⟩
        · rintro ⟨_, _, least⟩
          by_contra hne
          exact least 0 (by omega) h
      · cases n with
        | zero => simp [h]
        | succ n =>
            simp only [Option.map_eq_some_iff, Nat.add_right_cancel_iff, exists_eq_right, ih,
              List.drop_succ_cons, List.length_cons, Nat.add_le_add_iff_right]
            refine and_congr_right fun _ => and_congr_right fun _ => ?_
            constructor
            · intro least m hm
              cases m with
              | zero => exact h
              | succ m => exact least m (by omega)
            · intro least m hm
              exact least (m + 1) (by omega)

theorem firstMatch_eq_none_iff :
    firstMatch pat w = none ↔ ∀ m ≤ w.length, ¬ pat <+: w.drop m := by
  induction w with
  | nil =>
      simp only [firstMatch, List.drop_nil, List.length_nil]
      split_ifs with h
      · simp only [false_iff, not_forall]
        exact ⟨0, le_rfl, fun hn => hn h⟩
      · simp [h]
  | cons x xs ih =>
      simp only [firstMatch]
      split_ifs with h
      · simp only [false_iff, not_forall]
        exact ⟨0, Nat.zero_le _, fun hn => hn h⟩
      · simp only [Option.map_eq_none_iff, ih, List.length_cons]
        constructor
        · intro none m hm
          cases m with
          | zero => exact h
          | succ m => exact none m (by omega)
        · intro none m hm
          exact none (m + 1) (by omega)

theorem firstMatch_bound (h : firstMatch pat w = some n) : n + pat.length ≤ w.length := by
  obtain ⟨here, hn, _⟩ := firstMatch_eq_some_iff.mp h
  have hle := here.length_le
  rw [List.length_drop] at hle
  omega

/-- A match stays the first one when bytes arrive behind it. -/
theorem firstMatch_append (h : firstMatch pat w = some n) : firstMatch pat (w ++ v) = some n := by
  have hb := firstMatch_bound h
  obtain ⟨here, hn, least⟩ := firstMatch_eq_some_iff.mp h
  refine firstMatch_eq_some_iff.mpr ⟨?_, by simp; omega, ?_⟩
  · rw [List.drop_append_of_le_length hn]
    exact here.trans (List.prefix_append _ _)
  · intro m hm longer
    refine least m hm ?_
    rw [List.drop_append_of_le_length (by omega)] at longer
    exact List.prefix_of_prefix_length_le longer (List.prefix_append _ _)
      (by rw [List.length_drop]; omega)

/-- The same inside a window of at most `k` items. -/
theorem firstMatch_take_append {k : Nat} (h : firstMatch pat (w.take k) = some n) :
    firstMatch pat ((w ++ v).take k) = some n := by
  rw [List.take_append]
  exact firstMatch_append h

/-- A window that is already full does not change when bytes arrive behind it. -/
theorem firstMatch_full_window {k : Nat} (hk : k ≤ w.length) :
    firstMatch pat ((w ++ v).take k) = firstMatch pat (w.take k) := by
  rw [List.take_append_of_le_length hk]

omit [DecidableEq α] in
theorem singleton_prefix_drop {c : α} : [c] <+: w.drop n ↔ w[n]? = some c := by
  rw [List.singleton_prefix_iff_head?_eq_some, List.head?_drop]

theorem firstMatch_singleton_none {c : α} : firstMatch [c] w = none ↔ c ∉ w := by
  rw [firstMatch_eq_none_iff, List.mem_iff_getElem?]
  simp only [singleton_prefix_drop, not_exists]
  constructor
  · intro h n hn
    have hlt : n < w.length := (List.getElem?_eq_some_iff.mp hn).1
    exact h n hlt.le hn
  · intro h n _
    exact h n

/-- A one-item match splits the word at the first occurrence of the item. -/
theorem firstMatch_singleton_some {c : α} (h : firstMatch [c] w = some n) :
    n < w.length ∧ w[n]? = some c ∧ c ∉ w.take n := by
  have hb := firstMatch_bound h
  obtain ⟨here, _, least⟩ := firstMatch_eq_some_iff.mp h
  refine ⟨hb, singleton_prefix_drop.mp here, ?_⟩
  intro hmem
  obtain ⟨m, hm⟩ := List.mem_iff_getElem?.mp hmem
  rw [List.getElem?_take] at hm
  split_ifs at hm with hlt
  exact least m hlt (singleton_prefix_drop.mpr hm)

/-- The first item that a word without it is followed by. -/
theorem firstMatch_singleton_append {c : α} (h : c ∉ w) (v : List α) :
    firstMatch [c] (w ++ c :: v) = some w.length := by
  refine firstMatch_eq_some_iff.mpr ⟨?_, by simp, fun m hm => ?_⟩
  · rw [List.drop_left]
    exact List.prefix_append [c] v
  · rw [singleton_prefix_drop, List.getElem?_append_left hm]
    exact fun here => h (List.mem_of_getElem? here)

theorem firstMatch_singleton_split {c : α} (h : firstMatch [c] w = some n) :
    w = w.take n ++ c :: w.drop (n + 1) := by
  obtain ⟨hn, here, _⟩ := firstMatch_singleton_some h
  rw [← (List.getElem?_eq_some_iff.mp here).2, List.cons_getElem_drop_succ, List.take_append_drop]

end FirstMatch
