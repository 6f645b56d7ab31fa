import Mathlib

/-! Binary heaps in a vector, kept as `std::push_heap` and `std::pop_heap` keep them: a
hole is moved along a path of the tree and filled at the end. The operations only call a
comparator. What is proved asks of it no more than that its answers fit an order of ranks;
where two ranks are equal it may answer either way. -/
namespace BinaryHeap

variable {α β : Type*}

/-- `comp a b` says that `b` may stand above `a`, its opposite that `a` may stand above `b`. -/
structure Compares [LinearOrder β] (rank : α → β) (comp : α → α → Bool) : Prop where
  le_of_true : ∀ {a b}, comp a b = true → rank b ≤ rank a
  le_of_false : ∀ {a b}, comp a b = false → rank a ≤ rank b

def parent (i : Nat) : Nat := (i - 1) / 2

theorem parent_lt {i : Nat} (h : 0 < i) : parent i < i := by
  unfold parent
  omega

theorem parent_eq {i j : Nat} (h : 0 < i) : parent i = j ↔ i = 2 * j + 1 ∨ i = 2 * j + 2 := by
  unfold parent
  omega

/-- `__push_heap`: entries that `value` may stand above move down into the hole. -/
def pushUp (comp : α → α → Bool) (value : α) (hole : Nat) (xs : List α) : List α :=
  if h : 0 < hole ∧ parent hole < xs.length then
    if comp xs[parent hole] value then pushUp comp value (parent hole) (xs.set hole xs[parent hole])
    else xs.set hole value
  else xs.set hole value
termination_by hole
decreasing_by exact parent_lt h.1

/-- The loop of `__adjust_heap`, with the only child of the last inner entry: from the
hole down to a leaf, always the child that may stand above the other moves up. -/
def adjustDown (comp : α → α → Bool) (hole : Nat) (xs : List α) : Nat × List α :=
  if h : 2 * hole + 2 < xs.length then
    if comp xs[2 * hole + 2] xs[2 * hole + 1] then
      adjustDown comp (2 * hole + 1) (xs.set hole xs[2 * hole + 1])
    else adjustDown comp (2 * hole + 2) (xs.set hole xs[2 * hole + 2])
  else if h : 2 * hole + 2 = xs.length then (2 * hole + 1, xs.set hole xs[2 * hole + 1])
  else (hole, xs)
termination_by xs.length - hole
decreasing_by all_goals simp only [List.length_set]; omega

/-- `push_back` and `push_heap`. -/
def push (comp : α → α → Bool) (xs : List α) (value : α) : List α :=
  pushUp comp value xs.length (xs ++ [value])

/-- `pop_heap` and `pop_back`: the last entry is put in from the root's place. -/
def pop (comp : α → α → Bool) (xs : List α) : List α :=
  match xs.dropLast, xs.getLast? with
  | [], _ => []
  | y :: ys, none => y :: ys
  | y :: ys, some value =>
    let (hole, zs) := adjustDown comp 0 (y :: ys)
    pushUp comp value hole zs

section Order
variable [LinearOrder β] {rank : α → β} {comp : α → α → Bool} {xs : List α} {hole i j : Nat}
  {value a b : α}

/-- The entries at two places, where there are any, are in order. -/
def InOrder (rank : α → β) (xs : List α) (i j : Nat) : Prop :=
  ∀ a b, xs[i]? = some a → xs[j]? = some b → rank a ≤ rank b

def IsHeap (rank : α → β) (xs : List α) : Prop := ∀ i, 0 < i → InOrder rank xs (parent i) i

/-- A heap but for the entry in the hole. -/
structure Holed (rank : α → β) (xs : List α) (hole : Nat) : Prop where
  other : ∀ i, 0 < i → i ≠ hole → parent i ≠ hole → InOrder rank xs (parent i) i
  across : ∀ i, 0 < i → parent i = hole → 0 < hole → InOrder rank xs (parent hole) i

/-- Everything right below the hole may stand below `value`. -/
def Above (rank : α → β) (value : α) (xs : List α) (hole : Nat) : Prop :=
  ∀ i, 0 < i → parent i = hole → ∀ b, xs[i]? = some b → rank value ≤ rank b

theorem inOrder_set_other (hi : i ≠ hole) (hj : j ≠ hole) :
    InOrder rank (xs.set hole value) i j ↔ InOrder rank xs i j := by
  unfold InOrder
  rw [List.getElem?_set_ne hi.symm, List.getElem?_set_ne hj.symm]

theorem inOrder_set_left (hj : j ≠ hole) (h : ∀ b, xs[j]? = some b → rank value ≤ rank b) :
    InOrder rank (xs.set hole value) hole j := by
  intro a b ha hb
  rw [List.getElem?_set_ne hj.symm] at hb
  obtain rfl : value = a := by
    rw [List.getElem?_set] at ha
    grind
  exact h b hb

theorem inOrder_set_right (hi : i ≠ hole) (h : ∀ a, xs[i]? = some a → rank a ≤ rank value) :
    InOrder rank (xs.set hole value) i hole := by
  intro a b ha hb
  rw [List.getElem?_set_ne hi.symm] at ha
  obtain rfl : value = b := by
    rw [List.getElem?_set] at hb
    grind
  exact h a ha

/-- Filling the hole with something that fits between what is above and below it. -/
theorem Holed.fill (h : Holed rank xs hole)
    (above : 0 < hole → ∀ p, xs[parent hole]? = some p → rank p ≤ rank value)
    (below : Above rank value xs hole) : IsHeap rank (xs.set hole value) := by
  intro i hi
  have hlt := parent_lt hi
  by_cases hhole : i = hole
  · subst hhole
    exact inOrder_set_right hlt.ne (above hi)
  · by_cases hparent : parent i = hole
    · rw [hparent]
      exact inOrder_set_left hhole (below i hi hparent)
    · exact (inOrder_set_other hparent hhole).mpr (h.other i hi hhole hparent)

/-- The entry above the hole moves down into it. -/
theorem Holed.lift (h : Holed rank xs hole) (pos : 0 < hole) (hp : xs[parent hole]? = some a) :
    Holed rank (xs.set hole a) (parent hole) := by
  have hlt := parent_lt pos
  refine ⟨fun i hi hne hparent => ?_, fun i hi hparent hpos => ?_⟩
  · have hhole : i ≠ hole := fun same => hparent (by rw [same])
    by_cases hbelow : parent i = hole
    · rw [hbelow]
      exact inOrder_set_left hhole fun b hb => h.across i hi hbelow pos a b hp hb
    · exact (inOrder_set_other hbelow hhole).mpr (h.other i hi hhole hbelow)
  · have hgrand := parent_lt hpos
    have up := h.other (parent hole) hpos hlt.ne (by omega)
    by_cases hhole : i = hole
    · subst hhole
      exact inOrder_set_right (by omega) fun b hb => up b a hb hp
    · refine (inOrder_set_other (by omega) hhole).mpr fun b d hb hd => (up b a hb hp).trans ?_
      exact h.other i hi hhole (by omega) a d (by rw [hparent]; exact hp) hd

/-- The first of the entries right below the hole moves up into it. -/
theorem Holed.sink (h : Holed rank xs hole) (pos : 0 < i) (hparent : parent i = hole)
    (hi : xs[i]? = some a) (first : Above rank a xs hole) : Holed rank (xs.set hole a) i := by
  have hlt : hole < i := hparent ▸ parent_lt pos
  refine ⟨fun j hj hne hother => ?_, fun j hj hbelow _ => ?_⟩
  · have hj' := parent_lt hj
    by_cases hhole : j = hole
    · subst hhole
      refine inOrder_set_right hj'.ne fun b hb => ?_
      exact h.across i pos hparent hj b a hb hi
    · by_cases hside : parent j = hole
      · rw [hside]
        exact inOrder_set_left hhole (first j hj hside)
      · exact (inOrder_set_other hside hhole).mpr (h.other j hj hhole hside)
  · have hj' := parent_lt hj
    rw [hparent]
    refine inOrder_set_left (by omega) fun b hb => ?_
    exact h.other j hj (by omega) (by omega) a b (by rw [hbelow]; exact hi) hb

theorem pushUp_isHeap (compares : Compares rank comp) (h : Holed rank xs hole)
    (below : Above rank value xs hole) : IsHeap rank (pushUp comp value hole xs) := by
  induction hole, xs using pushUp.induct comp value with
  | case1 hole xs inside moves ih =>
      rw [pushUp, dif_pos inside, if_pos moves]
      have hp : xs[parent hole]? = some xs[parent hole] := List.getElem?_eq_getElem inside.2
      have le := compares.le_of_true moves
      refine ih (h.lift inside.1 hp) fun i hi hparent b hb => ?_
      by_cases hhole : hole = i
      · subst hhole
        rw [List.getElem?_set] at hb
        grind
      · rw [List.getElem?_set_ne hhole] at hb
        have hlt := parent_lt inside.1
        exact le.trans (h.other i hi (Ne.symm hhole) (by omega) _ b (by rw [hparent]; exact hp) hb)
  | case2 hole xs inside stays =>
      rw [pushUp, dif_pos inside, if_neg stays]
      refine h.fill (fun _ p hp => ?_) below
      rw [List.getElem?_eq_getElem inside.2] at hp
      obtain rfl := Option.some.inj hp
      exact compares.le_of_false (Bool.eq_false_of_not_eq_true stays)
  | case3 hole xs outside =>
      rw [pushUp, dif_neg outside]
      refine h.fill (fun pos p hp => ?_) below
      exact absurd ⟨pos, (List.getElem?_eq_some_iff.mp hp).1⟩ outside

/-- The hole ends at a leaf. -/
theorem adjustDown_holed (compares : Compares rank comp) (h : Holed rank xs hole)
    (inside : hole < xs.length) :
    Holed rank (adjustDown comp hole xs).2 (adjustDown comp hole xs).1 ∧
      ∀ value, Above rank value (adjustDown comp hole xs).2 (adjustDown comp hole xs).1 := by
  induction hole, xs using adjustDown.induct comp with
  | case1 hole xs both left ih =>
      rw [adjustDown, dif_pos both, if_pos left]
      refine ih (h.sink (by omega) ((parent_eq (by omega)).mpr (.inl rfl))
        (List.getElem?_eq_getElem (by omega)) fun i hi hparent b hb => ?_) (by simp; omega)
      rcases (parent_eq hi).mp hparent with rfl | rfl
      · rw [List.getElem?_eq_getElem (by omega)] at hb
        exact (Option.some.inj hb) ▸ le_rfl
      · rw [List.getElem?_eq_getElem (by omega)] at hb
        exact (Option.some.inj hb) ▸ compares.le_of_true left
  | case2 hole xs both right ih =>
      rw [adjustDown, dif_pos both, if_neg right]
      refine ih (h.sink (by omega) ((parent_eq (by omega)).mpr (.inr rfl))
        (List.getElem?_eq_getElem (by omega)) fun i hi hparent b hb => ?_) (by simp; omega)
      rcases (parent_eq hi).mp hparent with rfl | rfl
      · rw [List.getElem?_eq_getElem (by omega)] at hb
        exact (Option.some.inj hb) ▸ compares.le_of_false (Bool.eq_false_of_not_eq_true right)
      · rw [List.getElem?_eq_getElem (by omega)] at hb
        exact (Option.some.inj hb) ▸ le_rfl
  | case3 hole xs both one =>
      rw [adjustDown, dif_neg both, dif_pos one]
      refine ⟨h.sink (by omega) ((parent_eq (by omega)).mpr (.inl rfl))
        (List.getElem?_eq_getElem (by omega)) fun i hi hparent b hb => ?_, fun value i hi hparent b hb => ?_⟩
      · rcases (parent_eq hi).mp hparent with rfl | rfl
        · rw [List.getElem?_eq_getElem (by omega)] at hb
          exact (Option.some.inj hb) ▸ le_rfl
        · rw [List.getElem?_eq_none (by omega)] at hb
          cases hb
      · have hi' := parent_lt hi
        rcases (parent_eq hi).mp hparent with rfl | rfl
        · rw [List.getElem?_eq_none (by simp; omega)] at hb
          cases hb
        · rw [List.getElem?_eq_none (by simp; omega)] at hb
          cases hb
  | case4 hole xs both one =>
      rw [adjustDown, dif_neg both, dif_neg one]
      refine ⟨h, fun value i hi hparent b hb => ?_⟩
      have hlt : i < xs.length := (List.getElem?_eq_some_iff.mp hb).1
      have := (parent_eq hi).mp hparent
      omega

theorem isHeap_push (compares : Compares rank comp) (h : IsHeap rank xs) :
    IsHeap rank (push comp xs value) := by
  apply pushUp_isHeap compares
  · refine ⟨fun i hi hne _ a b ha hb => ?_, fun i hi hparent _ a b _ hb => ?_⟩
    · have hlt := parent_lt hi
      have inside := (List.getElem?_eq_some_iff.mp hb).1
      rw [List.length_append, List.length_singleton] at inside
      rw [List.getElem?_append_left (by omega)] at ha hb
      exact h i hi a b ha hb
    · have inside := (List.getElem?_eq_some_iff.mp hb).1
      have hlt := parent_lt hi
      rw [List.length_append, List.length_singleton] at inside
      omega
  · intro i hi hparent b hb
    have inside := (List.getElem?_eq_some_iff.mp hb).1
    have hlt := parent_lt hi
    rw [List.length_append, List.length_singleton] at inside
    omega

theorem isHeap_dropLast (h : IsHeap rank xs) : IsHeap rank xs.dropLast := by
  intro i hi a b ha hb
  rw [List.getElem?_dropLast] at ha hb
  split_ifs at ha hb
  exact h i hi a b ha hb

theorem isHeap_pop (compares : Compares rank comp) (h : IsHeap rank xs) :
    IsHeap rank (pop comp xs) := by
  have front := isHeap_dropLast h
  unfold pop
  split
  · intro i hi a b ha hb
    cases hb
  · rename_i y ys hys _
    rw [hys] at front
    exact front
  · rename_i y ys value hys _
    rw [hys] at front
    have start : Holed rank (y :: ys) 0 :=
      ⟨fun i hi _ _ => front i hi, fun _ _ _ pos => absurd pos (lt_irrefl 0)⟩
    obtain ⟨holed, leaf⟩ := adjustDown_holed compares start (by simp)
    exact pushUp_isHeap compares holed (leaf value)

/-- Nothing in a heap has a smaller rank than its first entry. -/
theorem IsHeap.le_top (h : IsHeap rank xs) (top : xs[0]? = some a) (hb : b ∈ xs) :
    rank a ≤ rank b := by
  obtain ⟨i, hi⟩ := List.mem_iff_getElem?.mp hb
  induction i using Nat.strong_induction_on generalizing b with
  | h i ih =>
      by_cases h0 : i = 0
      · subst h0
        obtain rfl := Option.some.inj (top.symm.trans hi)
        exact le_rfl
      · have pos : 0 < i := Nat.pos_of_ne_zero h0
        have inside := (List.getElem?_eq_some_iff.mp hi).1
        have hp := List.getElem?_eq_getElem ((parent_lt pos).trans inside)
        exact (ih _ (parent_lt pos) (List.mem_of_getElem? hp) hp).trans (h i pos _ b hp hi)

end Order

section Perm
variable {comp : α → α → Bool} {xs : List α} {hole i : Nat} {value a : α}

theorem length_adjustDown : (adjustDown comp hole xs).2.length = xs.length := by
  fun_induction adjustDown comp hole xs with
  | case1 hole xs _ _ ih => rw [ih, List.length_set]
  | case2 hole xs _ _ ih => rw [ih, List.length_set]
  | case3 => rw [List.length_set]
  | case4 => rfl

/-- What is to fill the hole may as well fill it where it moves to. -/
theorem set_moved_perm (hi : xs[i]? = some a) (hne : i ≠ hole) (inside : hole < xs.length) :
    ((xs.set hole a).set i value).Perm (xs.set hole value) := by
  obtain ⟨hlt, rfl⟩ := List.getElem?_eq_some_iff.mp hi
  have swap := @List.set_set_perm _ (xs.set hole value) hole i (by simpa) (by simpa)
  rw [List.getElem_set_ne hne.symm, List.getElem_set_self, List.set_set] at swap
  exact swap

theorem pushUp_perm (inside : hole < xs.length) :
    (pushUp comp value hole xs).Perm (xs.set hole value) := by
  induction hole, xs using pushUp.induct comp value with
  | case1 hole xs within moves ih =>
      rw [pushUp, dif_pos within, if_pos moves]
      exact (ih (by simpa using within.2)).trans
        (set_moved_perm (List.getElem?_eq_getElem within.2) (parent_lt within.1).ne inside)
  | case2 hole xs within stays => rw [pushUp, dif_pos within, if_neg stays]
  | case3 hole xs outside => rw [pushUp, dif_neg outside]

theorem adjustDown_perm (inside : hole < xs.length) : (adjustDown comp hole xs).1 < xs.length ∧
    ((adjustDown comp hole xs).2.set (adjustDown comp hole xs).1 value).Perm (xs.set hole value) := by
  have moved : ∀ {hole i : Nat} {xs : List α} (hi : i < xs.length), i ≠ hole → hole < xs.length →
      ((xs.set hole xs[i]).set i value).Perm (xs.set hole value) :=
    fun hi => set_moved_perm (List.getElem?_eq_getElem hi)
  induction hole, xs using adjustDown.induct comp with
  | case1 hole xs both left ih =>
      rw [adjustDown, dif_pos both, if_pos left]
      obtain ⟨bound, perm⟩ := ih (by simp; omega)
      exact ⟨by simpa using bound, perm.trans (moved (by omega) (by omega) inside)⟩
  | case2 hole xs both right ih =>
      rw [adjustDown, dif_pos both, if_neg right]
      obtain ⟨bound, perm⟩ := ih (by simp; omega)
      exact ⟨by simpa using bound, perm.trans (moved both (by omega) inside)⟩
  | case3 hole xs both one =>
      rw [adjustDown, dif_neg both, dif_pos one]
      exact ⟨by simp only; omega, moved (by omega) (by omega) inside⟩
  | case4 hole xs both one =>
      rw [adjustDown, dif_neg both, dif_neg one]
      exact ⟨inside, .refl _⟩

theorem push_perm : (push comp xs value).Perm (value :: xs) := by
  refine (pushUp_perm (by simp)).trans ?_
  rw [List.set_append_right _ _ le_rfl, Nat.sub_self, List.set_cons_zero]
  exact List.perm_append_singleton value xs

/-- `pop` takes the first entry away and keeps every other. -/
theorem pop_perm (top : xs[0]? = some a) : xs.Perm (a :: pop comp xs) := by
  cases xs using List.reverseRecOn with
  | nil => cases top
  | append_singleton front value =>
      unfold pop
      rw [List.dropLast_concat, List.getLast?_concat]
      cases front with
      | nil =>
          obtain rfl := Option.some.inj top
          exact .refl _
      | cons y ys =>
          obtain rfl := Option.some.inj top
          obtain ⟨bound, perm⟩ := @adjustDown_perm _ comp (y :: ys) 0 value (by simp)
          have filled := (@pushUp_perm _ comp _ _ value
            (length_adjustDown.symm ▸ bound)).trans perm
          exact (List.perm_append_singleton value _).trans
            ((List.Perm.swap _ _ _).trans (filled.symm.cons _))

end Perm

/-- `std::priority_queue`: a vector that is a heap at all times. -/
structure PriorityQueue [LinearOrder β] (rank : α → β) where
  entries : List α
  heap : IsHeap rank entries

namespace PriorityQueue
variable [LinearOrder β] {rank : α → β} {comp : α → α → Bool}

def empty : PriorityQueue rank := ⟨[], fun _ _ _ _ _ hb => by cases hb⟩

def top? (q : PriorityQueue rank) : Option α := q.entries[0]?

def emplace (compares : Compares rank comp) (q : PriorityQueue rank) (value : α) :
    PriorityQueue rank := ⟨push comp q.entries value, isHeap_push compares q.heap⟩

def pop (compares : Compares rank comp) (q : PriorityQueue rank) : PriorityQueue rank :=
  ⟨BinaryHeap.pop comp q.entries, isHeap_pop compares q.heap⟩

end PriorityQueue

end BinaryHeap
