import Mathlib

/-! Resumable parsing. A machine works in stages on the unread part of a stream;
a stage may ask for more, consume a positive number of items, or stop. The two
fields of `Machine` say that consuming makes progress and that an answer, once
given, is not revised when more items arrive. From them alone, reading a stream
in pieces and reading it whole come to the same end. -/
namespace Resumable

variable {α σ ω : Type*}

inductive Verdict (σ ω : Type*)
  | more
  | advance (s : σ) (n : Nat)
  | stop (o : ω)
  deriving DecidableEq

/-- What a stage has to guarantee: an advance consumes some of `w`, and a verdict that
is not `more` is kept on every longer stream. -/
structure Settled (verdict : σ → List α → Verdict σ ω) : Prop where
  progress : ∀ {s w s' n}, verdict s w = .advance s' n → 0 < n ∧ n ≤ w.length
  stable : ∀ {s w} (v), verdict s w ≠ .more → verdict s (w ++ v) = verdict s w

structure Machine (α σ ω : Type*) where
  stage : σ → List α → Verdict σ ω
  progress : ∀ {s w s' n}, stage s w = .advance s' n → 0 < n ∧ n ≤ w.length
  stable : ∀ {s w} (v), stage s w ≠ .more → stage s (w ++ v) = stage s w

/-- `Drains M s w r t x`: from `s` with `w` unread the machine runs until it
stops (`r = some o`) or waits (`r = none`), and is then in `t` with `x` unread. -/
inductive Drains (M : Machine α σ ω) : σ → List α → Option ω → σ → List α → Prop
  | more {s w} : M.stage s w = .more → Drains M s w none s w
  | stop {s w o} : M.stage s w = .stop o → Drains M s w (some o) s w
  | advance {s w s' n r t x} : M.stage s w = .advance s' n →
      Drains M s' (w.drop n) r t x → Drains M s w r t x

/-- `Reaches M s w t x`: some advances lead from `s` with `w` unread to `t` with `x`. -/
inductive Reaches (M : Machine α σ ω) : σ → List α → σ → List α → Prop
  | refl {s w} : Reaches M s w s w
  | advance {s w s' n t x} : M.stage s w = .advance s' n →
      Reaches M s' (w.drop n) t x → Reaches M s w t x

variable {M : Machine α σ ω} {s t t' u : σ} {w v x x' y : List α} {r r' : Option ω} {o : ω}

theorem Drains.total (M : Machine α σ ω) (s : σ) (w : List α) : ∃ r t x, Drains M s w r t x := by
  induction hn : w.length using Nat.strong_induction_on generalizing s w with
  | _ n ih =>
      subst hn
      cases hv : M.stage s w with
      | more => exact ⟨_, _, _, .more hv⟩
      | stop o => exact ⟨_, _, _, .stop hv⟩
      | advance s' n =>
          obtain ⟨hpos, hle⟩ := M.progress hv
          obtain ⟨r, t, x, h⟩ := ih (w.drop n).length (by rw [List.length_drop]; omega) s' _ rfl
          exact ⟨r, t, x, .advance hv h⟩

theorem Drains.unique (h : Drains M s w r t x) (k : Drains M s w r' t' x') :
    r = r' ∧ t = t' ∧ x = x' := by
  induction h with
  | more hv =>
      cases k with
      | more => exact ⟨rfl, rfl, rfl⟩
      | stop hv' => rw [hv] at hv'; cases hv'
      | advance hv' _ => rw [hv] at hv'; cases hv'
  | stop hv =>
      cases k with
      | more hv' => rw [hv] at hv'; cases hv'
      | stop hv' => rw [hv] at hv'; cases hv'; exact ⟨rfl, rfl, rfl⟩
      | advance hv' _ => rw [hv] at hv'; cases hv'
  | advance hv _ ih =>
      cases k with
      | more hv' => rw [hv] at hv'; cases hv'
      | stop hv' => rw [hv] at hv'; cases hv'
      | advance hv' hrest => rw [hv] at hv'; cases hv'; exact ih hrest

/-- The machine on `k` units of fuel, of which an item more than it has is enough. -/
def Machine.drain (M : Machine α σ ω) : Nat → σ → List α → Option ω × σ × List α
  | 0, s, w => (none, s, w)
  | k + 1, s, w =>
    match M.stage s w with
    | .more => (none, s, w)
    | .stop o => (some o, s, w)
    | .advance s' n => M.drain k s' (w.drop n)

theorem Drains.drain (h : Drains M s w r t x) {k : Nat} (fuel : w.length < k) :
    M.drain k s w = (r, t, x) := by
  induction h generalizing k with
  | more hv =>
      obtain ⟨k, rfl⟩ := Nat.exists_eq_succ_of_ne_zero (Nat.ne_zero_of_lt fuel)
      simp only [Machine.drain, hv]
  | stop hv =>
      obtain ⟨k, rfl⟩ := Nat.exists_eq_succ_of_ne_zero (Nat.ne_zero_of_lt fuel)
      simp only [Machine.drain, hv]
  | advance hv _ ih =>
      obtain ⟨k, rfl⟩ := Nat.exists_eq_succ_of_ne_zero (Nat.ne_zero_of_lt fuel)
      obtain ⟨hpos, hle⟩ := M.progress hv
      simp only [Machine.drain, hv]
      exact ih (by rw [List.length_drop]; omega)

/-- Where a machine comes to rest can be computed. -/
theorem drains_iff : Drains M s w r t x ↔ M.drain (w.length + 1) s w = (r, t, x) := by
  constructor
  · exact fun h => h.drain (Nat.lt_succ_self _)
  · intro h
    obtain ⟨r', t', x', drains⟩ := Drains.total M s w
    rw [drains.drain (Nat.lt_succ_self _)] at h
    cases h
    exact drains

/-- What is left unread is a tail of what was unread before. -/
theorem Drains.suffix (h : Drains M s w r t x) : x <:+ w := by
  induction h with
  | more _ => exact List.suffix_rfl
  | stop _ => exact List.suffix_rfl
  | advance _ _ ih => exact ih.trans (List.drop_suffix _ _)

theorem Drains.at_rest (h : Drains M s w none t x) : M.stage t x = .more := by
  generalize hr : none = r at h
  induction h with
  | more hv => exact hv
  | stop _ => cases hr
  | advance _ _ ih => exact ih hr

theorem Drains.reaches (h : Drains M s w r t x) : Reaches M s w t x := by
  induction h with
  | more _ => exact .refl
  | stop _ => exact .refl
  | advance hv _ ih => exact .advance hv ih

theorem Reaches.inv {s' : σ} {n : Nat} (hv : M.stage s w = .advance s' n)
    (h : Reaches M s w t x) : t = s ∧ x = w ∨ Reaches M s' (w.drop n) t x := by
  cases h with
  | refl => exact Or.inl ⟨rfl, rfl⟩
  | advance hv' rest =>
      rw [hv] at hv'
      cases hv'
      exact Or.inr rest

theorem Reaches.halted (hv : M.stage s w = .stop o) (h : Reaches M s w t x) : t = s ∧ x = w := by
  cases h with
  | refl => exact ⟨rfl, rfl⟩
  | advance hv' _ =>
      rw [hv] at hv'
      cases hv'

theorem Reaches.snoc {s' : σ} {n : Nat} (h : Reaches M s w t x) (hv : M.stage t x = .advance s' n) :
    Reaches M s w s' (x.drop n) := by
  induction h with
  | refl => exact .advance hv .refl
  | advance first _ ih => exact .advance first (ih hv)

/-- From what is reached the machine goes on as from the start. -/
theorem Reaches.drains (h : Reaches M s w t x) (rest : Drains M t x r u y) : Drains M s w r u y := by
  induction h with
  | refl => exact rest
  | advance hv _ ih => exact .advance hv (ih rest)

/-- A property that every advance preserves holds where the machine comes to rest. -/
theorem Drains.invariant {P : σ → Prop} (h : Drains M s w r t x) (hs : P s)
    (step : ∀ {s w s' n}, M.stage s w = .advance s' n → P s → P s') : P t := by
  induction h with
  | more _ => exact hs
  | stop _ => exact hs
  | advance hv _ ih => exact ih (step hv hs)

theorem Drains.stopped (h : Drains M s w (some o) t x) : M.stage t x = .stop o := by
  generalize hr : some o = r at h
  induction h with
  | more _ => cases hr
  | stop hv => cases hr; exact hv
  | advance _ _ ih => exact ih hr

theorem Machine.advance_append {s' : σ} {n : Nat} (hv : M.stage s w = .advance s' n) (v : List α) :
    M.stage s (w ++ v) = .advance s' n ∧ (w ++ v).drop n = w.drop n ++ v := by
  refine ⟨?_, List.drop_append_of_le_length (M.progress hv).2⟩
  rw [M.stable v (by simp [hv]), hv]

/-- What is reached on a stream is reached on every longer one. -/
theorem Reaches.append (h : Reaches M s w t x) (v : List α) : Reaches M s (w ++ v) t (x ++ v) := by
  induction h with
  | refl => exact .refl
  | advance hv _ ih =>
      obtain ⟨hv', hdrop⟩ := M.advance_append hv v
      exact .advance hv' (by rw [hdrop]; exact ih)

/-- A machine that has stopped stops in the same way on every longer stream. -/
theorem Drains.stop_append (h : Drains M s w (some o) t x) (v : List α) :
    Drains M s (w ++ v) (some o) t (x ++ v) := by
  generalize hr : some o = r at h
  induction h with
  | more _ => cases hr
  | stop hv =>
      cases hr
      exact .stop (by rw [M.stable v (by simp [hv]), hv])
  | advance hv _ ih =>
      obtain ⟨hv', hdrop⟩ := M.advance_append hv v
      exact .advance hv' (by rw [hdrop]; exact ih hr)

/-- Resuming a waiting machine equals running it on everything from the start. -/
theorem Drains.resume (h : Drains M s w none t x) (k : Drains M t (x ++ v) r u y) :
    Drains M s (w ++ v) r u y := by
  generalize hr : none = r' at h
  induction h with
  | more _ => exact k
  | stop _ => cases hr
  | advance hv _ ih =>
      obtain ⟨hv', hdrop⟩ := M.advance_append hv v
      exact .advance hv' (by rw [hdrop]; exact ih k hr)

/-- From where a machine is on a part of a message it goes through the rest of it. -/
theorem Reaches.completes {f : σ} {z : List α} (h : Reaches M s w t x)
    (whole : Drains M s (w ++ v) (some o) f z) : Drains M t (x ++ v) (some o) f z := by
  obtain ⟨r, u, y, rest⟩ := Drains.total M t (x ++ v)
  obtain ⟨rfl, rfl, rfl⟩ := whole.unique ((h.append v).drains rest)
  exact rest

/-- A machine that stops on a part of a message stops there on all of it. -/
theorem Drains.stops_with {f : σ} {z : List α} (h : Drains M s w (some o) u y)
    (whole : Drains M s (w ++ v) r f z) : r = some o ∧ f = u ∧ z = y ++ v := by
  obtain ⟨same, state, rest⟩ := whole.unique (h.stop_append v)
  exact ⟨same, state, rest⟩

end Resumable
