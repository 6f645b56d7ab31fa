import Mathlib

/-! A first-in first-out queue. What it holds is determined by its history: everything
that went in, less as many items as came out. -/
namespace Fifo

variable {α : Type*}

inductive Op (α : Type*)
  | enqueue (xs : List α)
  | dequeue (n : Nat)

def Op.apply (q : List α) : Op α → List α
  | enqueue xs => q ++ xs
  | dequeue n => q.drop n

/-- Nothing is taken that is not there. -/
def Op.Legal (q : List α) : Op α → Prop
  | enqueue _ => True
  | dequeue n => n ≤ q.length

def Op.entering : Op α → List α
  | enqueue xs => xs
  | dequeue _ => []

def Op.leaving : Op α → Nat
  | enqueue _ => 0
  | dequeue n => n

def contents (q : List α) (ops : List (Op α)) : List α := ops.foldl Op.apply q

/-- Everything that went in, in order. -/
def entered (ops : List (Op α)) : List α := ops.flatMap Op.entering

/-- How much came out. -/
def left (ops : List (Op α)) : Nat := (ops.map Op.leaving).sum

variable {q xs : List α} {ops before after : List (Op α)} {op : Op α}

@[simp] theorem entered_snoc : entered (ops ++ [op]) = entered ops ++ op.entering := by
  simp [entered]

@[simp] theorem left_snoc : left (ops ++ [op]) = left ops + op.leaving := by
  simp [left]

@[simp] theorem contents_snoc : contents q (ops ++ [op]) = op.apply (contents q ops) := by
  simp [contents]

/-- A legal operation does to the remainder of a history what it does to the queue. -/
theorem Op.apply_remainder {history : List α} {k : Nat} (some : k ≤ history.length)
    (legal : op.Legal (history.drop k)) : op.apply (history.drop k) =
      (history ++ op.entering).drop (k + op.leaving) ∧
      k + op.leaving ≤ (history ++ op.entering).length := by
  cases op with
  | enqueue xs =>
      refine ⟨(List.drop_append_of_le_length some).symm, ?_⟩
      rw [List.length_append]
      exact some.trans (Nat.le_add_right _ _)
  | dequeue n =>
      simp only [Legal, List.length_drop] at legal
      simp only [apply, entering, leaving, List.append_nil, List.drop_drop, true_and]
      omega

/-- The queue holds what entered and has not left. -/
theorem contents_eq (legal : ∀ before op, before ++ [op] <+: ops → op.Legal (contents [] before)) :
    contents [] ops = (entered ops).drop (left ops) ∧ left ops ≤ (entered ops).length := by
  induction ops using List.reverseRecOn with
  | nil => exact ⟨rfl, le_rfl⟩
  | append_singleton ops op ih =>
      obtain ⟨held, some⟩ := ih fun before op' pre => legal before op' (pre.trans (ops.prefix_append _))
      have here := legal ops op (List.prefix_refl _)
      rw [held] at here
      rw [contents_snoc, entered_snoc, left_snoc, held]
      exact Op.apply_remainder some here

/-- What was put in is in front once all that went in before it has left. -/
theorem entered_front (split : ops = before ++ .enqueue xs :: after)
    (gone : left ops = (entered before).length) : xs <+: (entered ops).drop (left ops) := by
  have whole : entered ops = entered before ++ (xs ++ entered after) := by
    rw [split]
    simp [entered, Op.entering]
  rw [gone, whole, List.drop_left]
  exact List.prefix_append _ _

end Fifo
