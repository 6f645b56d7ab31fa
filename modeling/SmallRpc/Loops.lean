import Mathlib

/-! A `while` loop whose iterations depend on results from outside, run on finitely many
of these. -/
namespace Loops

variable {ε σ τ ρ : Type*}

/-- Where the results run out, or where the loop is left before they do. -/
inductive Loop (σ : Type*) where
  | left (s : σ)
  | inside (s : σ)
  deriving DecidableEq, Repr

def run (goes : σ → Bool) (body : σ → ρ → Except ε σ) : σ → List ρ → Except ε (Loop σ)
  | s, [] => .ok (if goes s then .inside s else .left s)
  | s, r :: rs => if goes s then body s r >>= fun t => run goes body t rs else .ok (.left s)

def Loop.map (f : σ → τ) : Loop σ → Loop τ
  | .left s => .left (f s)
  | .inside s => .inside (f s)

/-- The loop is left, be it by an error. -/
def Exits (x : Except ε (Loop σ)) : Prop := ∀ s, x ≠ .ok (.inside s)

variable {goes : σ → Bool} {body : σ → ρ → Except ε σ} {s t : σ} {r : ρ} {rs qs : List ρ} {n : Nat}

theorem exits_error {e : ε} : Exits (.error e : Except ε (Loop σ)) := fun _ => nofun

theorem exits_left : Exits (.ok (.left s) : Except ε (Loop σ)) := fun _ => nofun

theorem exits_bind {x : Except ε σ} {f : σ → Except ε (Loop σ)} (h : ∀ t, x = .ok t → Exits (f t)) :
    Exits (x >>= f) := by
  cases x with
  | error e => exact exits_error
  | ok t => exact h t rfl

theorem not_exits_inside : ¬ Exits (.ok (.inside s) : Except ε (Loop σ)) := fun h => h s rfl

theorem run_done (h : goes s = false) : run goes body s rs = .ok (.left s) := by
  cases rs with
  | nil => simp [run, h]
  | cons r rs => simp [run, h]

theorem run_error {e : ε} (h : goes s = true) (step : body s r = .error e) :
    run goes body s (r :: rs) = .error e := by
  rw [run, if_pos h, step]
  rfl

theorem run_step (h : goes s = true) (step : body s r = .ok t) :
    run goes body s (r :: rs) = run goes body t rs := by
  rw [run, if_pos h, step]
  rfl

end Loops
