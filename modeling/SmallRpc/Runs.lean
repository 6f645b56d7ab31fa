import Mathlib

/-! Runs of a labelled transition system, kept with the state every step was
taken from. One rule turns a step lemma into a fact about all runs; it lets the
steps of the run be restricted by a guard on the state before the step. -/
namespace Runs

variable {σ ι : Type*}

structure System (σ ι : Type*) where
  start : σ → Prop
  step : σ → ι → σ → Prop

/-- `Path S s es t`: the steps `es` lead from `s` to `t`, the latest step last. -/
inductive Path (S : System σ ι) (s : σ) : List (σ × ι) → σ → Prop
  | nil : Path S s [] s
  | snoc {es t i u} : Path S s es t → S.step t i u → Path S s (es ++ [(t, i)]) u

/-- A run begins in a start state. -/
def Run (S : System σ ι) (es : List (σ × ι)) (t : σ) : Prop := ∃ s, S.start s ∧ Path S s es t

/-- Every step of the run is taken where the guard allows it. -/
def Guarded (G : σ → ι → Prop) (es : List (σ × ι)) : Prop := ∀ e ∈ es, G e.1 e.2

variable {S : System σ ι} {s t u : σ} {es fs : List (σ × ι)} {G : σ → ι → Prop}

instance [∀ s i, Decidable (G s i)] : Decidable (Guarded G es) :=
  inferInstanceAs (Decidable (∀ e ∈ es, G e.1 e.2))

@[simp] theorem guarded_nil : Guarded G ([] : List (σ × ι)) := by simp [Guarded]

@[simp] theorem guarded_snoc {i : ι} : Guarded G (es ++ [(t, i)]) ↔ Guarded G es ∧ G t i := by
  simp [Guarded, or_imp, forall_and]

theorem Guarded.mono {H : σ → ι → Prop} (h : Guarded G es) (hGH : ∀ s i, G s i → H s i) :
    Guarded H es := fun e he => hGH _ _ (h e he)

theorem Guarded.and {H : σ → ι → Prop} (h : Guarded G es) (k : Guarded H es) :
    Guarded (fun s i => G s i ∧ H s i) es := fun e he => ⟨h e he, k e he⟩

theorem guarded_true : Guarded (fun _ _ => True) es := fun _ _ => trivial

theorem Path.trans (h : Path S s es t) (k : Path S t fs u) : Path S s (es ++ fs) u := by
  induction k with
  | nil => simpa using h
  | snoc _ hstep ih => simpa only [← List.append_assoc] using Path.snoc ih hstep

/-- Every step of a run was allowed. -/
theorem Path.guarded (path : Path S s es t) {H : σ → ι → Prop}
    (steps : ∀ {a i b}, S.step a i b → H a i) : Guarded H es := by
  induction path with
  | nil => exact guarded_nil
  | snoc _ step ih => exact guarded_snoc.mpr ⟨ih, steps step⟩

theorem Run.guarded (run : Run S es t) {H : σ → ι → Prop}
    (steps : ∀ {a i b}, S.step a i b → H a i) : Guarded H es := by
  obtain ⟨s, _, path⟩ := run
  exact path.guarded steps

theorem Run.snoc {i : ι} (h : Run S es t) (hstep : S.step t i u) : Run S (es ++ [(t, i)]) u := by
  obtain ⟨s, hs, path⟩ := h
  exact ⟨s, hs, path.snoc hstep⟩

/-- The invariant rule: a step lemma under a guard gives every guarded run. -/
theorem Path.invariant {I : σ → Prop} (path : Path S s es t) (guarded : Guarded G es)
    (hs : I s) (hstep : ∀ {a i b}, I a → G a i → S.step a i b → I b) : I t := by
  induction path with
  | nil => exact hs
  | snoc _ step ih =>
      obtain ⟨before, here⟩ := guarded_snoc.mp guarded
      exact hstep (ih before) here step

theorem Run.invariant {I : σ → Prop} (run : Run S es t) (guarded : Guarded G es)
    (hstart : ∀ {a}, S.start a → I a)
    (hstep : ∀ {a i b}, I a → G a i → S.step a i b → I b) : I t := by
  obtain ⟨s, hs, path⟩ := run
  exact path.invariant guarded (hstart hs) hstep

/-- The invariant also holds of the state every step of the run was taken from. -/
theorem Path.invariant_at {I : σ → Prop} (path : Path S s es t) (guarded : Guarded G es)
    (hs : I s) (hstep : ∀ {a i b}, I a → G a i → S.step a i b → I b) :
    ∀ e ∈ es, I e.1 := by
  induction path with
  | nil => simp
  | snoc before step ih =>
      obtain ⟨old, _⟩ := guarded_snoc.mp guarded
      intro e he
      rcases List.mem_append.mp he with earlier | last
      · exact ih old e earlier
      · rw [List.mem_singleton.mp last]
        exact before.invariant old hs hstep

theorem Run.invariant_at {I : σ → Prop} (run : Run S es t) (guarded : Guarded G es)
    (hstart : ∀ {a}, S.start a → I a)
    (hstep : ∀ {a i b}, I a → G a i → S.step a i b → I b) : ∀ e ∈ es, I e.1 := by
  obtain ⟨s, hs, path⟩ := run
  exact path.invariant_at guarded (hstart hs) hstep

/-- A property of steps holds along a guarded run once the invariant gives it. -/
theorem Run.forall_steps {I : σ → Prop} {P : σ → ι → Prop} (run : Run S es t)
    (guarded : Guarded G es) (hstart : ∀ {a}, S.start a → I a)
    (hstep : ∀ {a i b}, I a → G a i → S.step a i b → I b)
    (hP : ∀ {a i}, I a → G a i → P a i) : Guarded P es :=
  fun e he => hP (run.invariant_at guarded hstart hstep e he) (guarded e he)

/-- A property of steps that under an invariant comes to a guard, which in turn keeps the
invariant, holds along a run exactly if the guard does. -/
theorem Run.guarded_iff {I : σ → Prop} {P : σ → ι → Prop} (run : Run S es t)
    (hstart : ∀ {a}, S.start a → I a) (hstep : ∀ {a i b}, I a → G a i → S.step a i b → I b)
    (here : ∀ {a i b}, I a → S.step a i b → (P a i ↔ G a i)) : Guarded P es ↔ Guarded G es := by
  obtain ⟨s, start, path⟩ := run
  induction path with
  | nil => exact iff_of_true guarded_nil guarded_nil
  | snoc path step ih =>
      rw [guarded_snoc, guarded_snoc, ih]
      exact and_congr_right fun guard => here (path.invariant guard (hstart start) hstep) step

/-- Steps that the guard allows lead from one state to the other. -/
def Leads (S : System σ ι) (G : σ → ι → Prop) (s t : σ) : Prop := ∃ es, Path S s es t ∧ Guarded G es

theorem Leads.step {i : ι} (step : S.step s i t) (guard : G s i) : Leads S G s t :=
  ⟨_, Path.nil.snoc step, guarded_snoc.mpr ⟨guarded_nil, guard⟩⟩

theorem Leads.trans (h : Leads S G s t) (k : Leads S G t u) : Leads S G s u := by
  obtain ⟨es, path, before⟩ := h
  obtain ⟨fs, path', after⟩ := k
  exact ⟨es ++ fs, path.trans path', List.forall_mem_append.mpr ⟨before, after⟩⟩

/-- The rule of a measure: where every state has a step that reaches the goal or lowers the
rank, the goal is reached. -/
theorem Leads.of_rank {α : Type*} [Preorder α] [WellFoundedLT α] {I Q : σ → Prop} (rank : σ → α)
    (goes : ∀ {a}, I a → ∃ i b, S.step a i b ∧ G a i ∧ (Q b ∨ I b ∧ rank b < rank a)) (hs : I s) :
    ∃ t, Leads S G s t ∧ Q t := by
  generalize hr : rank s = r
  induction r using WellFoundedLT.induction generalizing s with
  | ind r ih =>
      obtain ⟨i, t, step, guard, done | ⟨ht, lower⟩⟩ := goes hs
      · exact ⟨t, .step step guard, done⟩
      · obtain ⟨u, later, done⟩ := ih (rank t) (hr ▸ lower) ht rfl
        exact ⟨u, (Leads.step step guard).trans later, done⟩

section Replay
variable (next : σ → ι → σ)

/-- Where a list of inputs leads, and what each of them meets on the way, in a system in
which the input determines the step. -/
def replay (s : σ) (is : List ι) : σ := is.foldl next s

def visits (s : σ) : List ι → List (σ × ι)
  | [] => []
  | i :: is => (s, i) :: visits (next s i) is

variable {next}

/-- The last input meets the state the others lead to. -/
theorem visits_last {is : List ι} {i : ι} : (replay next s is, i) ∈ visits next s (is ++ [i]) := by
  induction is generalizing s with
  | nil => exact List.mem_cons_self
  | cons j is ih => exact List.mem_cons_of_mem _ ih

theorem path_replay {E : σ → ι → Prop} (steps : ∀ {s i}, E s i → S.step s i (next s i))
    {is : List ι} (h : ∀ e ∈ visits next s is, E e.1 e.2) :
    Path S s (visits next s is) (replay next s is) := by
  induction is generalizing s with
  | nil => exact .nil
  | cons i is ih =>
      obtain ⟨here, later⟩ := List.forall_mem_cons.mp h
      exact (Path.nil.snoc (steps here)).trans (ih later)

end Replay

end Runs
