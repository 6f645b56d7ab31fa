import SmallRpc.Context
import SmallRpc.SocketWrites

/-! The extra segment over any sequence of the three operations that touch it. One
replaces the data, one moves the index, one resets the index. -/
namespace SmallRpc.Buffer
open Runs

inductive ExtraOp where
  | appendExtra (s : Bytes)
  | writeFd (r₁ r₂ : WriteResult)
  | clear
  deriving DecidableEq, Repr

namespace ExtraOp

def apply (b : Buffer) : ExtraOp → Except Fault Buffer
  | .appendExtra s => .ok (b.appendExtra s)
  | .writeFd r₁ r₂ => do
    let (_, b, _) ← b.writeFd r₁ r₂
    return b
  | .clear => .ok b.clear

def Possible (b : Buffer) : ExtraOp → Prop
  | .writeFd r₁ r₂ => r₁.Possible b.readable ∧ r₂.Possible b.extraable
  | _ => True

/-- The law of the operation: what is unsent after it, with the index inside the data, and
after `clear` nothing to be written at all. -/
def Lawful (b b' : Buffer) : ExtraOp → Prop
  | .appendExtra s => b'.unsent = s ∧ b'.extraIndex ≤ b'.extraData.length
  | .writeFd r₁ r₂ => b'.unsent = b.unsent.drop (b.extraTaken r₁ r₂) ∧
      b'.extraIndex ≤ b'.extraData.length
  | .clear => b'.readable = 0 ∧ b'.extraable = 0

/-- New data comes when nothing of the old has been written, and `clear` when there is none. -/
def Ready (b : Buffer) : ExtraOp → Prop
  | .appendExtra _ => b.extraIndex = 0
  | .writeFd _ _ => True
  | .clear => b.extraData = []

instance (b : Buffer) : ∀ op, Decidable (Ready b op)
  | .appendExtra _ => inferInstanceAs (Decidable (b.extraIndex = 0))
  | .writeFd _ _ => inferInstanceAs (Decidable True)
  | .clear => inferInstanceAs (Decidable (b.extraData = []))

end ExtraOp

/-- Any sequence of the operations, on a buffer with its extra index inside the data. -/
def extraSegment : System Buffer ExtraOp where
  start b := b.extraIndex ≤ b.extraData.length
  step b op b' := op.Possible b ∧ op.apply b = .ok b'

/-- The step ends as the law says. -/
def LawfulStep (b : Buffer) (op : ExtraOp) : Prop := ∀ b', op.apply b = .ok b' → op.Lawful b b'

variable {b b' : Buffer} {op : ExtraOp} {es : List (Buffer × ExtraOp)} {r₁ r₂ : WriteResult}

theorem appendExtra_lawful_iff {s : Bytes} :
    (b.appendExtra s).unsent = s ∧ b.extraIndex ≤ s.length ↔ b.extraIndex = 0 := by
  change s.drop b.extraIndex = s ∧ b.extraIndex ≤ s.length ↔ b.extraIndex = 0
  constructor
  · rintro ⟨same, inside⟩
    have short := congrArg List.length same
    rw [List.length_drop] at short
    omega
  · intro zero
    rw [zero]
    exact ⟨rfl, Nat.zero_le _⟩

/-- A write takes a prefix of what is unsent, and no more than there is. -/
theorem writeFd_lawful (inside : b.extraIndex ≤ b.extraData.length)
    (possible : r₂.Possible b.extraable) (h : ExtraOp.apply b (.writeFd r₁ r₂) = .ok b') :
    ExtraOp.Lawful b b' (.writeFd r₁ r₂) := by
  obtain ⟨⟨t, b'', ps⟩, call, done⟩ := bind_ok.mp h
  obtain rfl := Except.ok.inj done
  obtain ⟨moved, _⟩ := writeFd_cases call
  have most : b.extraTaken r₁ r₂ ≤ b.extraable := by
    unfold extraTaken
    split_ifs
    · exact Nat.zero_le _
    · exact possible.taken_le
  rw [extraable, sizeSub_of_le inside] at most
  subst moved
  constructor
  · change b.extraData.drop (b.extraIndex + b.extraTaken r₁ r₂) = _
    rw [unsent, List.drop_drop]
  · change b.extraIndex + b.extraTaken r₁ r₂ ≤ b.extraData.length
    omega

theorem clear_lawful_iff : b.clear.readable = 0 ∧ b.clear.extraable = 0 ↔ b.extraData = [] := by
  change sizeSub 0 0 = 0 ∧ sizeSub b.extraData.length 0 = 0 ↔ _
  rw [sizeSub_of_le (Nat.zero_le _), sizeSub_of_le (Nat.zero_le _), Nat.sub_zero,
    and_iff_right rfl]
  exact List.length_eq_zero_iff

theorem lawfulStep_iff (inside : b.extraIndex ≤ b.extraData.length)
    (step : extraSegment.step b op b') : LawfulStep b op ↔ op.Ready b := by
  obtain ⟨possible, call⟩ := step
  have only : LawfulStep b op ↔ op.Lawful b b' := by
    constructor
    · exact fun lawful => lawful b' call
    · intro lawful b'' call'
      rw [call] at call'
      exact Except.ok.inj call' ▸ lawful
  rw [only]
  cases op with
  | appendExtra s =>
      obtain rfl := Except.ok.inj call
      exact appendExtra_lawful_iff
  | writeFd r₁ r₂ => exact iff_of_true (writeFd_lawful inside possible.2 call) trivial
  | clear =>
      obtain rfl := Except.ok.inj call
      exact clear_lawful_iff

theorem extraIndex_step (inside : b.extraIndex ≤ b.extraData.length) (ready : op.Ready b)
    (step : extraSegment.step b op b') : b'.extraIndex ≤ b'.extraData.length := by
  have lawful := (lawfulStep_iff inside step).mpr ready b' step.2
  cases op with
  | appendExtra s => exact lawful.2
  | writeFd r₁ r₂ => exact lawful.2
  | clear =>
      obtain rfl := Except.ok.inj step.2
      exact Nat.zero_le _

/-- The extra segment behaves like a segment of its own exactly in those runs in which it
is never replaced after a write without a `clear`, and never cleared while it has data. -/
theorem extra_lawful_iff (run : Run extraSegment es b) :
    Guarded LawfulStep es ↔ Guarded ExtraOp.Ready es :=
  run.guarded_iff (I := fun b => b.extraIndex ≤ b.extraData.length) id extraIndex_step lawfulStep_iff

/-- A payload is set and its first two bytes are written. -/
theorem written_run (n : Nat) : Run extraSegment [(ofSize n, .appendExtra [1, 2, 3]),
      ((ofSize n).appendExtra [1, 2, 3], .writeFd .again (.wrote 2))]
    { (ofSize n).appendExtra [1, 2, 3] with extraIndex := 2 } := by
  refine ⟨_, Nat.zero_le _, .snoc (.snoc .nil ?_) ?_⟩
  · exact ⟨trivial, rfl⟩
  · exact ⟨⟨trivial, Nat.le_succ 2⟩, rfl⟩

/-- The third byte is written as well, and the buffer is cleared for the next payload. -/
def written (n : Nat) : Buffer := { (ofSize n).appendExtra [1, 2, 3] with extraIndex := 3 }

def exchange (n : Nat) : List (Buffer × ExtraOp) :=
  [(ofSize n, .appendExtra [1, 2, 3]),
    ((ofSize n).appendExtra [1, 2, 3], .writeFd .again (.wrote 2)),
    ({ (ofSize n).appendExtra [1, 2, 3] with extraIndex := 2 }, .writeFd .again (.wrote 1)),
    (written n, .clear), ((written n).clear, .appendExtra [4, 5])]

theorem appended_step (b : Buffer) (extra : Bytes) :
    extraSegment.step b (.appendExtra extra) (b.appendExtra extra) := ⟨trivial, rfl⟩

theorem exchange_run (n : Nat) : Run extraSegment (exchange n) ((written n).clear.appendExtra [4, 5]) := by
  have sent : extraSegment.step { (ofSize n).appendExtra [1, 2, 3] with extraIndex := 2 }
      (.writeFd .again (.wrote 1)) (written n) := ⟨⟨trivial, Nat.le_refl 1⟩, rfl⟩
  have cleared : extraSegment.step (written n) .clear (written n).clear := ⟨trivial, rfl⟩
  exact (((written_run n).snoc sent).snoc cleared).snoc (appended_step _ _)

theorem exchange_lawful_iff :
    Guarded LawfulStep (exchange 8) ↔ Guarded ExtraOp.Ready (exchange 8) :=
  extra_lawful_iff (exchange_run 8)

/-- The next message comes with a byte still to be written, and loses its first two. -/
theorem replaced_extra_cut :
    ¬ ∀ es b, Run extraSegment es b → Guarded LawfulStep es := by
  intro claim
  have run := (written_run 8).snoc (appended_step _ [4, 5, 6])
  have ready := (extra_lawful_iff run).mp (claim _ _ run)
  exact absurd (guarded_snoc.mp ready).2 (by decide)

end SmallRpc.Buffer
