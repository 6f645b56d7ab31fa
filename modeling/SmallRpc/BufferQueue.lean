import SmallRpc.Buffer
import SmallRpc.Fifo

/-! The buffer as a queue of bytes. Appending doubles the storage at most once, so the
buffer is a queue exactly as long as every piece fits in the doubled storage. -/
namespace SmallRpc
namespace Buffer

/-- The operations of the public interface that move bytes. A C string ends at its first
zero byte. -/
inductive Op
  | appendCString (str : Bytes)
  | appendString (str : Bytes)
  | appendInt32 (num : Int32)
  | appendUint32 (num : UInt32)
  | readFd (bs : Bytes)
  | retrieve (n : Nat)
  deriving DecidableEq

namespace Op

/-- The bytes an `append` hands to `_append`. -/
def piece : Op → Option Bytes
  | appendCString str => some (str.takeWhile (· ≠ 0))
  | appendString str => some str
  | appendInt32 num => some (BigEndian.encode 4 (num.toInt % 2 ^ 32).toNat)
  | appendUint32 num => some (BigEndian.encode 4 ((num.toNat : Int) % 2 ^ 32).toNat)
  | readFd _ => none
  | retrieve _ => none

def apply (b : Buffer) : Op → Except Fault Buffer
  | appendCString str => b.append (str.takeWhile (· ≠ 0))
  | appendString str => b.append str
  | appendInt32 num => b.appendInt32 num.toInt
  | appendUint32 num => b.appendInt32 num.toNat
  | readFd bs => (b.readFd (.data bs)).map Prod.snd
  | retrieve n => .ok (b.retrieve n)

/-- The kernel delivers no more than it is offered, and only readable bytes are retrieved. -/
def Possible (b : Buffer) : Op → Prop
  | readFd bs => bs.length ≤ b.makeRoom.writeable
  | retrieve n => n ≤ b.readable
  | _ => True

instance (b : Buffer) (op : Op) : Decidable (op.Possible b) := by
  cases op <;> unfold Possible <;> infer_instance

/-- What the operation is to a queue. -/
def abstract : Op → Fifo.Op UInt8
  | appendCString str => .enqueue (str.takeWhile (· ≠ 0))
  | appendString str => .enqueue str
  | appendInt32 num => .enqueue (BigEndian.encode 4 (num.toInt % 2 ^ 32).toNat)
  | appendUint32 num => .enqueue (BigEndian.encode 4 ((num.toNat : Int) % 2 ^ 32).toNat)
  | readFd bs => .enqueue bs
  | retrieve n => .dequeue n

end Op

/-- A sequence of operations; it ends at the first write outside the storage. -/
def run (b : Buffer) (ops : List Op) : Except Fault Buffer := ops.foldlM Op.apply b

/-- The bytes that went in, and how many came out. -/
def entered (ops : List Op) : Bytes := Fifo.entered (ops.map Op.abstract)

def left (ops : List Op) : Nat := Fifo.left (ops.map Op.abstract)

/-- After these operations the buffer is there and sound, holds the bytes that entered
and have not left, and an integer in front reads as the one that was appended. -/
def IsQueue (n : Nat) (ops : List Op) : Prop :=
  ∃ b, run (ofSize n) ops = .ok b ∧ b.Wf ∧ b.unread = (entered ops).drop (left ops) ∧
    (∀ before num after, ops = before ++ .appendInt32 num :: after →
      left ops = (entered before).length → b.peekInt32 = .ok num.toInt) ∧
    ∀ before num after, ops = before ++ .appendUint32 num :: after →
      left ops = (entered before).length → b.peekUint32 = .ok num.toNat

variable {b b' : Buffer} {ops before : List Op} {op : Op} {n : Nat}

theorem run_snoc : run b (ops ++ [op]) = run b ops >>= op.apply := by
  simp only [run, List.foldlM_append, List.foldlM_cons, List.foldlM_nil, bind_pure]

theorem entered_snoc : entered (ops ++ [op]) = entered ops ++ op.abstract.entering := by
  simp [entered]

theorem left_snoc : left (ops ++ [op]) = left ops + op.abstract.leaving := by
  simp [left]

theorem Op.piece_some {mem : Bytes} (h : op.piece = some mem) :
    op.apply b = b.append mem ∧ op.abstract = .enqueue mem := by
  cases op <;> cases h <;> exact ⟨rfl, rfl⟩

theorem Op.Possible.legal (wf : b.Wf) (h : op.Possible b) : op.abstract.Legal b.unread := by
  cases op with
  | retrieve n =>
      change n ≤ b.unread.length
      rw [← wf.readable_eq]
      exact h
  | _ => trivial

/-- An operation on a sound buffer, if its piece fits, is the one of the queue. -/
theorem Wf.apply (h : b.Wf) (possible : op.Possible b)
    (fits : ∀ mem, op.piece = some mem → b.Fits mem) :
    ∃ b', op.apply b = .ok b' ∧ b'.Wf ∧ b'.unread = op.abstract.apply b.unread := by
  cases hp : op.piece with
  | some mem =>
      obtain ⟨out, same⟩ := Op.piece_some (b := b) hp
      obtain ⟨b', appended, done⟩ := h.append (fits mem hp)
      exact ⟨b', out.trans appended, done.wf, by rw [done.unread, same]; rfl⟩
  | none =>
      cases op with
      | readFd bs =>
          obtain ⟨wf, same, _, _⟩ := h.makeRoom
          have room : b.makeRoom.windex + bs.length ≤ b.makeRoom.data.length := by
            have free := possible
            simp only [Op.Possible, wf.writeable_eq] at free
            have bound := wf.bound
            omega
          obtain ⟨wf', unread', _⟩ := wf.put room
          exact ⟨_, rfl, wf', by rw [unread', same]; rfl⟩
      | retrieve n =>
          refine ⟨_, rfl, h.retrieve (possible.legal h), ?_⟩
          change (b.data.take b.windex).drop (b.rindex + n) = _
          rw [← List.drop_drop]
          rfl
      | _ => cases hp

/-- The integer in front reads as it was written. -/
theorem Wf.peek_front (h : b.Wf) {num : Int}
    (front : BigEndian.encode 4 (num % 2 ^ 32).toNat <+: b.unread) :
    b.peekUint32 = .ok (num % 2 ^ 32).toNat ∧ b.peekInt32 = .ok (castInt (num % 2 ^ 32).toNat) := by
  have long : 4 ≤ b.unread.length := by simpa using front.length_le
  have word : BigEndian.decode (b.unread.take 4) = (num % 2 ^ 32).toNat := by
    have taken := List.prefix_iff_eq_take.mp front
    rw [BigEndian.encode_length] at taken
    rw [← taken, BigEndian.decode_encode]
    omega
  rw [h.peekUint32_eq long, h.peekInt32_eq long, word]
  exact ⟨rfl, rfl⟩

theorem castInt_int32 (num : Int32) : castInt (num.toInt % 2 ^ 32).toNat = num.toInt := by
  have low := num.le_toInt
  have high := num.toInt_lt
  unfold castInt
  split_ifs <;> omega

/-- Every run whose pieces fit is a run of the queue. -/
theorem run_refines
    (possible : ∀ before op, before ++ [op] <+: ops → ∀ b, run (ofSize n) before = .ok b →
      op.Possible b)
    (fits : ∀ before op, before ++ [op] <+: ops → ∀ b, run (ofSize n) before = .ok b →
      ∀ mem, op.piece = some mem → b.Fits mem) :
    ∃ b, run (ofSize n) ops = .ok b ∧ b.Wf ∧
      b.unread = Fifo.contents [] (ops.map Op.abstract) ∧
      ∀ before op, before ++ [op] <+: ops.map Op.abstract →
        op.Legal (Fifo.contents [] before) := by
  induction ops using List.reverseRecOn with
  | nil => exact ⟨_, rfl, ofSize_wf n, ofSize_unread n, fun before op pre => by simp at pre⟩
  | append_singleton ops op ih =>
      obtain ⟨b, out, wf, unread, legal⟩ := ih
        (fun before op' pre => possible before op' (pre.trans (ops.prefix_append _)))
        (fun before op' pre => fits before op' (pre.trans (ops.prefix_append _)))
      have here := possible ops op (List.prefix_refl _) b out
      obtain ⟨b', out', wf', unread'⟩ := wf.apply here (fits ops op (List.prefix_refl _) b out)
      refine ⟨b', by rw [run_snoc, out]; exact out', wf', ?_, ?_⟩
      · rw [unread', unread, List.map_append, List.map_singleton, Fifo.contents_snoc]
      · intro before op' pre
        rw [List.map_append, List.map_singleton] at pre
        rcases List.prefix_concat_iff.mp pre with whole | earlier
        · obtain ⟨rfl, same⟩ := List.append_inj' whole rfl
          obtain rfl := List.singleton_inj.mp same
          rw [← unread]
          exact here.legal wf
        · exact legal before op' earlier

theorem isQueue_of_fits
    (possible : ∀ before op, before ++ [op] <+: ops → ∀ b, run (ofSize n) before = .ok b →
      op.Possible b)
    (fits : ∀ before op, before ++ [op] <+: ops → ∀ b, run (ofSize n) before = .ok b →
      ∀ mem, op.piece = some mem → b.Fits mem) : IsQueue n ops := by
  obtain ⟨b, out, wf, unread, legal⟩ := run_refines possible fits
  have held : b.unread = (entered ops).drop (left ops) := by
    rw [unread]
    exact (Fifo.contents_eq legal).1
  have front : ∀ {before : List Op} {op : Op} {after : List Op} {num : Int},
      op.abstract = .enqueue (BigEndian.encode 4 (num % 2 ^ 32).toNat) →
      ops = before ++ op :: after → left ops = (entered before).length →
      b.peekUint32 = .ok (num % 2 ^ 32).toNat ∧
        b.peekInt32 = .ok (castInt (num % 2 ^ 32).toNat) := by
    intro before op after num same split gone
    have history : ops.map Op.abstract = before.map Op.abstract ++
        .enqueue (BigEndian.encode 4 (num % 2 ^ 32).toNat) :: after.map Op.abstract := by
      rw [split, List.map_append, List.map_cons, same]
    apply wf.peek_front
    rw [held]
    exact Fifo.entered_front history gone
  refine ⟨b, out, wf, held, fun before num after split gone => ?_,
    fun before num after split gone => ?_⟩
  · rw [(front rfl split gone).2, castInt_int32]
  · have fit : ((num.toNat : Int) % 2 ^ 32).toNat = num.toNat := by
      have := num.toNat_lt
      omega
    rw [(front rfl split gone).1, fit]

/-- No more has left a queue than entered. -/
theorem left_le
    (possible : ∀ before op, before ++ [op] <+: ops → ∀ b, run (ofSize n) before = .ok b →
      op.Possible b)
    (queue : ∀ before, before <+: ops → IsQueue n before) : left ops ≤ (entered ops).length := by
  induction ops using List.reverseRecOn with
  | nil => exact le_rfl
  | append_singleton ops op ih =>
      have some := ih (fun before op' pre => possible before op' (pre.trans (ops.prefix_append _)))
        fun before pre => queue before (pre.trans (ops.prefix_append _))
      obtain ⟨b, out, wf, held, _⟩ := queue ops (ops.prefix_append _)
      have legal := (possible ops op (List.prefix_refl _) b out).legal wf
      rw [held] at legal
      rw [left_snoc, entered_snoc]
      exact (Fifo.Op.apply_remainder some legal).2

/-- Started at any size, the buffer is a queue throughout a run exactly if every piece is
shorter than 2^31 bytes and fits in the storage doubled once. -/
theorem isQueue_iff
    (possible : ∀ before op, before ++ [op] <+: ops → ∀ b, run (ofSize n) before = .ok b →
      op.Possible b) :
    (∀ before, before <+: ops → IsQueue n before) ↔
      ∀ before op, before ++ [op] <+: ops → ∀ b, run (ofSize n) before = .ok b →
        ∀ mem, op.piece = some mem → b.Fits mem := by
  constructor
  · intro queue before op pre b out mem some
    obtain ⟨c, outc, wf, held, _⟩ := queue before ((before.prefix_append _).trans pre)
    obtain rfl := Except.ok.inj (out.symm.trans outc)
    obtain ⟨b', out', _, held', _⟩ := queue (before ++ [op]) pre
    have some' := left_le (fun before' op' pre' => possible before' op'
        (pre'.trans ((before.prefix_append _).trans pre)))
      fun before' pre' => queue before' (pre'.trans ((before.prefix_append _).trans pre))
    obtain ⟨same, enqueue⟩ := Op.piece_some (b := b) some
    rw [run_snoc, out] at out'
    apply wf.fits_of_append (same.symm.trans out')
    rw [held', held, left_snoc, entered_snoc, enqueue]
    exact List.drop_append_of_le_length some'
  · intro fits before pre
    exact isQueue_of_fits (fun before' op pre' => possible before' op (pre'.trans pre))
      fun before' op pre' => fits before' op (pre'.trans pre)

/-- The operations of a run are possible if each is where the ones in front of it lead. -/
theorem possible_of_replay (h : ∀ k (hk : k < ops.length), ∀ b ∈ (run (ofSize n) (ops.take k)).toOption,
    ops[k].Possible b) {before : List Op} (pre : before ++ [op] <+: ops)
    (out : run (ofSize n) before = .ok b) : op.Possible b := by
  obtain ⟨after, rfl⟩ := pre
  have here := h before.length (by simp) b
  simp only [List.append_assoc, List.take_left, out] at here
  simpa using here rfl

/-- A word and three bytes go into a storage of four, which is doubled for the bytes; the word
comes out, a read fills the rest, and a C string doubles the storage again. -/
def mixed : List Op := [.appendUint32 7, .appendString [1, 2, 3], .retrieve 4, .readFd [4],
  .appendCString [5, 6, 0, 7], .retrieve 5]

theorem mixed_isQueue_iff : (∀ before, before <+: mixed → IsQueue 4 before) ↔
    ∀ before op, before ++ [op] <+: mixed → ∀ b, run (ofSize 4) before = .ok b →
      ∀ mem, op.piece = some mem → b.Fits mem :=
  isQueue_iff fun _ _ pre _ out => possible_of_replay (by decide +kernel) pre out

/-- Nine bytes, one more than a storage of four has after the doubling. -/
def longString : List Op := [.appendString (List.replicate 9 97)]

theorem longString_overflows : ¬ ∀ (n : Nat) (ops : List Op),
    (∀ before op, before ++ [op] <+: ops → ∀ b, run (ofSize n) before = .ok b → op.Possible b) →
      ∀ before, before <+: ops → IsQueue n before := by
  intro claim
  obtain ⟨b, out, _⟩ := claim 4 longString
    (fun _ _ pre _ out => possible_of_replay (by decide +kernel) pre out) longString
    (List.prefix_refl _)
  have overflow : run (ofSize 4) longString = .error .outOfStorage := by decide +kernel
  rw [overflow] at out
  cases out

end Buffer
end SmallRpc
