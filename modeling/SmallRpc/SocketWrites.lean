import SmallRpc.Runs
import SmallRpc.Buffer

/-! What a run of `writeFd` calls puts on the wire. The message is the unread part
of the storage followed by the unsent part of the extra segment; every accepted
piece occupies a range of offsets in it. -/
namespace SmallRpc.Buffer
open Runs

variable {b b' b₀ : Buffer} {r r₁ r₂ : WriteResult} {t total : Int} {ps qs sent : List Piece}

/-- What a `::write` of `limit` bytes can report, the errors that reach `abort` aside. -/
def WriteResult.Possible (limit : Nat) : WriteResult → Prop
  | .wrote n => n ≤ limit
  | .again => True
  | .epipe => True
  | .failed => False

def WriteResult.taken : WriteResult → Nat
  | .wrote n => n
  | _ => 0

def WriteResult.isError : WriteResult → Bool
  | .wrote _ => false
  | _ => true

/-- Bytes of the head one call takes. -/
def headTaken (b : Buffer) (r₁ : WriteResult) : Nat := if b.readable = 0 then 0 else r₁.taken

/-- Bytes of the extra segment one call takes; an error on the head ends the call. -/
def extraTaken (b : Buffer) (r₁ r₂ : WriteResult) : Nat :=
  if b.extraable = 0 ∨ (b.readable ≠ 0 ∧ r₁.isError) then 0 else r₂.taken

def message (b : Buffer) : Bytes := b.unread ++ b.unsent

def Piece.offsets (b₀ : Buffer) (p : Piece) : List Nat :=
  List.range' (if p.extra then b₀.unread.length + (p.start - b₀.extraIndex)
    else p.start - b₀.rindex) p.len

def Piece.bytes (b₀ : Buffer) (p : Piece) : Bytes :=
  ((if p.extra then b₀.extraData else b₀.data).drop p.start).take p.len

def wireOffsets (b₀ : Buffer) (ps : List Piece) : List Nat := ps.flatMap (Piece.offsets b₀)
def wireBytes (b₀ : Buffer) (ps : List Piece) : Bytes := ps.flatMap (Piece.bytes b₀)

@[simp] theorem wireOffsets_append : wireOffsets b₀ (ps ++ qs) = wireOffsets b₀ ps ++ wireOffsets b₀ qs := by
  simp [wireOffsets]

@[simp] theorem wireBytes_append : wireBytes b₀ (ps ++ qs) = wireBytes b₀ ps ++ wireBytes b₀ qs := by
  simp [wireBytes]

/-- Two lists of pieces put the same bytes on the wire; empty pieces do not count. -/
def SameWire (ps qs : List Piece) : Prop :=
  ∀ b₀, wireOffsets b₀ ps = wireOffsets b₀ qs ∧ wireBytes b₀ ps = wireBytes b₀ qs

theorem sameWire_empty (extra : Bool) (start : Nat) : SameWire [] [⟨extra, start, 0⟩] := by
  intro b₀
  simp [wireOffsets, wireBytes, Piece.offsets, Piece.bytes]

theorem SameWire.append {ps' qs' : List Piece} (h : SameWire ps ps') (k : SameWire qs qs') :
    SameWire (ps ++ qs) (ps' ++ qs') := by
  intro b₀
  simp only [wireOffsets_append, wireBytes_append, (h b₀).1, (h b₀).2, (k b₀).1, (k b₀).2, and_self]

theorem WriteResult.Possible.taken_le {limit : Nat} (h : r.Possible limit) : r.taken ≤ limit := by
  cases r with
  | wrote n => exact h
  | again => exact Nat.zero_le _
  | epipe => exact Nat.zero_le _
  | failed => exact h.elim

theorem writeExtra_cases (h : b.writeExtra total sent r = .ok (t, b', ps)) :
    b' = { b with extraIndex := b.extraIndex + if b.extraable = 0 then 0 else r.taken } ∧
    ∃ qs, ps = sent ++ qs ∧
      SameWire qs [⟨true, b.extraIndex, if b.extraable = 0 then 0 else r.taken⟩] := by
  unfold writeExtra at h
  split_ifs at h with hx
  · obtain ⟨rfl, rfl, rfl⟩ := h
    simp only [hx, if_true]
    exact ⟨rfl, [], by simp, sameWire_empty _ _⟩
  · simp only [hx, if_false]
    cases r with
    | wrote n =>
        obtain ⟨rfl, rfl, rfl⟩ := h
        exact ⟨rfl, _, rfl, fun _ => ⟨rfl, rfl⟩⟩
    | again =>
        obtain ⟨rfl, rfl, rfl⟩ := h
        exact ⟨rfl, [], by simp, sameWire_empty _ _⟩
    | epipe =>
        obtain ⟨rfl, rfl, rfl⟩ := h
        exact ⟨rfl, [], by simp, sameWire_empty _ _⟩
    | failed => cases h

/-- All that one call does: it moves the two indices by what the socket took, and
the pieces it reports are those two ranges. -/
theorem writeFd_cases (h : b.writeFd r₁ r₂ = .ok (t, b', ps)) :
    b' = { b with rindex := b.rindex + headTaken b r₁
                  extraIndex := b.extraIndex + extraTaken b r₁ r₂ } ∧
    SameWire ps [⟨false, b.rindex, headTaken b r₁⟩, ⟨true, b.extraIndex, extraTaken b r₁ r₂⟩] := by
  unfold writeFd at h
  have nothing : SameWire [] [⟨false, b.rindex, 0⟩, ⟨true, b.extraIndex, 0⟩] :=
    (sameWire_empty false _).append (sameWire_empty true _)
  split_ifs at h with hr
  · obtain ⟨rfl, qs, rfl, same⟩ := writeExtra_cases h
    simp only [headTaken, extraTaken, hr, if_true, ne_eq, not_true_eq_false, false_and, or_false]
    exact ⟨rfl, (sameWire_empty false _).append same⟩
  · cases r₁ with
    | wrote n =>
        obtain ⟨rfl, qs, rfl, same⟩ := writeExtra_cases h
        simp only [headTaken, extraTaken, hr, if_false, WriteResult.isError, Bool.false_eq_true,
          and_false, or_false]
        exact ⟨rfl, SameWire.append (fun _ => ⟨rfl, rfl⟩) same⟩
    | again =>
        obtain ⟨rfl, rfl, rfl⟩ := h
        simp only [headTaken, extraTaken, hr, WriteResult.isError, WriteResult.taken, ne_eq,
          not_false_eq_true, and_self, or_true, if_true, if_false, Nat.add_zero]
        exact ⟨trivial, nothing⟩
    | epipe =>
        obtain ⟨rfl, rfl, rfl⟩ := h
        simp only [headTaken, extraTaken, hr, WriteResult.isError, WriteResult.taken, ne_eq,
          not_false_eq_true, and_self, or_true, if_true, if_false, Nat.add_zero]
        exact ⟨trivial, nothing⟩
    | failed => cases h

/-- A difference shrinks by what is moved past, even where it has wrapped round. -/
theorem sizeSub_add {a c n : Nat} (h : n ≤ sizeSub a c) : sizeSub a (c + n) = sizeSub a c - n := by
  unfold sizeSub at h ⊢
  split_ifs at h ⊢ <;> omega

/-- What one call leaves of the two segments. -/
theorem writeFd_left (h : b.writeFd r₁ r₂ = .ok (t, b', ps)) (h₁ : r₁.taken ≤ b.readable)
    (h₂ : r₂.taken ≤ b.extraable) : b'.readable = b.readable - headTaken b r₁ ∧
      b'.extraable = b.extraable - extraTaken b r₁ r₂ := by
  obtain ⟨rfl, _⟩ := writeFd_cases h
  constructor
  · refine sizeSub_add ?_
    unfold headTaken
    split_ifs
    · exact Nat.zero_le _
    · exact h₁
  · refine sizeSub_add ?_
    unfold extraTaken
    split_ifs
    · exact Nat.zero_le _
    · exact h₂

/-- A buffer on its way to the socket, with the pieces the socket has accepted. -/
structure Sender where
  buf : Buffer
  sent : List Piece
  deriving DecidableEq, Repr

/-- Any number of `writeFd` calls on `b₀`, with any outcome of the two writes. -/
def sending (b₀ : Buffer) : System Sender (WriteResult × WriteResult) where
  start s := s = ⟨b₀, []⟩
  step s r s' := r.1.Possible s.buf.readable ∧ r.2.Possible s.buf.extraable ∧
    ∃ t ps, s.buf.writeFd r.1 r.2 = .ok (t, s'.buf, ps) ∧ s'.sent = s.sent ++ ps

/-- At every moment the accepted bytes are the message up to some point: their
offsets count up from zero and the bytes are a prefix of the message. -/
def InOrder (b₀ : Buffer) (sent : List Piece) : Prop :=
  ∀ ps, ps <+: sent → wireOffsets b₀ ps = List.range (wireOffsets b₀ ps).length ∧
    wireBytes b₀ ps <+: b₀.message

/-- A short write on the head is not followed by payload. -/
def HeadFirst (s : Sender) (r : WriteResult × WriteResult) : Prop :=
  s.buf.readable ≠ 0 → s.buf.extraable ≠ 0 → ∀ n m, r = (.wrote n, .wrote m) →
    n < s.buf.readable → m = 0

def headDone (b₀ : Buffer) (s : Sender) : Nat := s.buf.rindex - b₀.rindex
def extraDone (b₀ : Buffer) (s : Sender) : Nat := s.buf.extraIndex - b₀.extraIndex

/-- Only the two read indices of the buffer move, within their segments, and what
is on the wire is what lies behind them. -/
structure Progress (b₀ : Buffer) (s : Sender) : Prop where
  same : s.buf = { b₀ with rindex := s.buf.rindex, extraIndex := s.buf.extraIndex }
  head_le : b₀.rindex ≤ s.buf.rindex
  head_bound : s.buf.rindex ≤ b₀.windex
  extra_le : b₀.extraIndex ≤ s.buf.extraIndex
  extra_bound : s.buf.extraIndex ≤ b₀.extraData.length
  covered : ∀ k, k ∈ wireOffsets b₀ s.sent ↔ k < headDone b₀ s ∨
    (b₀.unread.length ≤ k ∧ k < b₀.unread.length + extraDone b₀ s)

variable {s s' : Sender} {w : WriteResult × WriteResult} {es : List (Sender × (WriteResult × WriteResult))}

theorem Progress.readable_eq (h : Progress b₀ s) : s.buf.readable = b₀.windex - s.buf.rindex := by
  rw [h.same]
  exact sizeSub_of_le h.head_bound

theorem Progress.extraable_eq (h : Progress b₀ s) :
    s.buf.extraable = b₀.extraData.length - s.buf.extraIndex := by
  rw [h.same]
  exact sizeSub_of_le h.extra_bound

theorem headTaken_le (h : w.1.Possible b.readable) : headTaken b w.1 ≤ b.readable := by
  unfold headTaken
  split_ifs
  · exact Nat.zero_le _
  · exact h.taken_le

theorem extraTaken_le (h : w.2.Possible b.extraable) : extraTaken b w.1 w.2 ≤ b.extraable := by
  unfold extraTaken
  split_ifs
  · exact Nat.zero_le _
  · exact h.taken_le

/-- One call, seen from the sender: both indices advance by what was taken. -/
theorem sending_step (h : (sending b₀).step s w s') :
    s'.buf = { s.buf with rindex := s.buf.rindex + headTaken s.buf w.1
                          extraIndex := s.buf.extraIndex + extraTaken s.buf w.1 w.2 } ∧
    ∃ ps, s'.sent = s.sent ++ ps ∧
      SameWire ps [⟨false, s.buf.rindex, headTaken s.buf w.1⟩,
        ⟨true, s.buf.extraIndex, extraTaken s.buf w.1 w.2⟩] := by
  obtain ⟨_, _, t, ps, call, grown⟩ := h
  obtain ⟨moved, same⟩ := writeFd_cases call
  exact ⟨moved, ps, grown, same⟩

theorem wireOffsets_pair (b₀ : Buffer) (i j n m : Nat) :
    wireOffsets b₀ [⟨false, i, n⟩, ⟨true, j, m⟩] = List.range' (i - b₀.rindex) n ++
      List.range' (b₀.unread.length + (j - b₀.extraIndex)) m := by
  simp [wireOffsets, Piece.offsets]

theorem wireBytes_pair (b₀ : Buffer) (i j n m : Nat) :
    wireBytes b₀ [⟨false, i, n⟩, ⟨true, j, m⟩] =
      (b₀.data.drop i).take n ++ (b₀.extraData.drop j).take m := by
  simp [wireBytes, Piece.bytes]

theorem progress_start (hb : b₀.Wf) (hx : b₀.extraIndex ≤ b₀.extraData.length) :
    Progress b₀ ⟨b₀, []⟩ :=
  ⟨rfl, le_rfl, hb.order, le_rfl, hx, by simp [wireOffsets, headDone, extraDone]⟩

theorem progress_step (h : Progress b₀ s) (step : (sending b₀).step s w s') : Progress b₀ s' := by
  obtain ⟨moved, ps, grown, same⟩ := sending_step step
  have hn := headTaken_le step.1
  have hm := extraTaken_le (w := w) step.2.1
  rw [h.readable_eq] at hn
  rw [h.extraable_eq] at hm
  have hl := h.head_le
  have hb := h.head_bound
  have xl := h.extra_le
  have xb := h.extra_bound
  have hr : s'.buf.rindex = s.buf.rindex + headTaken s.buf w.1 := by rw [moved]
  have he : s'.buf.extraIndex = s.buf.extraIndex + extraTaken s.buf w.1 w.2 := by rw [moved]
  refine ⟨?_, by omega, by omega, by omega, by omega, ?_⟩
  · rw [moved, h.same]
  · intro k
    rw [grown, wireOffsets_append, (same b₀).1, wireOffsets_pair, List.mem_append, h.covered,
      List.mem_append, List.mem_range'_1, List.mem_range'_1]
    simp only [headDone, extraDone, hr, he]
    omega

/-- The run so far sent the message from its first byte on, without a gap. -/
structure Ordered (b₀ : Buffer) (s : Sender) : Prop extends Progress b₀ s where
  offsets : wireOffsets b₀ s.sent = List.range (headDone b₀ s + extraDone b₀ s)
  bytes : wireBytes b₀ s.sent = b₀.message.take (headDone b₀ s + extraDone b₀ s)
  headFirst : headDone b₀ s = b₀.unread.length ∨ extraDone b₀ s = 0

theorem head_bytes (hb : b₀.Wf) {i n : Nat} (hi : b₀.rindex ≤ i) (hn : i + n ≤ b₀.windex) :
    (b₀.data.drop i).take n = (b₀.message.drop (i - b₀.rindex)).take n := by
  have hlen := hb.unread_length
  have hw := hb.window (k := i - b₀.rindex) (n := n) (by omega)
  rw [show b₀.rindex + (i - b₀.rindex) = i by omega] at hw
  rw [hw, message, List.drop_append_of_le_length (by omega), List.take_append_of_le_length
    (by rw [List.length_drop]; omega)]

theorem extra_bytes {j m : Nat} (hj : b₀.extraIndex ≤ j) :
    (b₀.extraData.drop j).take m =
      (b₀.message.drop (b₀.unread.length + (j - b₀.extraIndex))).take m := by
  have past : b₀.unread.drop (b₀.unread.length + (j - b₀.extraIndex)) = [] :=
    List.drop_eq_nil_of_le (Nat.le_add_right _ _)
  rw [message, List.drop_append, past, List.nil_append, unsent, List.drop_drop]
  congr 2
  omega

theorem take_append_take_drop (w : Bytes) (i n : Nat) :
    w.take i ++ (w.drop i).take n = w.take (i + n) := (List.take_add).symm

theorem Ordered.inOrder (h : Ordered b₀ s) : InOrder b₀ s.sent := by
  intro ps hps
  obtain ⟨qs, hqs⟩ := hps
  have offs : wireOffsets b₀ ps <+: List.range (headDone b₀ s + extraDone b₀ s) := by
    rw [← h.offsets, ← hqs, wireOffsets_append]
    exact List.prefix_append _ _
  constructor
  · have hle := offs.length_le
    rw [List.length_range] at hle
    have ht := List.prefix_iff_eq_take.mp offs
    rw [List.take_range, Nat.min_eq_left hle] at ht
    exact ht
  · have hb : wireBytes b₀ ps <+: wireBytes b₀ s.sent := by
      rw [← hqs, wireBytes_append]
      exact List.prefix_append _ _
    rw [h.bytes] at hb
    exact hb.trans (List.take_prefix _ _)

theorem ordered_start (hb : b₀.Wf) (hx : b₀.extraIndex ≤ b₀.extraData.length) :
    Ordered b₀ ⟨b₀, []⟩ :=
  { progress_start hb hx with
    offsets := by simp [wireOffsets, headDone, extraDone]
    bytes := by simp [wireBytes, headDone, extraDone]
    headFirst := .inr (by simp [extraDone]) }

/-- Under the guard, payload is taken only once the head is gone. -/
theorem HeadFirst.taken (guard : HeadFirst s w) (hm : extraTaken s.buf w.1 w.2 ≠ 0) :
    headTaken s.buf w.1 = s.buf.readable ∨ s.buf.readable < headTaken s.buf w.1 := by
  obtain ⟨r₁, r₂⟩ := w
  by_cases hr : s.buf.readable = 0
  · exact .inl (by simp [headTaken, hr])
  · unfold extraTaken at hm
    split_ifs at hm with hx
    · exact absurd rfl hm
    · rw [not_or, not_and] at hx
      cases r₁ with
      | again => exact absurd rfl (hx.2 hr)
      | epipe => exact absurd rfl (hx.2 hr)
      | failed => exact absurd rfl (hx.2 hr)
      | wrote n =>
          cases r₂ with
          | again => exact absurd rfl hm
          | epipe => exact absurd rfl hm
          | failed => exact absurd rfl hm
          | wrote m =>
              have hn : ¬ n < s.buf.readable := fun short => hm (guard hr hx.1 n m rfl short)
              simp only [headTaken, hr, if_false, WriteResult.taken]
              omega

/-- Appending what one call takes to an initial range, when head and payload do
not overlap: `H` is the length of the head, `h` and `x` what was done before. -/
theorem range_extend {H h x n m : Nat} (before : n = 0 ∨ x = 0) (after : m = 0 ∨ h + n = H)
    (first : h = H ∨ x = 0) :
    List.range (h + x) ++ (List.range' h n ++ List.range' (H + x) m) =
      List.range (h + n + (x + m)) := by
  simp only [List.range_eq_range']
  rcases before with rfl | rfl
  · rcases after with rfl | rfl
    · simp
    · simpa [Nat.add_assoc] using @List.range'_append_1 0 (h + x) m
  · rcases after with rfl | rfl
    · simpa using @List.range'_append_1 0 h n
    · have hn := @List.range'_append_1 0 h n
      have hm := @List.range'_append_1 0 (h + n) m
      simp only [Nat.zero_add] at hn hm
      simp only [Nat.add_zero, Nat.zero_add, ← hm, ← hn, List.append_assoc]

theorem take_extend {M : Bytes} {H h x n m : Nat} (before : n = 0 ∨ x = 0)
    (after : m = 0 ∨ h + n = H) (first : h = H ∨ x = 0) :
    M.take (h + x) ++ ((M.drop h).take n ++ (M.drop (H + x)).take m) =
      M.take (h + n + (x + m)) := by
  rcases before with rfl | rfl
  · rcases after with rfl | rfl
    · simp
    · simpa [Nat.add_assoc] using take_append_take_drop M (h + x) m
  · rcases after with rfl | rfl
    · simpa using take_append_take_drop M h n
    · simp only [Nat.add_zero, Nat.zero_add, ← take_append_take_drop M (h + n) m,
        ← take_append_take_drop M h n, List.append_assoc]

theorem ordered_step (hb : b₀.Wf) (h : Ordered b₀ s) (guard : HeadFirst s w)
    (step : (sending b₀).step s w s') : Ordered b₀ s' := by
  have progress := progress_step h.toProgress step
  obtain ⟨moved, ps, grown, same⟩ := sending_step step
  have hn := headTaken_le step.1
  have hlen := hb.unread_length
  have hl := h.head_le
  have hh := h.head_bound
  have xl := h.extra_le
  have taken := guard.taken
  rw [h.readable_eq] at hn taken
  have hi : headDone b₀ s' = headDone b₀ s + headTaken s.buf w.1 := by
    simp only [headDone, moved]
    omega
  have hj : extraDone b₀ s' = extraDone b₀ s + extraTaken s.buf w.1 w.2 := by
    simp only [extraDone, moved]
    omega
  have here : s.buf.rindex - b₀.rindex = headDone b₀ s := rfl
  have first := h.headFirst
  have before : headTaken s.buf w.1 = 0 ∨ extraDone b₀ s = 0 := by omega
  have after : extraTaken s.buf w.1 w.2 = 0 ∨
      headDone b₀ s + headTaken s.buf w.1 = b₀.unread.length := by
    by_cases hm : extraTaken s.buf w.1 w.2 = 0
    · exact .inl hm
    · right
      have all := taken hm
      omega
  refine { progress with offsets := ?_, bytes := ?_, headFirst := by omega }
  · rw [grown, wireOffsets_append, (same b₀).1, wireOffsets_pair, h.offsets, hi, hj]
    exact range_extend before after first
  · rw [grown, wireBytes_append, (same b₀).2, wireBytes_pair, h.bytes, hi, hj,
      head_bytes hb hl (by omega), extra_bytes xl]
    exact take_extend before after first

/-- The step that sends payload over the rest of the head puts it out of order. -/
theorem out_of_order (hb : b₀.Wf) (h : Ordered b₀ s) (guard : ¬ HeadFirst s w)
    (step : (sending b₀).step s w s') : ¬ InOrder b₀ s'.sent := by
  obtain ⟨moved, ps, grown, same⟩ := sending_step step
  have hlen := hb.unread_length
  have hl := h.head_le
  have here : s.buf.rindex - b₀.rindex = headDone b₀ s := rfl
  obtain ⟨r₁, r₂⟩ := w
  simp only [HeadFirst, not_forall, Prod.mk.injEq] at guard
  obtain ⟨hr, hx, n, m, ⟨rfl, rfl⟩, short, hm⟩ := guard
  have hn : headTaken s.buf (.wrote n) = n := by simp [headTaken, hr, WriteResult.taken]
  have hm' : extraTaken s.buf (.wrote n) (.wrote m) = m := by
    simp [extraTaken, hx, WriteResult.isError, WriteResult.taken]
  rw [h.readable_eq] at short
  have first := h.headFirst
  have none : extraDone b₀ s = 0 := by omega
  intro inOrder
  obtain ⟨offs, _⟩ := inOrder _ List.prefix_rfl
  rw [grown, wireOffsets_append, (same b₀).1, wireOffsets_pair, h.offsets, hn, hm', here] at offs
  have gap : headDone b₀ s + n ∈ List.range (List.range (headDone b₀ s + extraDone b₀ s) ++
      (List.range' (headDone b₀ s) n ++
        List.range' (b₀.unread.length + (s.buf.extraIndex - b₀.extraIndex)) m)).length := by
    rw [List.mem_range]
    simp only [List.length_append, List.length_range, List.length_range']
    omega
  rw [← offs, List.mem_append, List.mem_append, List.mem_range, List.mem_range'_1,
    List.mem_range'_1] at gap
  omega

/-- The accepted bytes are the message in order exactly when no `writeFd` of the
run follows a short write of the head with payload. -/
theorem inOrder_iff_headFirst (hb : b₀.Wf) (hx : b₀.extraIndex ≤ b₀.extraData.length)
    (run : Run (sending b₀) es s) : InOrder b₀ s.sent ↔ Guarded HeadFirst es := by
  have ordered : ∀ {es s}, Run (sending b₀) es s → Guarded HeadFirst es → Ordered b₀ s :=
    fun run guarded => run.invariant guarded (by rintro _ rfl; exact ordered_start hb hx)
      (fun h guard step => ordered_step hb h guard step)
  constructor
  · obtain ⟨s₀, rfl, path⟩ := run
    induction path with
    | nil => exact fun _ => guarded_nil
    | @snoc es t w u path step ih =>
        intro inOrder
        obtain ⟨_, ps, grown, _⟩ := sending_step step
        have earlier : Guarded HeadFirst es := by
          refine ih fun qs hqs => inOrder qs (hqs.trans ?_)
          rw [grown]
          exact List.prefix_append _ _
        refine guarded_snoc.mpr ⟨earlier, ?_⟩
        by_contra guard
        exact out_of_order hb (ordered ⟨_, rfl, path⟩ earlier) guard step inOrder
  · exact fun guarded => (ordered run guarded).inOrder

/-- A packed response: sixteen head bytes in the storage, five payload bytes behind. -/
def packedResponse : Buffer :=
  ⟨0, 16, [25, 149, 16, 40, 0, 0, 0, 1, 0, 0, 0, 0, 0, 0, 0, 5], 0, [104, 101, 108, 108, 111]⟩

theorem packedResponse_wf : packedResponse.Wf := ⟨by decide, by decide⟩

/-- The socket takes the response in two calls, the second after an `EAGAIN`. -/
def quietRun : List (Sender × (WriteResult × WriteResult)) :=
  [(⟨packedResponse, []⟩, (.wrote 16, .again)),
    (⟨{ packedResponse with rindex := 16 }, [⟨false, 0, 16⟩]⟩, (.again, .wrote 5))]

theorem quietRun_inOrder_iff :
    Run (sending packedResponse) quietRun
        ⟨{ packedResponse with rindex := 16, extraIndex := 5 }, [⟨false, 0, 16⟩, ⟨true, 0, 5⟩]⟩ ∧
      (InOrder packedResponse [⟨false, 0, 16⟩, ⟨true, 0, 5⟩] ↔ Guarded HeadFirst quietRun) := by
  have run : Run (sending packedResponse) quietRun
      ⟨{ packedResponse with rindex := 16, extraIndex := 5 }, [⟨false, 0, 16⟩, ⟨true, 0, 5⟩]⟩ := by
    refine ⟨_, rfl, .snoc (.snoc .nil ?_) ?_⟩
    · exact ⟨le_rfl, trivial, _, _, rfl, rfl⟩
    · exact ⟨trivial, le_rfl, _, _, rfl, rfl⟩
  exact ⟨run, inOrder_iff_headFirst packedResponse_wf (by decide) run⟩

/-- Ten of the sixteen head bytes are taken, then all five payload bytes. -/
theorem payload_overtakes_head :
    ¬ ∀ b₀ es s, b₀.Wf → b₀.extraIndex ≤ b₀.extraData.length → Run (sending b₀) es s →
      InOrder b₀ s.sent := by
  intro claim
  have run : Run (sending packedResponse) [(⟨packedResponse, []⟩, (.wrote 10, .wrote 5))]
      ⟨{ packedResponse with rindex := 10, extraIndex := 5 }, [⟨false, 0, 10⟩, ⟨true, 0, 5⟩]⟩ :=
    ⟨_, rfl, .snoc .nil ⟨show 10 ≤ 16 by decide, le_rfl, _, _, rfl, rfl⟩⟩
  have offs := (claim _ _ _ packedResponse_wf (by decide) run _ List.prefix_rfl).1
  exact absurd offs (by decide)

end SmallRpc.Buffer
