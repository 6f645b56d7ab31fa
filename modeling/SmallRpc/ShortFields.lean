import SmallRpc.SimpleParsing

/-! Where the parsers leave the format. With `w` unread and a declared length of
at most `w.length`, both length-prefixed stages go ahead although up to four bytes
of the field are missing. -/
namespace SmallRpc
open Resumable
open FirstMatch (firstMatch)

/-- The window lies inside the storage and holds no `/`. -/
def Buffer.NoSlash (b : Buffer) (start n : Nat) : Prop :=
  start + n ≤ b.data.length ∧ firstMatch [slash] ((b.data.drop start).take n) = none

instance (b : Buffer) (start n : Nat) : Decidable (b.NoSlash start n) :=
  inferInstanceAs (Decidable (_ ∧ _))

theorem Buffer.search_slash {b : Buffer} {start n : Nat} :
    b.search [slash] start n = .ok none ↔ b.NoSlash start n := by
  unfold Buffer.search Buffer.NoSlash
  cases firstMatch [slash] ((b.data.drop start).take n) with
  | some i => simp
  | none => simp

/-- A request whose declared payload of four bytes has not arrived at all. -/
def headOfRequest : Bytes :=
  [0x19, 0x95, 0x10, 0x28] ++ [0, 0, 0, 0] ++ [0, 0, 0, 3] ++ [0x61, 0x2F, 0x62] ++ [0, 0, 0, 4]

namespace SimpleParser
open SmallRpc.Frame

variable {p q : SimpleParser} {s t : Frame} {w x : Bytes} {n last : Nat}

/-- The read index has passed the write index. -/
def Overrun (p : SimpleParser) : Prop := p.buf.windex < p.buf.rindex

theorem Overrun.not_wf (h : Overrun p) : ¬ p.buf.Wf := fun wf => by
  have := wf.order
  unfold Overrun at h
  omega

/-- Past its two tests the payload stage always succeeds. -/
theorem stagePayload_takes (next : Nat) (h4 : 4 ≤ p.buf.readable) (hp : p.buf.peekUint32 = .ok n)
    (hn : n ≤ p.buf.readable) : ∃ q, p.stagePayload next = .ok (.again q) ∧
      q.buf = (p.buf.retrieve 4).retrieve n ∧ q.ctx.stage = next := by
  unfold stagePayload
  rw [if_neg (by omega), hp]
  simp only [bind, Except.bind, pure, Except.pure]
  rw [if_neg (show ¬ (p.look p.buf.rindex 4).buf.readable < n from Nat.not_lt.mpr hn)]
  exact ⟨_, rfl, rfl, rfl⟩

/-- A short payload is taken for a complete one. -/
theorem short_payload {stage : SimpleParser → Except Fault (Flow SimpleParser)}
    (h : Matches p s w) (short : Short last s w) (hs : s.stage + 1 = last)
    (hstage : stage p = p.stagePayload last) :
    ∃ q, runStages stage (last - p.ctx.stage) p = .ok (.success, q) ∧ Overrun q := by
  obtain ⟨_, _, h4, counted, missing⟩ := short
  obtain ⟨q, hq, hbuf, _⟩ := stagePayload_takes last (by rw [h.readable]; exact h4)
    (h.peekUint32 h4) (by rw [h.readable]; exact counted)
  refine ⟨q, ?_, ?_⟩
  · rw [h.stage, show last - s.stage = 0 + 1 by omega, runStages_again (hstage.trans hq)]
    rfl
  · have hlen := h.wf.unread_length
    rw [h.unread] at hlen
    rw [Overrun, hbuf]
    simp only [Buffer.retrieve_windex, Buffer.retrieve_rindex]
    omega

/-- A parser whose read index is at most four bytes too far takes any payload length. -/
theorem overrun_payload (h : Overrun p) (near : p.buf.rindex ≤ p.buf.windex + 4)
    (hstage : p.ctx.stage = 3) : (∃ f, runStages requestStage 1 p = .error f) ∨
      ∃ q, runStages requestStage 1 p = .ok (.success, q) ∧ Overrun q := by
  have wraps := Buffer.readable_wraps h
  have heq : requestStage p = p.stagePayload 4 := by simp only [requestStage, hstage]
  unfold Overrun at h
  cases hp : p.buf.peekUint32 with
  | error f =>
      refine Or.inl ⟨f, runStages_fault ?_⟩
      rw [heq, stagePayload, if_neg (by omega), hp]
      rfl
  | ok n =>
      have hn := Buffer.peekUint32_lt hp
      obtain ⟨q, hq, hbuf, _⟩ := stagePayload_takes 4 (by omega) hp (by omega)
      refine Or.inr ⟨q, ?_, ?_⟩
      · rw [runStages_again (heq.trans hq)]
        rfl
      · rw [Overrun, hbuf]
        simp only [Buffer.retrieve_windex, Buffer.retrieve_rindex]
        omega

/-- A path is taken whether or not its bytes have arrived. -/
theorem takePath_overruns (free : ¬ p.buf.NoSlash p.buf.rindex n) : (∃ f, p.takePath n = .error f) ∨
      ∃ q, p.takePath n = .ok (.again q) ∧ q.buf = p.buf.retrieve n ∧ q.ctx.stage = 3 := by
  unfold takePath
  cases hsearch : p.buf.search [slash] p.buf.rindex n with
  | error f => exact Or.inl ⟨f, rfl⟩
  | ok found =>
      cases found with
      | none => exact absurd (Buffer.search_slash.mp hsearch) free
      | some tmp =>
          simp only [bind, Except.bind, pure, Except.pure, look]
          cases p.buf.copy p.buf.rindex tmp with
          | error f => exact Or.inl ⟨f, rfl⟩
          | ok service =>
              simp only []
              cases p.buf.copy (p.buf.rindex + tmp + 1) (n - 1 - tmp) with
              | error f => exact Or.inl ⟨f, rfl⟩
              | ok method => exact Or.inr ⟨_, rfl, rfl, rfl⟩

theorem short_path_entered (h : Matches p s w) (short : Short 4 s w) (hs : s.stage = 2) :
    requestStage p = ((p.look p.buf.rindex 4).retrieve 4).takePath (word w) := by
  rw [← stagePath_entered h short.2.2.1 short.2.2.2.1]
  simp only [requestStage, h.stage, hs]

/-- A short path is searched to its declared end, behind the bytes received. Without
a slash there the call ends in `Error`. -/
theorem short_path_error (h : Matches p s w) (short : Short 4 s w) (hs : s.stage = 2)
    (free : p.buf.NoSlash (p.buf.rindex + 4) (word w)) :
    ∃ q, runStages requestStage (4 - p.ctx.stage) p = .ok (.error, q) ∧
      ∃ a ∈ q.looked, ¬ a.Inside := by
  have entered := short_path_entered h short hs
  obtain ⟨_, _, h4, counted, missing⟩ := short
  have hlen := h.wf.unread_length
  have horder := h.wf.order
  rw [h.unread] at hlen
  have hsearch : ((p.look p.buf.rindex 4).retrieve 4).buf.search [slash] (p.buf.rindex + 4)
      (word w) = .ok none := Buffer.search_slash.mpr free
  have ended : requestStage p = .ok (.ret .error
      (((p.look p.buf.rindex 4).retrieve 4).look (p.buf.rindex + 4) (word w))) := by
    rw [entered, takePath]
    show Except.bind (Buffer.search _ _ (p.buf.rindex + 4) _) _ = _
    rw [hsearch]
    rfl
  rw [h.stage, hs]
  refine ⟨_, runStages_ret ended, ⟨p.buf.rindex + 4, p.buf.rindex + 4 + word w,
    p.buf.rindex + 4, p.buf.windex⟩, List.mem_append_right _ (List.mem_singleton.mpr rfl), ?_⟩
  intro inside
  have reached := (inside (by show _ < _; simp only; omega)).2
  simp only at reached
  omega

/-- With a slash, or with storage too small for the search, it does not. -/
theorem short_path_overruns (h : Matches p s w) (short : Short 4 s w) (hs : s.stage = 2)
    (free : ¬ p.buf.NoSlash (p.buf.rindex + 4) (word w)) :
    (∃ f, runStages requestStage (4 - p.ctx.stage) p = .error f) ∨
      ∃ q, runStages requestStage (4 - p.ctx.stage) p = .ok (.success, q) ∧ Overrun q := by
  have entered := short_path_entered h short hs
  obtain ⟨_, _, h4, counted, missing⟩ := short
  have hlen := h.wf.unread_length
  have horder := h.wf.order
  rw [h.unread] at hlen
  rw [h.stage, hs]
  rcases takePath_overruns (p := (p.look p.buf.rindex 4).retrieve 4) (n := word w) free
    with ⟨f, hf⟩ | ⟨q, hq, hbuf, hq3⟩
  · exact Or.inl ⟨f, runStages_fault (entered.trans hf)⟩
  · rw [runStages_again (entered.trans hq)]
    have hr : q.buf.rindex = p.buf.rindex + 4 + word w := by
      rw [hbuf]
      rfl
    have hw : q.buf.windex = p.buf.windex := by
      rw [hbuf]
      rfl
    exact overrun_payload (by rw [Overrun, hr, hw]; omega) (by rw [hr, hw]; omega) hq3

end SimpleParser
end SmallRpc
