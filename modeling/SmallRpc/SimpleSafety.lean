import SmallRpc.Reader
import SmallRpc.ShortFields

/-! The cursor of the receive buffer under input a peer may choose. -/
namespace SmallRpc
open Resumable

namespace SimpleParser
open SmallRpc.Frame

def requests : Reader SimpleParser := ⟨recv, parseRequest⟩
def responses : Reader SimpleParser := ⟨recv, parseResponse⟩

/-- The payload view lies on received bytes. -/
def ViewInside (p : SimpleParser) : Prop := p.ctx.payloadView.Inside p.buf

instance (p : SimpleParser) : Decidable p.ViewInside := inferInstanceAs (Decidable (_ ∧ _))

/-- The call returned, kept the indices in order, looked at unread bytes only, and on
`Success` left the payload view on received bytes. -/
def Safe (c : Reader.Call SimpleParser) : Prop :=
  match c.result with
  | .ok (status, q) => q.buf.Wf ∧ (∀ a ∈ q.looked, a.Inside) ∧ (status = .success → ViewInside q)
  | .error _ => False

instance : DecidablePred Safe := fun c => by
  unfold Safe
  split <;> infer_instance

def frame (p : SimpleParser) : Frame :=
  { stage := p.ctx.stage, connType := p.ctx.connType, rpcStatus := p.ctx.rpcStatus,
    service := p.ctx.service, method := p.ctx.method }

/-- The complete fields of the unread bytes are followed by a short one. -/
def ShortField (M : Machine UInt8 Frame ParseProtocolStatus) (last : Nat) (p : SimpleParser) :
    Prop := ∃ t x, Drains M p.frame p.buf.unread none t x ∧ Short last t x

variable {p q : SimpleParser} {s t : Frame} {w x : Bytes} {last : Nat}
  {stage : SimpleParser → Except Fault (Flow SimpleParser)}
  {M : Machine UInt8 Frame ParseProtocolStatus}

theorem frame_matches (wf : p.buf.Wf) : Matches p p.frame p.buf.unread :=
  ⟨wf, rfl, rfl, rfl, rfl, rfl, rfl, nofun⟩

theorem Matches.viewInside (h : Matches p s w) {bytes : Bytes} (hb : s.payload = some bytes) :
    ViewInside p := by
  obtain ⟨start, hv, hle, _⟩ := h.payload bytes hb
  have ho := h.wf.order
  rw [ViewInside, hv]
  exact ⟨Nat.le_add_right _ _, hle.trans ho⟩

/-- What every safe call leaves behind. -/
structure Sound (last : Nat) (p : SimpleParser) : Prop where
  wf : p.buf.Wf
  storage : 0 < p.buf.data.length
  inside : ∀ a ∈ p.looked, a.Inside
  view : last ≤ p.ctx.stage → ViewInside p

theorem Sound.recv (h : Sound last p) (chunk : Bytes) : Sound last (p.recv chunk) := by
  have got := h.wf.recv h.storage chunk
  refine ⟨got.wf, h.storage.trans_le got.storage, h.inside, fun hlast => ?_⟩
  exact ⟨(h.view hlast).1, (h.view hlast).2.trans got.windex⟩

theorem Sound.advanced (h : Sound last p) {n : Nat} (adv : Advanced p q n)
    (hn : n ≤ p.buf.unread.length) (view : last ≤ q.ctx.stage → ViewInside q) : Sound last q := by
  obtain ⟨new, hnew, inside⟩ := adv.looked
  refine ⟨by rw [adv.buf]; exact h.wf.retrieve hn, by rw [adv.buf]; exact h.storage, ?_, view⟩
  intro a ha
  rw [hnew] at ha
  exact (List.mem_append.mp ha).elim (h.inside a) (inside a)

/-- Away from short fields a call is safe, and leaves a sound parser. -/
theorem Sound.call (imp : Implements stage M last) (h : Sound last p)
    (hshort : ¬ ShortField M last p) : ∃ status q,
      runStages stage (last - p.ctx.stage) p = .ok (status, q) ∧ Sound last q ∧
        (status = .success → ViewInside q) := by
  by_cases hlast : last ≤ p.ctx.stage
  · rw [show last - p.ctx.stage = 0 by omega]
    exact ⟨_, p, rfl, h, fun _ => h.view hlast⟩
  obtain ⟨r, t, x, drains⟩ := Drains.total M p.frame p.buf.unread
  have shown : last ≤ t.stage → ∃ bytes, t.payload = some bytes :=
    drains.invariant (P := fun s => last ≤ s.stage → ∃ bytes, s.payload = some bytes)
      (fun hle => absurd hle hlast) (fun hv _ => imp.payload hv)
  have hmatch := frame_matches h.wf
  cases r with
  | none =>
      obtain ⟨q, hrun, here, adv⟩ := stages_wait imp hmatch drains fun hs => hshort ⟨t, x, drains, hs⟩
      refine ⟨_, q, hrun, h.advanced adv (Nat.sub_le _ _) fun hle => ?_, nofun⟩
      obtain ⟨bytes, hb⟩ := shown (by rw [← here.stage]; exact hle)
      exact here.viewInside hb
  | some o =>
      obtain ⟨q, n, hrun, adv, hn, hstage, final⟩ := stages_stop imp hmatch drains
      have onSuccess : o = .success → ViewInside q := by
        rintro rfl
        obtain ⟨bytes, hb⟩ := shown (imp.success drains.stopped)
        exact (final rfl).viewInside hb
      refine ⟨o, q, hrun, h.advanced adv hn fun hle => onSuccess ?_, onSuccess⟩
      have hv := drains.stopped
      rw [imp.finished (by rw [← hstage]; exact hle)] at hv
      cases hv
      rfl

/-- At a short field a call is not safe. -/
def Trips (stage : SimpleParser → Except Fault (Flow SimpleParser)) (last : Nat) : Prop :=
  ∀ {p s w}, Matches p s w → Short last s w →
    ¬ Safe ⟨p, runStages stage (last - p.ctx.stage) p⟩

theorem not_safe_of_overrun {status : ParseProtocolStatus} (h : Overrun q) :
    ¬ Safe ⟨p, .ok (status, q)⟩ := fun safe => h.not_wf safe.1

theorem request_trips : Trips requestStage 4 := by
  intro p s w h short
  rcases (by obtain ⟨h2, h4, _⟩ := short; omega : s.stage = 2 ∨ s.stage = 3) with hs | hs
  · by_cases free : p.buf.NoSlash (p.buf.rindex + 4) (word w)
    · obtain ⟨q, hq, a, ha, outside⟩ := short_path_error h short hs free
      rw [hq]
      exact fun safe => outside (safe.2.1 a ha)
    · rcases short_path_overruns h short hs free with ⟨f, hf⟩ | ⟨q, hq, overrun⟩
      · rw [hf]
        exact fun safe => safe
      · rw [hq]
        exact not_safe_of_overrun overrun
  · obtain ⟨q, hq, overrun⟩ := short_payload h short (by omega)
      (show requestStage p = _ by simp only [requestStage, h.stage, hs])
    rw [hq]
    exact not_safe_of_overrun overrun

theorem response_trips : Trips responseStage 3 := by
  intro p s w h short
  have hs : s.stage = 2 := by
    obtain ⟨h2, h3, _⟩ := short
    omega
  obtain ⟨q, hq, overrun⟩ := short_payload h short (by omega)
    (show responseStage p = _ by simp only [responseStage, h.stage, hs])
  rw [hq]
  exact not_safe_of_overrun overrun

theorem ShortField.not_safe (imp : Implements stage M last) (trips : Trips stage last)
    (wf : p.buf.Wf) (h : ShortField M last p) :
    ¬ Safe ⟨p, runStages stage (last - p.ctx.stage) p⟩ := by
  obtain ⟨t, x, drains, short⟩ := h
  obtain ⟨q, here, _, hrun⟩ := stages_reach imp (frame_matches wf) drains
  have unsafeThere := trips here short
  rw [hrun]
  exact unsafeThere

/-- A run is safe exactly when none of its calls meets a short field. -/
theorem Sound.run_safe_iff {R : Reader SimpleParser} (hrecv : R.recv = SimpleParser.recv)
    (hparse : R.parse = fun p => runStages stage (last - p.ctx.stage) p)
    (imp : Implements stage M last) (trips : Trips stage last) (h : Sound last p)
    (chunks : List Bytes) : (∀ c ∈ R.calls p chunks, Safe c) ↔
      ∀ c ∈ R.calls p chunks, ¬ ShortField M last c.entry := by
  refine Reader.calls_safe_iff (Sound last) (fun chunk hs => ?_) (fun hs clean => ?_)
    (fun hs short => ?_) h chunks
  · rw [hrecv]
    exact hs.recv chunk
  · obtain ⟨status, q, hrun, sound, view⟩ := hs.call imp clean
    rw [hparse]
    simp only [hrun]
    exact ⟨status, q, rfl, sound, sound.wf, sound.inside, view⟩
  · rw [hparse]
    exact short.not_safe imp trips hs.wf

theorem Sound.fresh {b : Buffer} (wf : b.Wf) (storage : 0 < b.data.length) (hlast : 0 < last) :
    Sound last (fresh b) :=
  ⟨wf, storage, by simp [SimpleParser.fresh], fun hle => absurd hle (Nat.not_le.mpr hlast)⟩

/-- Whatever a peer sends, and however it arrives, the calls of either parser are safe
exactly if none is made while a short field is at the front. -/
theorem parsers_safe_iff {b : Buffer} (wf : b.Wf) (storage : 0 < b.data.length)
    (chunks : List Bytes) :
    ((∀ c ∈ requests.calls (fresh b) chunks, Safe c) ↔
      ∀ c ∈ requests.calls (fresh b) chunks, ¬ ShortField (Frame.request .error) 4 c.entry) ∧
    ((∀ c ∈ responses.calls (fresh b) chunks, Safe c) ↔
      ∀ c ∈ responses.calls (fresh b) chunks, ¬ ShortField Frame.response 3 c.entry) :=
  ⟨(Sound.fresh wf storage (by omega)).run_safe_iff rfl rfl request_implements request_trips chunks,
    (Sound.fresh wf storage (by omega)).run_safe_iff rfl rfl response_implements response_trips
      chunks⟩

theorem headOfRequest_safe_iff :
    (∀ c ∈ requests.calls (fresh (Buffer.ofSize 64)) [headOfRequest], Safe c) ↔
      ∀ c ∈ requests.calls (fresh (Buffer.ofSize 64)) [headOfRequest],
        ¬ ShortField (Frame.request .error) 4 c.entry :=
  (parsers_safe_iff (Buffer.ofSize_wf 64) (by decide) [headOfRequest]).1

theorem headOfRequest_unsafe :
    ¬ ∀ b : Buffer, b.Wf → 0 < b.data.length → ∀ chunks : List Bytes,
      (∀ c ∈ requests.calls (fresh b) chunks, Safe c) ∧
        ∀ c ∈ responses.calls (fresh b) chunks, Safe c := by
  intro claim
  have safe := (claim (Buffer.ofSize 64) (Buffer.ofSize_wf 64) (by decide) [headOfRequest]).1
  exact absurd safe (by decide +kernel)

end SimpleParser
end SmallRpc
