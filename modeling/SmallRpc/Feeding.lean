import SmallRpc.Reader
import SmallRpc.ShortFields

/-! A stream in chunks against the same stream whole, for any parser that tracks a
frame machine away from short fields. -/
namespace SmallRpc
open Resumable

/-- What a caller gets from a parsed message. -/
structure Decoded where
  connType : ConnType
  rpcStatus : Option RpcStatus
  service : Bytes
  method : Bytes
  payload : Except Fault Bytes
  rindex : Nat
  deriving DecidableEq

def Context.decoded (c : Context) (b : Buffer) : Decoded :=
  ⟨c.connType, c.rpcStatus, c.service, c.method, c.payloadView.str b, b.rindex⟩

namespace Frame

/-- A frame with `n` bytes consumed from a buffer that began at `start`. -/
def decoded (f : Frame) (rindex : Nat) : Decoded :=
  ⟨f.connType, f.rpcStatus, f.service, f.method, .ok (f.payload.getD []), rindex⟩

variable (M : Machine UInt8 Frame ParseProtocolStatus) (last : Nat)

/-- The stream ends in the middle of a short field. -/
def CutShort (w : Bytes) : Prop := ∃ t x, Drains M {} w none t x ∧ SimpleParser.Short last t x

/-- The stream holds the last byte of the message it declares. -/
def Complete (w : Bytes) : Prop := ∃ t x, Drains M {} w (some .success) t x

/-- Cutting the stream into these chunks makes no difference, and no prefix of them is
taken for a complete message too early. -/
structure FragmentFree {σ : Type} (R : Reader σ) (start : σ) (obs : σ → Option Decoded)
    (chunks : List Bytes) : Prop where
  same : SameOutcome obs (R.feed start chunks) (R.feed start [chunks.flatten])
  complete : ∀ k s, R.feed start (chunks.take k) = .ok (.success, s) →
    Complete M (chunks.take k).flatten

/-- `R` does what `M` says as long as no field is short. `At ds s` holds of a state in
which the chunks `ds` have been received and more are waited for. -/
structure Tracks {σ : Type} (R : Reader σ) (start : σ) (obs : σ → Option Decoded) (rindex : Nat)
    (At : List Bytes → σ → Prop) (Escapes : List Bytes → Prop) : Prop where
  start : At [] start
  conclusive : ∀ {s w}, M.stage s w ≠ .stop .noEnoughData
  waiting : ∀ {ds s}, At ds s → ∃ t x, Drains M {} ds.flatten none t x
  stop : ∀ {ds s c o u y}, At ds s → Drains M {} (ds ++ [c]).flatten (some o) u y →
    ∃ s', R.parse (R.recv s c) = .ok (o, s') ∧ (o = .success →
      obs s' = some (u.decoded (rindex + ((ds ++ [c]).flatten.length - y.length))))
  wait : ∀ {ds s c u y}, At ds s → Drains M {} (ds ++ [c]).flatten none u y →
    ¬ SimpleParser.Short last u y →
    ∃ s', R.parse (R.recv s c) = .ok (.noEnoughData, s') ∧ At (ds ++ [c]) s'
  escape : ∀ {ds s c}, At ds s → CutShort M last (ds ++ [c]).flatten → Escapes (ds ++ [c]) →
    ∃ s', R.parse (R.recv s c) = .ok (.error, s')
  trip : ∀ {ds s c}, At ds s → CutShort M last (ds ++ [c]).flatten → ¬ Escapes (ds ++ [c]) →
    (∃ f, R.parse (R.recv s c) = .error f) ∨ ∃ s', R.parse (R.recv s c) = .ok (.success, s')

variable {M last} {σ : Type} {R : Reader σ} {start s : σ} {obs : σ → Option Decoded} {rindex : Nat}
  {At : List Bytes → σ → Prop} {Escapes : List Bytes → Prop} {ds cs chunks : List Bytes}
  {r : Option ParseProtocolStatus} {u : Frame} {y : Bytes} {k : Nat}

/-- With no short prefix the feed ends as the machine does on everything received. -/
theorem Tracks.feed_clean (h : Tracks M last R start obs rindex At Escapes) (hs : At ds s)
    (clean : ∀ k, ¬ CutShort M last (ds ++ cs.take k).flatten)
    (drains : Drains M {} (ds ++ cs).flatten r u y) :
    ∃ s', R.feed s cs = .ok (r.getD .noEnoughData, s') ∧ (r = some .success →
      obs s' = some (u.decoded (rindex + ((ds ++ cs).flatten.length - y.length)))) := by
  induction cs generalizing ds s with
  | nil =>
      obtain ⟨t, x, waits⟩ := h.waiting hs
      rw [List.append_nil] at drains
      obtain ⟨rfl, _, _⟩ := waits.unique drains
      exact ⟨s, rfl, nofun⟩
  | cons c cs ih =>
      have hsplit : ds ++ c :: cs = ds ++ [c] ++ cs := by simp
      have hflat : (ds ++ c :: cs).flatten = (ds ++ [c]).flatten ++ cs.flatten := by
        rw [hsplit, List.flatten_append]
      obtain ⟨r₁, t, x, first⟩ := Drains.total M {} (ds ++ [c]).flatten
      cases r₁ with
      | some o =>
          obtain ⟨s', hparse, hobs⟩ := h.stop hs first
          rw [hflat] at drains ⊢
          obtain ⟨rfl, rfl, rfl⟩ := (first.stop_append cs.flatten).unique drains
          refine ⟨s', Reader.feed_done hparse ?_, fun hr => ?_⟩
          · rintro rfl
            exact h.conclusive first.stopped
          · rw [hobs (Option.some.inj hr), List.length_append, List.length_append,
              Nat.add_sub_add_right]
      | none =>
          have hshort : ¬ SimpleParser.Short last t x := fun hx =>
            clean 1 ⟨t, x, by simpa only [List.take_succ_cons, List.take_zero] using first, hx⟩
          obtain ⟨s', hparse, hs'⟩ := h.wait hs first hshort
          rw [Reader.feed_more hparse, hsplit]
          refine ih hs' (fun k => ?_) (by rw [← hsplit]; exact drains)
          have := clean (k + 1)
          rwa [List.take_succ_cons, List.append_cons] at this

theorem CutShort.waits {w v : Bytes} (h : CutShort M last (w ++ v)) :
    ∃ u y, Drains M {} w none u y := by
  obtain ⟨t, x, drains, _⟩ := h
  obtain ⟨r, u, y, hu⟩ := Drains.total M {} w
  cases r with
  | none => exact ⟨u, y, hu⟩
  | some o => exact absurd ((hu.stop_append v).unique drains).1 (by simp)

/-- Up to the first short prefix the feed waits; the call made there decides. -/
theorem Tracks.feed_short (h : Tracks M last R start obs rindex At Escapes) (hs : At ds s)
    (short : CutShort M last (ds ++ cs).flatten) (hne : cs ≠ [])
    (first : ∀ j < cs.length, ¬ CutShort M last (ds ++ cs.take j).flatten) :
    (Escapes (ds ++ cs) → ∃ s', R.feed s cs = .ok (.error, s')) ∧
      (¬ Escapes (ds ++ cs) →
        (∃ f, R.feed s cs = .error f) ∨ ∃ s', R.feed s cs = .ok (.success, s')) := by
  induction cs generalizing ds s with
  | nil => exact absurd rfl hne
  | cons c cs ih =>
      rw [List.append_cons] at short ⊢
      by_cases hcs : cs = []
      · subst hcs
        rw [List.append_nil] at short ⊢
        refine ⟨fun esc => ?_, fun esc => ?_⟩
        · obtain ⟨s', hparse⟩ := h.escape hs short esc
          exact ⟨s', Reader.feed_done hparse (by simp)⟩
        · rcases h.trip hs short esc with ⟨f, hf⟩ | ⟨s', hparse⟩
          · exact Or.inl ⟨f, Reader.feed_fault hf⟩
          · exact Or.inr ⟨s', Reader.feed_done hparse (by simp)⟩
      · have hlen : 0 < cs.length := List.length_pos_iff.mpr hcs
        rw [List.flatten_append] at short
        obtain ⟨u, y, hu⟩ := short.waits
        have hshort : ¬ SimpleParser.Short last u y := fun hy =>
          first 1 (by simp; omega)
            ⟨u, y, by simpa only [List.take_succ_cons, List.take_zero] using hu, hy⟩
        obtain ⟨s', hparse, hs'⟩ := h.wait hs hu hshort
        rw [Reader.feed_more hparse]
        refine ih hs' (by rw [List.flatten_append]; exact short) hcs fun j hj => ?_
        have := first (j + 1) (by simp; omega)
        rwa [List.take_succ_cons, List.append_cons] at this

/-- The whole stream in one chunk: where the machine stops, that is the answer. -/
theorem Tracks.whole_stop (h : Tracks M last R start obs rindex At Escapes) {w : Bytes}
    {o : ParseProtocolStatus} (drains : Drains M {} w (some o) u y) :
    ∃ s', R.feed start [w] = .ok (o, s') := by
  obtain ⟨s', hparse, _⟩ := h.stop (c := w) h.start (by simpa using drains)
  refine ⟨s', Reader.feed_done hparse ?_⟩
  rintro rfl
  exact h.conclusive drains.stopped

/-- Where it waits, the answer is `Error` only for a short field that escapes. -/
theorem Tracks.whole_error (h : Tracks M last R start obs rindex At Escapes) {w : Bytes}
    (drains : Drains M {} w none u y) : (∃ s', R.feed start [w] = .ok (.error, s')) ↔
      SimpleParser.Short last u y ∧ Escapes [w] := by
  have all : Drains M {} ([] ++ [w]).flatten none u y := by simpa using drains
  by_cases short : SimpleParser.Short last u y
  · by_cases esc : Escapes [w]
    · obtain ⟨s', hparse⟩ := h.escape h.start ⟨u, y, all, short⟩ esc
      exact iff_of_true ⟨s', Reader.feed_done hparse (by simp)⟩ ⟨short, esc⟩
    · refine iff_of_false ?_ fun both => esc both.2
      rintro ⟨s, hs⟩
      rcases h.trip h.start ⟨u, y, all, short⟩ esc with ⟨f, hf⟩ | ⟨s', hparse⟩
      · rw [Reader.feed_fault hf] at hs
        cases hs
      · rw [Reader.feed_done hparse (by simp)] at hs
        cases hs
  · refine iff_of_false ?_ fun both => short both.1
    rintro ⟨s, hs⟩
    obtain ⟨s', hparse, _⟩ := h.wait h.start all short
    rw [Reader.feed_more hparse, Reader.feed] at hs
    cases hs

theorem not_cutShort_nil : ¬ CutShort M last [] := by
  rintro ⟨t, x, drains, short⟩
  have := drains.suffix.length_le
  have h4 := short.2.2.1
  rw [List.length_nil] at this
  omega

theorem CutShort.not_complete {w : Bytes} (h : CutShort M last w) : ¬ Complete M w := by
  rintro ⟨u, y, drains⟩
  obtain ⟨t, x, waits, _⟩ := h
  exact absurd (waits.unique drains).1 (by simp)

theorem Tracks.fragmentFree_of_clean (h : Tracks M last R start obs rindex At Escapes)
    (clean : ∀ k, ¬ CutShort M last (chunks.take k).flatten) :
    FragmentFree M R start obs chunks := by
  obtain ⟨r, u, y, drains⟩ := Drains.total M {} chunks.flatten
  have whole : ∀ k, ¬ CutShort M last ([] ++ [chunks.flatten].take k).flatten := by
    intro k
    cases k with
    | zero => exact not_cutShort_nil
    | succ k =>
        have := clean chunks.length
        rw [List.take_length] at this
        simpa using this
  obtain ⟨s₁, h₁, o₁⟩ := h.feed_clean h.start clean drains
  obtain ⟨s₂, h₂, o₂⟩ := h.feed_clean h.start whole
    (by rw [List.nil_append, List.flatten_singleton]; exact drains)
  rw [List.nil_append] at o₁ o₂
  rw [List.flatten_singleton] at o₂
  refine ⟨⟨_, s₁, s₂, h₁, h₂, fun hr => ?_⟩, fun k s hs => ?_⟩
  · have hr' : r = some .success := by
      cases r with
      | none => cases hr
      | some o => exact congrArg some hr
    rw [o₁ hr', o₂ hr']
  · obtain ⟨r', u', y', drains'⟩ := Drains.total M {} (chunks.take k).flatten
    obtain ⟨s', h', _⟩ := h.feed_clean h.start
      (fun j => by rw [List.nil_append, List.take_take]; exact clean _) drains'
    rw [hs] at h'
    cases r' with
    | none => cases h'
    | some o =>
        cases h'
        exact ⟨u', y', drains'⟩

/-- The chunks make no difference exactly if no prefix is cut short, or the first such
prefix escapes and the whole stream is turned down too. -/
theorem Tracks.fragmentFree_iff (h : Tracks M last R start obs rindex At Escapes)
    (Rejects : Bytes → Prop) (rejects : ∀ {ds v}, CutShort M last (List.flatten ds) → Escapes ds →
      ((∃ s, R.feed start [ds.flatten ++ v] = .ok (.error, s)) ↔ Rejects (ds.flatten ++ v))) :
    FragmentFree M R start obs chunks ↔ ∀ k, CutShort M last (chunks.take k).flatten →
      ∃ j ≤ k, CutShort M last (chunks.take j).flatten ∧ Escapes (chunks.take j) ∧
        Rejects chunks.flatten := by
  by_cases clean : ∀ k, ¬ CutShort M last (chunks.take k).flatten
  · exact iff_of_true (h.fragmentFree_of_clean clean) fun k hk => absurd hk (clean k)
  classical
  rw [not_forall_not] at clean
  obtain ⟨k, short, first⟩ : ∃ k, CutShort M last (chunks.take k).flatten ∧
      ∀ j < k, ¬ CutShort M last (chunks.take j).flatten :=
    ⟨_, Nat.find_spec clean, fun j hj => Nat.find_min clean hj⟩
  have hne : chunks.take k ≠ [] := fun hk => by
    rw [hk] at short
    exact not_cutShort_nil short
  have ends := h.feed_short h.start short hne fun j hj => by
    rw [List.nil_append, List.take_take]
    rw [List.length_take] at hj
    exact first _ (by omega)
  rw [List.nil_append] at ends
  have whole : ∀ {out}, R.feed start (chunks.take k) = out →
      (∀ s', out ≠ .ok (.noEnoughData, s')) → R.feed start chunks = out := fun hout hc => by
    have := Reader.feed_append (chunks.drop k) hout hc
    rwa [List.take_append_drop] at this
  by_cases esc : Escapes (chunks.take k)
  · obtain ⟨s, hs⟩ := ends.1 esc
    have hall := whole hs (by simp)
    have turned : (∃ s, R.feed start [chunks.flatten] = .ok (.error, s)) ↔
        Rejects chunks.flatten := by
      rw [← List.take_append_drop k chunks, List.flatten_append]
      exact rejects short esc
    constructor
    · rintro ⟨⟨_, s₁, s₂, h₁, h₂, _⟩, _⟩ m hm
      rw [hall] at h₁
      cases h₁
      refine ⟨k, ?_, short, esc, turned.mp ⟨s₂, h₂⟩⟩
      by_contra hlt
      exact first m (by omega) hm
    · intro clear
      obtain ⟨_, _, _, _, hrej⟩ := clear k short
      obtain ⟨s₂, h₂⟩ := turned.mpr hrej
      refine ⟨⟨_, s, s₂, hall, h₂, nofun⟩, fun m s' hm => ?_⟩
      have later := Reader.feed_append (chunks.drop m) hm (by simp)
      rw [List.take_append_drop, hall] at later
      cases later
  · constructor
    · rintro ⟨⟨_, s₁, _, h₁, _⟩, early⟩
      rcases ends.2 esc with ⟨f, hf⟩ | ⟨s', hs'⟩
      · rw [whole hf (by simp)] at h₁
        cases h₁
      · exact absurd (early k s' hs') short.not_complete
    · intro clear
      obtain ⟨j, hj, shortj, escj, _⟩ := clear k short
      rcases Nat.lt_or_eq_of_le hj with lt | rfl
      · exact absurd shortj (first j lt)
      · exact absurd escj esc

end Frame
end SmallRpc
