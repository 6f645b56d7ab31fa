import SmallRpc.HttpParsing
import SmallRpc.Protocols
import SmallRpc.Reader

/-! What a peer can do to the HTTP parsers through `Content-Length`: an exception, or a
body of negative size. Everything else they survive. -/
namespace SmallRpc
open Resumable

namespace HTTPContext

def contentLength : Bytes := ascii "Content-Length"

/-- The body size is the value of the recorded `Content-Length`, 0 without one. -/
def LengthRecorded (c : HTTPContext) : Prop :=
  match c.headers.lookup contentLength with
  | none => c.bodySize = 0
  | some text => stoi text = .ok c.bodySize

variable {c c' s s' : HTTPContext} {w : Bytes} {n : Nat}

theorem addHeader_recorded {key value : Bytes} (h : c.addHeader key value = .ok c') :
    c'.stage = c.stage ∧ (c.LengthRecorded → c'.LengthRecorded) := by
  rcases HTTPParser.addHeader_eq c key value with same | ⟨_, _, added, fresh, size⟩ | thrown
  · obtain rfl := Except.ok.inj (same.symm.trans h)
    exact ⟨rfl, id⟩
  · obtain rfl := Except.ok.inj (added.symm.trans h)
    refine ⟨rfl, fun hc => ?_⟩
    unfold LengthRecorded at hc ⊢
    simp only [List.lookup_append]
    by_cases len : key = contentLength
    · rw [if_pos (show key = ascii "Content-Length" from len)] at size
      rw [← len, fresh]
      simpa [List.lookup] using size
    · rw [if_neg (show key ≠ ascii "Content-Length" from len)] at size
      have other : List.lookup contentLength [(key, value)] = none := by
        have hne : (contentLength == key) = false := by simpa using Ne.symm len
        simp [List.lookup, hne]
      rw [other, Option.or_none, size]
      exact hc
  · rw [thrown] at h
    cases h

theorem takeUrl_keeps {line : Bytes} {offset : Nat} (h : takeUrl s line offset = some s') :
    s'.headers = s.headers ∧ s'.bodySize = s.bodySize := by
  unfold takeUrl at h
  simp only at h
  split_ifs at h
  split at h
  · cases h
  · split_ifs at h
    obtain rfl := Option.some.inj h
    unfold takeTarget
    split <;> exact ⟨rfl, rfl⟩

theorem headerVerdict_advance (h : headerVerdict s w = .advance s' n) (h1 : s.stage = 1) :
    s'.stage ≤ 2 ∧ (s.LengthRecorded → s'.LengthRecorded) := by
  obtain ⟨k, _, taken⟩ := onLine_advance h
  split_ifs at taken with h0
  · cases taken
    exact ⟨le_rfl, id⟩
  · split at taken <;> cases taken
    rename_i added
    unfold takeHeader at added
    split at added
    · cases added
    · cases added
    · obtain ⟨stage, recorded⟩ := addHeader_recorded (Option.some.inj added)
      exact ⟨by rw [stage, h1]; omega, recorded⟩

theorem requestLineVerdict_advance (h : requestLineVerdict s w = .advance s' n) :
    s'.stage ≤ 2 ∧ (s.LengthRecorded → s'.LengthRecorded) := by
  obtain ⟨k, _, taken⟩ := onLine_advance h
  split at taken <;> cases taken
  rename_i line
  unfold takeRequestLine at line
  simp only at line
  split_ifs at line
  obtain ⟨headers, size⟩ := takeUrl_keeps line
  refine ⟨by simp, fun hs => ?_⟩
  unfold LengthRecorded at hs ⊢
  simp only [headers, size]
  exact hs

/-- Advancing keeps the machine within its stages and its record of the length. -/
def Keeps (M : Machine UInt8 HTTPContext HeadEnd) : Prop := ∀ {s w s' n},
  M.stage s w = .advance s' n → s'.stage ≤ 2 ∧ (s.LengthRecorded → s'.LengthRecorded)

theorem request_keeps : Keeps request := fun {s w s' n} h => by
  change requestVerdict s w = _ at h
  unfold requestVerdict at h
  split at h
  · exact requestLineVerdict_advance h
  · exact headerVerdict_advance h (by assumption)
  · cases h

theorem response_keeps : Keeps response := fun {s w s' n} h => by
  change responseVerdict s w = _ at h
  unfold responseVerdict at h
  split at h
  · obtain ⟨k, _, taken⟩ := onLine_advance h
    cases taken
    exact ⟨by simp, id⟩
  · exact headerVerdict_advance h (by assumption)
  · cases h

end HTTPContext

namespace HTTPParser
open HTTPContext

variable {p q : HTTPParser} {s t : HTTPContext} {w x : Bytes}
  {stage : HTTPParser → Except Fault (Flow HTTPParser)} {M : Machine UInt8 HTTPContext HeadEnd}

/-- The payload has the length the recorded `Content-Length` declares, 0 without one. -/
def BodyDeclared (p : HTTPParser) : Prop :=
  match p.ctx.headers.lookup contentLength with
  | none => p.ctx.payloadView.endIdx = p.ctx.payloadView.beginIdx
  | some text =>
      stoi text = .ok ((p.ctx.payloadView.endIdx : Int) - p.ctx.payloadView.beginIdx)

structure Answered (p : HTTPParser) : Prop where
  inside : p.ctx.payloadView.Inside p.buf
  declared : p.BodyDeclared

/-- The call returned, and on `Success` the payload is what the header declares. -/
def Safe (c : Reader.Call HTTPParser) : Prop :=
  ∃ status q, c.result = .ok (status, q) ∧ (status = .success → q.Answered)

/-- The head in front of the parser ends in a text that `stoi` rejects; or it is
complete with a negative length that the test for the body lets through. -/
def BadLength (M : Machine UInt8 HTTPContext HeadEnd) (p : HTTPParser) : Prop :=
  ∃ t x, Drains M p.ctx.bare p.buf.unread (some .thrown) t x ∨
    Drains M p.ctx.bare p.buf.unread (some .headed) t x ∧ t.bodySize < 0 ∧
      t.bodySize ≤ castInt x.length

instance (M : Machine UInt8 HTTPContext HeadEnd) (p : HTTPParser) : Decidable (BadLength M p) :=
  decidable_of_iff
    (let (r, t, x) := M.drain (p.buf.unread.length + 1) p.ctx.bare p.buf.unread
     r = some .thrown ∨ r = some .headed ∧ t.bodySize < 0 ∧ t.bodySize ≤ castInt x.length) <| by
    obtain ⟨r, t, x, drains⟩ := Drains.total M p.ctx.bare p.buf.unread
    rw [drains_iff.mp drains]
    constructor
    · rintro (rfl | ⟨rfl, neg, fits⟩)
      · exact ⟨t, x, .inl drains⟩
      · exact ⟨t, x, .inr ⟨drains, neg, fits⟩⟩
    · rintro ⟨t', x', other | ⟨other, neg, fits⟩⟩
      · obtain ⟨rfl, _, _⟩ := drains.unique other
        exact .inl rfl
      · obtain ⟨rfl, rfl, rfl⟩ := drains.unique other
        exact .inr ⟨rfl, neg, fits⟩

/-- What safe calls leave behind. -/
structure Sound (p : HTTPParser) : Prop where
  wf : p.buf.Wf
  storage : 0 < p.buf.data.length
  recorded : p.ctx.LengthRecorded
  answered : 3 ≤ p.ctx.stage → p.Answered

def recv (p : HTTPParser) (chunk : Bytes) : HTTPParser := { p with buf := p.buf.recv chunk }

theorem Sound.recv (h : Sound p) (chunk : Bytes) : Sound (p.recv chunk) := by
  have got := h.wf.recv h.storage chunk
  refine ⟨got.wf, h.storage.trans_le got.storage, h.recorded, fun h3 => ?_⟩
  obtain ⟨inside, declared⟩ := h.answered h3
  exact ⟨⟨inside.1, inside.2.trans got.windex⟩, declared⟩

theorem bare_recorded (c : HTTPContext) : c.bare.LengthRecorded ↔ c.LengthRecorded := Iff.rfl

theorem Sound.bodySize_nonneg (h : Sound p) (h3 : 3 ≤ p.ctx.stage) : 0 ≤ p.ctx.bodySize := by
  obtain ⟨inside, declared⟩ := h.answered h3
  have recorded := h.recorded
  unfold LengthRecorded at recorded
  unfold BodyDeclared at declared
  cases hl : p.ctx.headers.lookup contentLength with
  | none =>
      rw [hl] at recorded
      exact recorded.ge
  | some text =>
      rw [hl] at recorded declared
      have hsize := Except.ok.inj (recorded.symm.trans declared)
      have := inside.1
      omega

/-- At the body the call succeeds or waits, by a test on `readable` as an `int`. -/
theorem body_call (imp : Implements stage M) (h : Matches q t x) (h2 : t.stage = 2) :
    runStages stage (3 - q.ctx.stage) q =
      if t.bodySize ≤ castInt x.length then .ok (.success, { q with ctx := { q.ctx with
        payloadView := .ofLength q.buf.rindex t.bodySize, stage := 3 } })
      else .ok (.noEnoughData, q) := by
  have hq2 := h.stage_eq.trans h2
  have size : q.ctx.bodySize = t.bodySize := by
    rw [← h.bare]
    rfl
  have pass := imp.bodyStage hq2
  rw [parseBody, size, h.readable] at pass
  rw [hq2]
  split_ifs with fits
  · rw [if_pos fits] at pass
    have staged : stage q = .ok (.again { q with ctx := { q.ctx with
        payloadView := .ofLength q.buf.rindex t.bodySize, stage := 3 } }) := by
      rw [pass]
      simp only [advance, hq2]
    exact runStages_again staged
  · rw [if_neg fits] at pass
    exact runStages_ret pass

/-- With a size that is not negative the body lies inside what was received. -/
theorem body_answered (h : Matches q t x) (recorded : t.LengthRecorded) (h0 : 0 ≤ t.bodySize)
    (fits : t.bodySize ≤ castInt x.length) : Answered { q with ctx := { q.ctx with
      payloadView := .ofLength q.buf.rindex t.bodySize, stage := 3 } } := by
  have hlen := h.wf.unread_length
  have ho := h.wf.order
  have hx := castInt_le x.length
  rw [h.unread] at hlen
  have end_eq : BufferView.shift q.buf.rindex t.bodySize = q.buf.rindex + t.bodySize.toNat :=
    if_pos h0
  refine ⟨⟨?_, ?_⟩, ?_⟩
  · show q.buf.rindex ≤ BufferView.shift _ _
    omega
  · show BufferView.shift _ _ ≤ q.buf.windex
    omega
  · have headers : q.ctx.headers = t.headers := by
      rw [← h.bare]
      rfl
    unfold BodyDeclared
    unfold LengthRecorded at recorded
    simp only [headers, BufferView.ofLength, end_eq]
    cases hl : t.headers.lookup contentLength with
    | none =>
        rw [hl] at recorded
        simp only at recorded ⊢
        omega
    | some text =>
        rw [hl] at recorded
        simp only at recorded ⊢
        rw [recorded]
        congr 1
        omega

theorem Sound.left (h : Sound p) {n : Nat} (hbuf : q.buf = p.buf.retrieve n)
    (hn : n ≤ p.buf.unread.length) (recorded : q.ctx.LengthRecorded)
    (answered : 3 ≤ q.ctx.stage → q.Answered) : Sound q :=
  ⟨by rw [hbuf]; exact h.wf.retrieve hn, by rw [hbuf]; exact h.storage, recorded, answered⟩

theorem frame_matches (wf : p.buf.Wf) : Matches p p.ctx.bare p.buf.unread := ⟨wf, rfl, rfl⟩

/-- Away from a bad length a call is safe, and leaves a sound parser. -/
theorem Sound.call (imp : Implements stage M) (keeps : Keeps M) (h : Sound p)
    (good : ¬ BadLength M p) : ∃ status q, runStages stage (3 - p.ctx.stage) p = .ok (status, q) ∧
      Sound q ∧ (status = .success → q.Answered) := by
  by_cases h3 : 3 ≤ p.ctx.stage
  · rw [show 3 - p.ctx.stage = 0 by omega]
    exact ⟨_, p, rfl, h, fun _ => h.answered h3⟩
  obtain ⟨r, t, x, drains⟩ := Drains.total M p.ctx.bare p.buf.unread
  have low : t.stage ≤ 2 := drains.invariant (P := fun s => s.stage ≤ 2)
    (show p.ctx.stage ≤ 2 by omega) fun hv _ => (keeps hv).1
  have recorded : t.LengthRecorded := drains.invariant (P := LengthRecorded) h.recorded
    fun hv hs => (keeps hv).2 hs
  have outcome := call_outcome imp (frame_matches h.wf) drains
  cases outcome with
  | @waits q hq hm hb =>
      have hrec : q.ctx.LengthRecorded := by rw [← bare_recorded, hm.bare]; exact recorded
      refine ⟨_, q, hq, h.left hb (Nat.sub_le _ _) hrec fun hle => ?_, nofun⟩
      have := hm.stage_eq
      omega
  | @failed q hq hkept hb =>
      have hrec : q.ctx.LengthRecorded := by
        unfold LengthRecorded at recorded ⊢
        rw [hkept.headers, hkept.bodySize]
        exact recorded
      refine ⟨_, q, hq, h.left hb (Nat.sub_le _ _) hrec fun hle => ?_, nofun⟩
      have := hkept.stage
      omega
  | thrown _ => exact absurd ⟨t, x, Or.inl drains⟩ good
  | @headed q hq hm h2 hb =>
      have hrec : q.ctx.LengthRecorded := by rw [← bare_recorded, hm.bare]; exact recorded
      rw [hq, body_call imp hm (by omega)]
      split_ifs with fits
      · have h0 : 0 ≤ t.bodySize := by
          by_contra neg
          exact good ⟨t, x, Or.inr ⟨drains, by omega, fits⟩⟩
        have done := body_answered hm recorded h0 fits
        exact ⟨_, _, rfl, h.left hb (Nat.sub_le _ _) hrec fun _ => done, fun _ => done⟩
      · refine ⟨_, q, rfl, h.left hb (Nat.sub_le _ _) hrec fun hle => ?_, nofun⟩
        have := hm.stage_eq
        omega

/-- At a bad length a call is not safe. -/
theorem BadLength.not_safe (imp : Implements stage M) (keeps : Keeps M) (h : Sound p)
    (bad : BadLength M p) : ¬ Safe ⟨p, runStages stage (3 - p.ctx.stage) p⟩ := by
  obtain ⟨t, x, drains | ⟨drains, neg, fits⟩⟩ := bad
  · have outcome := call_outcome imp (frame_matches h.wf) drains
    cases outcome with
    | thrown hq =>
        rw [hq]
        rintro ⟨_, _, out, _⟩
        cases out
  · have recorded : t.LengthRecorded := drains.invariant (P := LengthRecorded) h.recorded
      fun hv hs => (keeps hv).2 hs
    have low : t.stage ≤ 2 := by
      by_cases h3 : 3 ≤ p.ctx.stage
      · exfalso
        obtain ⟨_, rfl, _⟩ := drains.unique (.stop (imp.headed (show 2 ≤ p.ctx.stage by omega)))
        have h0 : 0 ≤ p.ctx.bodySize := h.bodySize_nonneg h3
        exact absurd neg (not_lt.mpr h0)
      · exact drains.invariant (P := fun s => s.stage ≤ 2)
          (show p.ctx.stage ≤ 2 by omega) fun hv _ => (keeps hv).1
    have outcome := call_outcome imp (frame_matches h.wf) drains
    cases outcome with
    | @headed q hq hm h2 hb =>
        rw [hq, body_call imp hm (by omega), if_pos fits]
        rintro ⟨_, _, out, answered⟩
        obtain ⟨rfl, rfl⟩ := Prod.mk.inj (Except.ok.inj out)
        obtain ⟨inside, declared⟩ := answered rfl
        have headers : q.ctx.headers = t.headers := by
          rw [← hm.bare]
          rfl
        unfold LengthRecorded at recorded
        unfold BodyDeclared at declared
        simp only [headers] at declared
        have order := inside.1
        cases hl : t.headers.lookup contentLength with
        | none =>
            rw [hl] at recorded
            simp only at recorded
            omega
        | some text =>
            rw [hl] at recorded declared
            have hsize := Except.ok.inj (recorded.symm.trans declared)
            simp only at order
            omega

def responses : Reader HTTPParser := ⟨recv, parseResponse⟩

theorem Sound.fresh {b : Buffer} (wf : b.Wf) (storage : 0 < b.data.length) : Sound ⟨{}, b⟩ :=
  ⟨wf, storage, rfl, fun h3 => absurd h3 (by simp)⟩

end HTTPParser

namespace HTTPProtocol
open HTTPContext HTTPParser

variable {s : Session} {ctx : HTTPContext} {b : Buffer}

def requests : Reader Session := ⟨fun s c => { s with buf := s.buf.recv c }, parseRequest⟩

/-- The context a call of `parse_request` parses with: the session's own, or a new one if
the stream starts with the name of a method. -/
inductive Parses (s : Session) : HTTPContext → Prop
  | known {ctx : HTTPContext} : s.ctx = some (.http ctx) → Parses s ctx
  | created {m : HTTPMethod} : s.ctx = none → httpMethodMaxLen ≤ s.buf.unread.length →
      m ∈ HTTPMethod.tried → m.name <+: s.buf.unread → Parses s {}

/-- The call returned, and on `Success` the payload is what the header declares. -/
def Safe (c : Reader.Call Session) : Prop :=
  ∃ status s, c.result = .ok (status, s) ∧
    (status = .success → ∃ ctx, s.ctx = some (.http ctx) ∧ Answered ⟨ctx, s.buf⟩)

def BadLength (s : Session) : Prop :=
  ∃ ctx, Parses s ctx ∧ HTTPParser.BadLength HTTPContext.request ⟨ctx, s.buf⟩

instance : ∀ s, Decidable (BadLength s)
  | ⟨some (.http ctx), b⟩ =>
    decidable_of_iff (HTTPParser.BadLength HTTPContext.request ⟨ctx, b⟩) <| by
      refine ⟨fun bad => ⟨ctx, .known rfl, bad⟩, ?_⟩
      rintro ⟨ctx', parses, bad⟩
      cases parses with
      | known same =>
          cases same
          exact bad
      | created none => cases none
  | ⟨some (.simple _), _⟩ => .isFalse <| by
      rintro ⟨ctx', parses, _⟩
      cases parses with
      | known same => cases same
      | created none => cases none
  | ⟨none, b⟩ =>
    decidable_of_iff (httpMethodMaxLen ≤ b.unread.length ∧
        (∃ m ∈ HTTPMethod.tried, m.name <+: b.unread) ∧
        HTTPParser.BadLength HTTPContext.request ⟨{}, b⟩) <| by
      constructor
      · rintro ⟨enough, ⟨m, hm, named⟩, bad⟩
        exact ⟨{}, .created rfl enough hm named, bad⟩
      · rintro ⟨ctx', parses, bad⟩
        cases parses with
        | known same => cases same
        | created _ enough hm named => exact ⟨enough, ⟨_, hm, named⟩, bad⟩

/-- A session that has not been recognised, or one whose parser is sound. -/
def Sound (s : Session) : Prop :=
  s.ctx = none ∧ s.buf.Wf ∧ 0 < s.buf.data.length ∨
    ∃ ctx, s.ctx = some (.http ctx) ∧ HTTPParser.Sound ⟨ctx, s.buf⟩

theorem Sound.recv (h : Sound s) (chunk : Bytes) : Sound (requests.recv s chunk) := by
  rcases h with ⟨hs, wf, storage⟩ | ⟨ctx, hs, sound⟩
  · have got := wf.recv storage chunk
    exact Or.inl ⟨hs, got.wf, storage.trans_le got.storage⟩
  · exact Or.inr ⟨ctx, hs, sound.recv chunk⟩

/-- The first call looks for the name of a method, once there are bytes enough. -/
theorem fresh_cases (hs : s.ctx = none) (wf : s.buf.Wf) :
    s.buf.unread.length < httpMethodMaxLen ∧ parseRequest s = .ok (.noEnoughData, s) ∨
      httpMethodMaxLen ≤ s.buf.unread.length ∧
        ((∀ m ∈ HTTPMethod.tried, ¬ m.name <+: s.buf.unread) ∧
            parseRequest s = .ok (.tryAnotherProtocol, s) ∨
          (∃ m ∈ HTTPMethod.tried, m.name <+: s.buf.unread) ∧
            parseRequest s = resume {} s.buf) := by
  have waits : s.buf.readable < httpMethodMaxLen → parseRequest s = .ok (.noEnoughData, s) :=
    fun hr => by simp only [parseRequest, hs, if_pos hr]
  have looks : ∀ o, ¬ s.buf.readable < httpMethodMaxLen →
      s.buf.findMethod HTTPMethod.tried = .ok o → parseRequest s =
        o.elim (.ok (.tryAnotherProtocol, s)) fun _ => resume {} s.buf := by
    intro o hr ho
    simp only [parseRequest, hs, if_neg hr, ho, bind, Except.bind]
    cases o <;> rfl
  rw [wf.readable_eq] at waits looks
  by_cases hlen : s.buf.unread.length < httpMethodMaxLen
  · exact Or.inl ⟨hlen, waits hlen⟩
  have longest : ∀ m ∈ HTTPMethod.tried, m.name.length ≤ httpMethodMaxLen := by decide
  have search := wf.findMethod_eq fun m hm => Or.inl ((longest m hm).trans (not_lt.mp hlen))
  have entered := looks _ hlen search
  refine Or.inr ⟨not_lt.mp hlen, ?_⟩
  cases hf : HTTPMethod.tried.find? fun m => m.name.isPrefixOf s.buf.unread with
  | none =>
      rw [hf] at entered
      refine Or.inl ⟨fun m hm hpre => ?_, entered⟩
      have hno := List.find?_eq_none.mp hf _ hm
      exact hno (List.isPrefixOf_iff_prefix.mpr hpre)
  | some m =>
      rw [hf] at entered
      have hpre := List.find?_some hf
      rw [List.isPrefixOf_iff_prefix] at hpre
      exact Or.inr ⟨⟨m, List.mem_of_find?_eq_some hf, hpre⟩, entered⟩

theorem parseRequest_cases (h : Sound s) :
    ((∀ ctx, ¬ Parses s ctx) ∧ ∃ status, parseRequest s = .ok (status, s) ∧ status ≠ .success) ∨
      ∃ ctx, Parses s ctx ∧ (∀ ctx', Parses s ctx' → ctx' = ctx) ∧
        HTTPParser.Sound ⟨ctx, s.buf⟩ ∧ parseRequest s = resume ctx s.buf := by
  rcases h with ⟨hs, wf, storage⟩ | ⟨ctx, hs, sound⟩
  · rcases fresh_cases hs wf with ⟨few, out⟩ | ⟨enough, ⟨other, out⟩ | ⟨⟨m, hm, hpre⟩, out⟩⟩
    · refine Or.inl ⟨fun ctx hp => ?_, _, out, by simp⟩
      cases hp with
      | known hk => rw [hs] at hk; cases hk
      | created _ hle _ _ => omega
    · refine Or.inl ⟨fun ctx hp => ?_, _, out, by simp⟩
      cases hp with
      | known hk => rw [hs] at hk; cases hk
      | created _ _ hm hpre => exact other _ hm hpre
    · refine Or.inr ⟨{}, .created hs enough hm hpre, fun ctx' hp => ?_, .fresh wf storage, out⟩
      cases hp with
      | known hk => rw [hs] at hk; cases hk
      | created _ _ _ _ => rfl
  · refine Or.inr ⟨ctx, .known hs, fun ctx' hp => ?_, sound, by simp only [parseRequest, hs]⟩
    cases hp with
    | known hk =>
        rw [hs] at hk
        cases hk
        rfl
    | created hn _ _ _ => rw [hs] at hn; cases hn

theorem resume_ok {buf : Buffer} {status : ParseProtocolStatus} {q : HTTPParser}
    (h : HTTPParser.parseRequest ⟨ctx, buf⟩ = .ok (status, q)) :
    resume ctx buf = .ok (status, ⟨some (.http q.ctx), q.buf⟩) := by
  rw [resume, h]
  rfl

theorem resume_fault {buf : Buffer} {f : Fault}
    (h : HTTPParser.parseRequest ⟨ctx, buf⟩ = .error f) : resume ctx buf = .error f := by
  rw [resume, h]
  rfl

theorem Sound.call (h : Sound s) (good : ¬ BadLength s) : ∃ status s',
    parseRequest s = .ok (status, s') ∧ Sound s' ∧ Safe ⟨s, parseRequest s⟩ := by
  rcases parseRequest_cases h with ⟨_, status, hparse, hne⟩ | ⟨ctx, hp, _, sound, hparse⟩
  · exact ⟨status, s, hparse, h, status, s, hparse, fun hs => absurd hs hne⟩
  · obtain ⟨status, q, hq, sound', answered⟩ := sound.call request_implements request_keeps
      fun bad => good ⟨ctx, hp, bad⟩
    have out := hparse.trans (resume_ok hq)
    exact ⟨status, _, out, Or.inr ⟨q.ctx, rfl, sound'⟩, status, _, out,
      fun hs => ⟨q.ctx, rfl, answered hs⟩⟩

theorem BadLength.not_safe (h : Sound s) (bad : BadLength s) : ¬ Safe ⟨s, parseRequest s⟩ := by
  obtain ⟨ctx, hp, bad⟩ := bad
  rcases parseRequest_cases h with ⟨none, _⟩ | ⟨ctx', _, only, sound, hparse⟩
  · exact absurd hp (none ctx)
  · obtain rfl := only ctx hp
    have unsafeThere := bad.not_safe request_implements request_keeps sound
    rintro ⟨status, s', out, answered⟩
    rw [show Reader.Call.result _ = _ from hparse] at out
    cases hout : HTTPParser.parseRequest ⟨ctx, s.buf⟩ with
    | error f =>
        rw [resume_fault hout] at out
        cases out
    | ok outcome =>
        obtain ⟨status', q⟩ := outcome
        rw [resume_ok hout] at out
        obtain ⟨rfl, rfl⟩ := Prod.mk.inj (Except.ok.inj out)
        refine unsafeThere ⟨status', q, hout, fun hs => ?_⟩
        obtain ⟨_, hctx, done⟩ := answered hs
        cases hctx
        exact done

/-- Whatever a peer sends, and however it arrives, no call of either parser throws or
answers with a payload of the wrong length, exactly if none meets a bad length. -/
theorem lengths_safe_iff (wf : b.Wf) (storage : 0 < b.data.length) (chunks : List Bytes) :
    ((∀ c ∈ requests.calls ⟨none, b⟩ chunks, Safe c) ↔
      ∀ c ∈ requests.calls ⟨none, b⟩ chunks, ¬ BadLength c.entry) ∧
    ((∀ c ∈ responses.calls ⟨{}, b⟩ chunks, HTTPParser.Safe c) ↔
      ∀ c ∈ responses.calls ⟨{}, b⟩ chunks,
        ¬ HTTPParser.BadLength HTTPContext.response c.entry) := by
  constructor
  · exact Reader.calls_safe_iff Sound (fun chunk h => h.recv chunk)
      (fun h good => h.call good) (fun h bad => bad.not_safe h)
      (Or.inl ⟨rfl, wf, storage⟩) chunks
  · refine Reader.calls_safe_iff HTTPParser.Sound (fun chunk h => h.recv chunk)
      (fun {p} h good => ?_) (fun h bad => bad.not_safe response_implements response_keeps h)
      (.fresh wf storage) chunks
    obtain ⟨status, q, hq, sound, answered⟩ := h.call response_implements response_keeps good
    exact ⟨status, q, hq, sound, status, q, hq, answered⟩

/-- A request whose `Content-Length` is not a number. -/
def wordyLength : Bytes := ascii "POST /a/b HTTP/1.1\r\nContent-Length: ten\r\n\r\n"

theorem wordyLength_safe_iff :
    (∀ c ∈ requests.calls ⟨none, Buffer.ofSize 64⟩ [wordyLength], Safe c) ↔
      ∀ c ∈ requests.calls ⟨none, Buffer.ofSize 64⟩ [wordyLength], ¬ BadLength c.entry :=
  (lengths_safe_iff (Buffer.ofSize_wf 64) (by decide) [wordyLength]).1

theorem wordyLength_throws :
    ¬ ∀ b : Buffer, b.Wf → 0 < b.data.length → ∀ chunks : List Bytes,
      (∀ c ∈ requests.calls ⟨none, b⟩ chunks, Safe c) ∧
        ∀ c ∈ responses.calls ⟨{}, b⟩ chunks, HTTPParser.Safe c := by
  intro claim
  have safe := (claim (Buffer.ofSize 64) (Buffer.ofSize_wf 64) (by decide) [wordyLength]).1
  have thrown : requests.parse (requests.recv ⟨none, Buffer.ofSize 64⟩ wordyLength) =
      .error .thrown := by
    decide +kernel
  have first := @Reader.first_mem_calls _ requests ⟨none, Buffer.ofSize 64⟩ wordyLength []
  rw [thrown] at first
  obtain ⟨_, _, out, _⟩ := safe _ first
  cases out

end HTTPProtocol
end SmallRpc
