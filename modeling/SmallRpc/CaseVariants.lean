import SmallRpc.HeaderFields
import SmallRpc.RequestLine

/-! Spellings of one message: header names and the `Keep-Alive` token in other letter
cases. The parser compares them exactly, so what it makes of a message may depend on its
spelling. -/
namespace SmallRpc
open Resumable

/-- A letter in lower case. -/
def lower (c : UInt8) : UInt8 := if 65 ≤ c ∧ c ≤ 90 then c + 32 else c

def lowerCase (w : Bytes) : Bytes := w.map lower

theorem lower_upper {c : UInt8} (h : 65 ≤ c ∧ c ≤ 90) : 97 ≤ (lower c).toNat := by
  obtain ⟨low, high⟩ := h
  rw [UInt8.le_iff_toNat_le] at low high
  have low' : 65 ≤ c.toNat := low
  have high' : c.toNat ≤ 90 := high
  rw [lower, if_pos ⟨UInt8.le_iff_toNat_le.mpr low, UInt8.le_iff_toNat_le.mpr high⟩,
    UInt8.toNat_add]
  change 97 ≤ (c.toNat + 32) % 2 ^ 8
  omega

/-- Only letters change. -/
theorem lower_eq_iff {c d : UInt8} (h : d.toNat < 65) : lower c = d ↔ c = d := by
  by_cases upper : 65 ≤ c ∧ c ≤ 90
  · have shifted := lower_upper upper
    refine iff_of_false (fun same => ?_) fun same => ?_
    · rw [same] at shifted
      omega
    · rw [same, UInt8.le_iff_toNat_le] at upper
      have low : 65 ≤ d.toNat := upper.1
      omega
  · rw [lower, if_neg upper]

/-- Trimming does not look at letters. -/
theorem lowerCase_trim (w : Bytes) : lowerCase (trim w) = trim (lowerCase w) := by
  have blank : (fun c : UInt8 => decide (c = 32)) ∘ lower = fun c => decide (c = 32) := by
    funext c
    exact decide_eq_decide.mpr (lower_eq_iff (by decide))
  simp only [lowerCase, trim, List.rdropWhile, List.dropWhile_map, blank, ← List.map_reverse]

variable {u v w : Bytes}

theorem lowerCase_mem {c : UInt8} (h : c.toNat < 65) (same : lowerCase v = lowerCase w) :
    c ∈ v ↔ c ∈ w := by
  have inside : ∀ u : Bytes, c ∈ lowerCase u ↔ c ∈ u := by
    intro u
    simp only [lowerCase, List.mem_map, lower_eq_iff h, exists_eq_right]
  rw [← inside v, same, inside w]

theorem lowerCase_plain (plain : ∀ c ∈ w, c.toNat < 65) (h : lowerCase v = w) : v = w := by
  induction w generalizing v with
  | nil => exact List.map_eq_nil_iff.mp h
  | cons c w ih =>
      obtain ⟨d, v, rfl, head, tail⟩ := List.map_eq_cons_iff.mp h
      rw [(lower_eq_iff (plain c List.mem_cons_self)).mp head,
        ih (fun e he => plain e (List.mem_cons_of_mem _ he)) tail]

theorem lowerCase_crlf (same : lowerCase v = lowerCase w) (h : Buffer.crlf <:+: v) :
    Buffer.crlf <:+: w := by
  obtain ⟨front, back, rfl⟩ := h
  have split : lowerCase w = lowerCase front ++ Buffer.crlf ++ lowerCase back := by
    rw [← same]
    simp [lowerCase, Buffer.crlf, lower]
  obtain ⟨w₁, w₂, rfl, h₁, _⟩ := List.map_eq_append_iff.mp split
  obtain ⟨w₀, brk, rfl, _, h₂⟩ := List.map_eq_append_iff.mp h₁
  have same : brk = Buffer.crlf := lowerCase_plain (by simp [Buffer.crlf]) h₂
  exact ⟨w₀, w₂, by rw [same]⟩

theorem lowerCase_length (same : lowerCase v = lowerCase w) : v.length = w.length := by
  have length := congrArg List.length same
  rwa [lowerCase, lowerCase, List.length_map, List.length_map] at length

theorem lower_lower (c : UInt8) : lower (lower c) = lower c := by
  by_cases upper : 65 ≤ c ∧ c ≤ 90
  · have shifted := lower_upper upper
    rw [lower, if_neg]
    rintro ⟨_, high⟩
    rw [UInt8.le_iff_toNat_le] at high
    have high' : (lower c).toNat ≤ 90 := high
    omega
  · have same : lower c = c := if_neg upper
    rw [same, same]

theorem lowerCase_lowerCase (w : Bytes) : lowerCase (lowerCase w) = lowerCase w := by
  rw [lowerCase, lowerCase, List.map_map]
  exact List.map_congr_left fun c _ => lower_lower c

theorem trim_split (w : Bytes) : ∃ front back, w = front ++ (trim w ++ back) ∧
    (∀ c ∈ front, c = 32) ∧ ∀ c ∈ back, c = 32 := by
  refine ⟨w.takeWhile (· = 32), (w.dropWhile (· = 32)).rtakeWhile (· = 32), ?_, ?_, ?_⟩
  · rw [trim, List.rdropWhile_append_rtakeWhile, List.takeWhile_append_dropWhile]
  · intro c hc
    simpa using List.mem_takeWhile_imp hc
  · intro c hc
    simpa using List.mem_rtakeWhile_imp hc

/-- A word between blanks can be spelled as any other word of the same letters. -/
theorem exists_spelling (nonempty : u ≠ []) (front : u.dropWhile (· = 32) = u)
    (back : u.rdropWhile (· = 32) = u) (same : lowerCase (trim w) = lowerCase u) :
    ∃ v, lowerCase v = lowerCase w ∧ trim v = u := by
  obtain ⟨before, behind, split, blank, blank'⟩ := trim_split w
  refine ⟨before ++ (u ++ behind), ?_, ?_⟩
  · have word := same.symm
    conv_rhs => rw [split]
    unfold lowerCase at word ⊢
    rw [List.map_append, List.map_append, word, List.map_append, List.map_append]
  · have filled : ¬ (u.dropWhile (· = 32)).isEmpty = true := by
      rw [front, List.isEmpty_iff]
      exact nonempty
    have blanks : ∀ c ∈ behind.reverse, decide (c = 32) = true := fun c hc =>
      decide_eq_true (blank' c (List.mem_reverse.mp hc))
    rw [trim, List.dropWhile_append_of_pos (fun c hc => decide_eq_true (blank c hc)),
      List.dropWhile_append, if_neg filled, front, List.rdropWhile, List.reverse_append,
      List.dropWhile_append_of_pos blanks]
    exact back
namespace Field
variable {f g : Field} {before : ConnType}

/-- Its key is one of the two names, in whatever letters. -/
def Named (f : Field) : Prop :=
  lowerCase (trim f.key) = lowerCase (ascii "Connection") ∨
    lowerCase (trim f.key) = lowerCase (ascii "Content-Length")

instance : Decidable f.Named := inferInstanceAs (Decidable (_ ∨ _))

/-- The same field in another spelling: the letters of the two names may change, and those
of the token `Keep-Alive` in a `Connection` field. -/
structure Respelled (f g : Field) : Prop where
  key : g.key = f.key ∨ f.Named ∧ lowerCase g.key = lowerCase f.key
  value : g.value = f.value ∨ lowerCase (trim f.key) = lowerCase (ascii "Connection") ∧
    lowerCase (trim f.value) = lowerCase (ascii "Keep-Alive") ∧ lowerCase g.value = lowerCase f.value

/-- Spelled in whatever way, the field declares no length but 0, and asks for no connection
that is not there before. -/
structure Plain (before : ConnType) (f : Field) : Prop where
  length : lowerCase (trim f.key) = lowerCase (ascii "Content-Length") → trim f.value ≠ [] →
    stoi (trim f.value) = .ok 0
  type : lowerCase (trim f.key) = lowerCase (ascii "Connection") →
    lowerCase (trim f.value) = lowerCase (ascii "Keep-Alive") → before = .single

theorem Respelled.lowerKey (h : Respelled f g) : lowerCase g.key = lowerCase f.key :=
  h.key.elim (fun same => congrArg lowerCase same) fun both => both.2

theorem Respelled.lowerValue (h : Respelled f g) : lowerCase g.value = lowerCase f.value :=
  h.value.elim (fun same => congrArg lowerCase same) fun both => both.2.2

theorem Respelled.valid (h : Respelled f g) (valid : f.Valid) : g.Valid := by
  have line : lowerCase g.line = lowerCase f.line := by
    have key := h.lowerKey
    have value := h.lowerValue
    unfold lowerCase at key value ⊢
    simp only [Field.line, List.map_append, List.map_cons, key, value]
  refine ⟨fun none => valid.key ?_, ?_, fun brk => valid.noBreak (lowerCase_crlf line brk), ?_⟩
  · rw [← List.length_eq_zero_iff, ← lowerCase_length h.lowerKey, none]
    rfl
  · rw [lowerCase_mem (by decide) h.lowerKey]
    exact valid.noColon
  · rw [lowerCase_length line]
    exact valid.fits

theorem Plain.respelled (plain : f.Plain before) (h : Respelled f g) : g.Plain before := by
  have key : lowerCase (trim g.key) = lowerCase (trim f.key) := by
    rw [lowerCase_trim, h.lowerKey, ← lowerCase_trim]
  have value : lowerCase (trim g.value) = lowerCase (trim f.value) := by
    rw [lowerCase_trim, h.lowerValue, ← lowerCase_trim]
  refine ⟨fun named => ?_, fun named token => ?_⟩
  · rw [key] at named
    rcases h.value with same | ⟨connection, _⟩
    · rw [same]
      exact plain.length named
    · exact absurd (connection.symm.trans named) (by decide)
  · exact plain.type (key.symm.trans named) (value.symm.trans token)

/-- As spelled, the field leaves a connection type `k` and a length `n` as they are. -/
structure Harmless (k : ConnType) (n : Int) (f : Field) : Prop where
  length : trim f.key = HTTPContext.contentLength → trim f.value ≠ [] → stoi (trim f.value) = .ok n
  type : trim f.key = ascii "Connection" → trim f.value = ascii "Keep-Alive" → k = .single

theorem Plain.harmless {k : ConnType} {f : Field} (h : f.Plain k) : f.Harmless k 0 :=
  ⟨fun key => h.length (congrArg lowerCase key), fun key value =>
    h.type (congrArg lowerCase key) (congrArg lowerCase value)⟩

theorem Respelled.refl (f : Field) : f.Respelled f := ⟨.inl rfl, .inl rfl⟩

instance : Decidable f.Valid := decidable_of_iff
  (f.key ≠ [] ∧ 58 ∉ f.key ∧ ¬ Buffer.crlf <:+: f.line ∧ f.line.length ≤ 65534)
  ⟨fun h => ⟨h.1, h.2.1, h.2.2.1, h.2.2.2⟩, fun h => ⟨h.key, h.noColon, h.noBreak, h.fits⟩⟩

/-- The spelling that the parser does not know. -/
def dull (f : Field) : Field := if f.Named then { f with key := lowerCase f.key } else f

theorem respelled_dull (f : Field) : f.Respelled f.dull := by
  unfold dull
  split_ifs with named
  · exact ⟨.inr ⟨named, lowerCase_lowerCase f.key⟩, .inl rfl⟩
  · exact .refl f

theorem dull_key {name : Bytes} (upper : lowerCase name ≠ name)
    (h : lowerCase (trim f.key) = lowerCase name → f.Named) : trim f.dull.key ≠ name := by
  intro same
  unfold dull at same
  split_ifs at same with named
  · simp only [← lowerCase_trim] at same
    rw [← same, lowerCase_lowerCase] at upper
    exact upper rfl
  · exact named (h (congrArg lowerCase same))

theorem dull_harmless (f : Field) (k : ConnType) (n : Int) : f.dull.Harmless k n :=
  ⟨fun key => absurd key (dull_key (by decide) .inr), fun key =>
    absurd key (dull_key (by decide) .inl)⟩

/-- The spelling in which a length is read. -/
theorem exists_length (named : lowerCase (trim f.key) = lowerCase (ascii "Content-Length")) :
    ∃ g, f.Respelled g ∧ trim g.key = HTTPContext.contentLength ∧ g.value = f.value := by
  obtain ⟨key, same, spelled⟩ := exists_spelling (u := ascii "Content-Length") (by decide) (by decide)
    (by decide) named
  exact ⟨⟨key, f.value⟩, ⟨.inr ⟨.inr named, same⟩, .inl rfl⟩, spelled, rfl⟩

/-- The spelling in which a connection type is read. -/
theorem exists_type (named : lowerCase (trim f.key) = lowerCase (ascii "Connection"))
    (token : lowerCase (trim f.value) = lowerCase (ascii "Keep-Alive")) :
    ∃ g, f.Respelled g ∧ trim g.key = ascii "Connection" ∧ trim g.value = ascii "Keep-Alive" := by
  obtain ⟨key, same, spelled⟩ := exists_spelling (u := ascii "Connection") (by decide) (by decide)
    (by decide) named
  obtain ⟨value, same', spelled'⟩ := exists_spelling (u := ascii "Keep-Alive") (by decide)
    (by decide) (by decide) token
  exact ⟨⟨key, value⟩, ⟨.inr ⟨.inl named, same⟩, .inr ⟨named, token, same'⟩⟩, spelled, spelled'⟩

end Field

/-- A first line, header lines, and what is behind them. -/
structure Message where
  start : Bytes
  fields : List Field
  rest : Bytes
  noBreak : ¬ Buffer.crlf <:+: start
  fits : start.length ≤ 65534
  valid : ∀ f ∈ fields, f.Valid

namespace Message

def bytes (m : Message) : Bytes := m.start ++ Buffer.crlf ++ (Field.lines m.fields ++ m.rest)

structure Respelled (m m' : Message) : Prop where
  start : m'.start = m.start
  fields : List.Forall₂ Field.Respelled m.fields m'.fields
  rest : m'.rest = m.rest

variable {m : Message} {f g : Field} {fs gs : List Field}

theorem valid_of_respelled (valid : ∀ f ∈ fs, f.Valid) (h : List.Forall₂ Field.Respelled fs gs) :
    ∀ g ∈ gs, g.Valid := by
  induction h with
  | nil => exact valid
  | cons one _ ih =>
      rw [List.forall_mem_cons] at valid ⊢
      exact ⟨one.valid valid.1, ih valid.2⟩

theorem plain_of_respelled {k : ConnType} (plain : ∀ f ∈ fs, f.Plain k) (h : List.Forall₂ Field.Respelled fs gs) :
    ∀ g ∈ gs, g.Plain k := by
  induction h with
  | nil => exact plain
  | cons one _ ih =>
      rw [List.forall_mem_cons] at plain ⊢
      exact ⟨plain.1.respelled one, ih plain.2⟩

/-- The same message with its fields in other spellings. -/
def spelled (m : Message) (fs : List Field) (h : List.Forall₂ Field.Respelled m.fields fs) :
    Message :=
  { m with fields := fs, valid := valid_of_respelled m.valid h }

theorem respelled_spelled (h : List.Forall₂ Field.Respelled m.fields fs) :
    m.Respelled (m.spelled fs h) := ⟨rfl, h, rfl⟩

theorem forall₂_dull (fs : List Field) : List.Forall₂ Field.Respelled fs (fs.map Field.dull) := by
  induction fs with
  | nil => exact .nil
  | cons f fs ih => exact .cons f.respelled_dull ih

/-- A message is split up until no field is left behind the last. -/
theorem exists_whole (m : Message) : ∃ m₁ : Message, m₁.bytes = m.bytes ∧ m₁.start = m.start ∧
    (∀ f ∈ m.fields, f ∈ m₁.fields) ∧ ∀ f, HTTPContext.headerShape m₁.rest ≠ .field f := by
  generalize size : m.rest.length = n
  induction n using Nat.strong_induction_on generalizing m with
  | _ n ih =>
    by_cases more : ∃ f, HTTPContext.headerShape m.rest = .field f
    · obtain ⟨f, shape⟩ := more
      obtain ⟨valid, split⟩ := HTTPContext.headerShape_field shape
      have shorter : (m.rest.drop (f.line.length + 2)).length < n := by
        have length := congrArg List.length split
        have two : Buffer.crlf.length = 2 := rfl
        simp only [List.length_append, two] at length
        omega
      obtain ⟨m₁, bytes, start, fields, last⟩ := ih _ shorter
        { m with
          fields := m.fields ++ [f]
          rest := m.rest.drop (f.line.length + 2)
          valid := List.forall_mem_append.mpr ⟨m.valid, by simpa using valid⟩ } rfl
      refine ⟨m₁, bytes.trans ?_, start, fun g hg => fields g (List.mem_append_left _ hg), last⟩
      have whole : m.rest = Field.lines [f] ++ m.rest.drop (f.line.length + 2) := by
        conv_lhs => rw [split]
        simp [Field.lines]
      conv_rhs => rw [Message.bytes, whole]
      simp [Message.bytes, Field.lines]
    · exact ⟨m, rfl, rfl, fun _ => id, fun f shape => more ⟨f, shape⟩⟩

end Message

namespace HTTPContext

/-- Among the header lines, with this type and length so far. -/
structure Level (k : ConnType) (n : Int) (c : HTTPContext) : Prop where
  stage : c.stage = 1
  type : c.connType = k
  size : c.bodySize = n

variable {c d s t u u' : HTTPContext} {k : ConnType} {n : Int} {f : Field} {fs : List Field}
  {w x : Bytes} {r : Option HeadEnd} {M : Machine UInt8 HTTPContext HeadEnd}
  {stage : HTTPParser → Except Fault (Flow HTTPParser)}

theorem record_level (harmless : f.Harmless k n) (level : Level k n c) :
    ∃ d, c.record f = .ok d ∧ Level k n d := by
  cases added : c.record f with
  | error fault =>
      obtain ⟨key, value, rejected⟩ := addHeader_fault added
      rw [harmless.length key value] at rejected
      cases rejected
  | ok d =>
      refine ⟨d, rfl, ?_⟩
      cases added_of_ok added with
      | ignored _ same => rwa [same]
      | @recorded bodySize new size same =>
          subst same
          refine ⟨level.stage, ?_, ?_⟩
          · simp only
            split_ifs with token
            · exact (harmless.type token.1 token.2).symm
            · exact level.type
          · split_ifs at size with length
            · exact Except.ok.inj (size.symm.trans (harmless.length length new.2.1))
            · exact size.trans level.size

theorem recordAll_level (harmless : ∀ f ∈ fs, f.Harmless k n) (level : Level k n c) :
    ∃ d, c.recordAll fs = .ok d ∧ Level k n d := by
  induction fs generalizing c with
  | nil => exact ⟨c, rfl, level⟩
  | cons f fs ih =>
      obtain ⟨e, one, level'⟩ := record_level (harmless f List.mem_cons_self) level
      obtain ⟨d, all, level''⟩ := ih (fun g hg => harmless g (List.mem_cons_of_mem _ hg)) level'
      refine ⟨d, ?_, level''⟩
      rw [recordAll_cons, one]
      exact all

/-- Fields that are recorded are read one by one. -/
theorem fields_drain (imp : HTTPParser.Implements stage M) (h1 : s.stage = 1)
    (valid : ∀ f ∈ fs, f.Valid) (all : s.recordAll fs = .ok u) (rest : Drains M u w r t x) :
    Drains M s (Field.lines fs ++ w) r t x := by
  induction fs generalizing s with
  | nil =>
      cases all
      exact rest
  | cons f fs ih =>
      rw [recordAll_cons] at all
      obtain ⟨e, one, all⟩ := bind_ok.mp all
      have line : Field.lines (f :: fs) ++ w = f.line ++ Buffer.crlf ++ (Field.lines fs ++ w) := by
        simp [Field.lines]
      have behind : (f.line ++ Buffer.crlf ++ (Field.lines fs ++ w)).drop (f.line.length + 2) =
          Field.lines fs ++ w := by
        rw [← List.drop_drop, List.append_assoc, List.drop_left]
        rfl
      have hv : M.stage s (f.line ++ Buffer.crlf ++ (Field.lines fs ++ w)) =
          .advance e (f.line.length + 2) := by
        rw [imp.headers h1, headerVerdict_shape, headerShape_line (valid f List.mem_cons_self),
          shapeVerdict, one]
      rw [line]
      refine .advance hv ?_
      rw [behind]
      exact ih ((addHeader_recorded one).1.trans h1) (fun g hg => valid g (List.mem_cons_of_mem _ hg))
        all

/-- A field that `stoi` rejects ends the reading. -/
theorem fields_throw (imp : HTTPParser.Implements stage M) (h1 : s.stage = 1)
    (valid : f.Valid) (fault : ∀ d, s.record f ≠ .ok d) (w : Bytes) :
    Drains M s (f.line ++ Buffer.crlf ++ w) (some .thrown) s (f.line ++ Buffer.crlf ++ w) := by
  apply Drains.stop
  rw [imp.headers h1, headerVerdict_shape, headerShape_line valid, shapeVerdict]
  cases one : s.record f with
  | error e => rfl
  | ok d => exact absurd one (fault d)

/-- Two contexts on the same level read a stream of harmless fields alike. -/
theorem drains_alike (imp : HTTPParser.Implements stage M) (h : Drains M u w r t x)
    (level : Level k n u) (level' : Level k n u')
    (harmless : ∀ fs v, (∀ f ∈ fs, f.Valid) → w = Field.lines fs ++ v → ∀ f ∈ fs, f.Harmless k n) :
    ∃ t', Drains M u' w r t' x ∧ r ≠ some .thrown ∧ (t.connType = k ∧ t.bodySize = n) ∧
      (t'.connType = k ∧ t'.bodySize = n) := by
  induction h generalizing u' with
  | @more s w hv =>
      rw [imp.headers level.stage, headerVerdict_shape] at hv
      refine ⟨u', .more ?_, by simp, ⟨level.type, level.size⟩, level'.type, level'.size⟩
      rw [imp.headers level'.stage, headerVerdict_shape]
      cases shape : headerShape w with
      | more => rfl
      | field f =>
          rw [shape, shapeVerdict] at hv
          split at hv <;> cases hv
      | _ =>
          rw [shape] at hv
          cases hv
  | @stop s w o hv =>
      rw [imp.headers level.stage, headerVerdict_shape] at hv
      cases shape : headerShape w with
      | failed =>
          rw [shape] at hv
          cases hv
          refine ⟨u', .stop ?_, by simp, ⟨level.type, level.size⟩, level'.type, level'.size⟩
          rw [imp.headers level'.stage, headerVerdict_shape, shape]
          rfl
      | field f =>
          obtain ⟨valid, bytes⟩ := headerShape_field shape
          have one : Field.lines [f] = f.line ++ Buffer.crlf := by simp [Field.lines]
          have here := harmless [f] (w.drop (f.line.length + 2)) (by simpa using valid)
            (by rw [one]; exact bytes) f List.mem_cons_self
          obtain ⟨d, recorded, _⟩ := record_level here level
          rw [shape, shapeVerdict, recorded] at hv
          cases hv
      | _ =>
          rw [shape] at hv
          cases hv
  | @advance s w s' m r t x hv rest ih =>
      rw [imp.headers level.stage, headerVerdict_shape] at hv
      cases shape : headerShape w with
      | last =>
          rw [shape] at hv
          cases hv
          obtain ⟨rfl, rfl, rfl⟩ := rest.unique (.stop (imp.headed le_rfl))
          have hv : M.stage u' _ = .advance { u' with stage := 2 } 2 :=
            (imp.headers level'.stage).trans (by rw [headerVerdict_shape, shape]; rfl)
          exact ⟨{ u' with stage := 2 }, .advance hv (.stop (imp.headed le_rfl)), by simp,
            ⟨level.type, level.size⟩, level'.type, level'.size⟩
      | field f =>
          obtain ⟨valid, bytes⟩ := headerShape_field shape
          have one : Field.lines [f] = f.line ++ Buffer.crlf := by simp [Field.lines]
          have here := harmless [f] (w.drop (f.line.length + 2)) (by simpa using valid)
            (by rw [one]; exact bytes) f List.mem_cons_self
          obtain ⟨d, recorded, next⟩ := record_level here level
          obtain ⟨d', recorded', next'⟩ := record_level here level'
          rw [shape, shapeVerdict, recorded] at hv
          cases hv
          obtain ⟨t', drains, facts⟩ := ih next next' fun fs v valids same g hg => by
            refine harmless (f :: fs) v (List.forall_mem_cons.mpr ⟨valid, valids⟩) ?_ g
              (List.mem_cons_of_mem _ hg)
            rw [bytes, same]
            simp [Field.lines]
          refine ⟨t', .advance ?_ drains, facts⟩
          rw [imp.headers level'.stage, headerVerdict_shape, shape, shapeVerdict, recorded']
      | _ =>
          rw [shape] at hv
          cases hv

/-- Behind the last field a stream leaves the level as it is. -/
theorem rest_level (imp : HTTPParser.Implements stage M) (last : ∀ f, headerShape w ≠ .field f)
    (level : Level k n u) : ∃ r t x, Drains M u w r t x ∧ r ≠ some .thrown ∧ t.connType = k ∧
      t.bodySize = n := by
  obtain ⟨r, t, x, drains⟩ := Drains.total M u w
  obtain ⟨_, _, safe, size, _⟩ := drains_alike imp drains level level fun fs v valid split => by
    cases fs with
    | nil => simp
    | cons f fs =>
        have front : w = f.line ++ Buffer.crlf ++ (Field.lines fs ++ v) := by
          rw [split]
          simp [Field.lines]
        refine absurd ?_ (last f)
        rw [front]
        exact headerShape_line (valid f List.mem_cons_self) _
  exact ⟨r, t, x, drains, safe, size⟩

/-- A context that has recorded none of the two names. -/
theorem first_dull (fs : List Field) {name : Bytes} (upper : lowerCase name ≠ name)
    (named : ∀ f : Field, lowerCase (trim f.key) = lowerCase name → f.Named) :
    Field.first (fs.map Field.dull) name = none := by
  induction fs with
  | nil => rfl
  | cons f fs ih =>
      rw [List.map_cons, Field.first, if_neg fun same => Field.dull_key upper (named f) same.1]
      exact ih

end HTTPContext

namespace HTTPParser
open HTTPContext

/-- A parser whose first line is read by `start`. -/
structure Parses (stage : HTTPParser → Except Fault (Flow HTTPParser))
    (M : Machine UInt8 HTTPContext HeadEnd) (start : HTTPContext → Bytes → Option HTTPContext) :
    Prop extends Implements stage M where
  passes : ∀ {p flow}, stage p = .ok flow → Passed p flow.state
  keeps : Keeps M
  verdict : ∀ {s line}, s.stage = 0 → ¬ Buffer.crlf <:+: line → line.length ≤ 65534 → ∀ v,
    M.stage s (line ++ Buffer.crlf ++ v) = match start s line with
      | none => .stop .failed
      | some s' => .advance { s' with stage := 1 } (line.length + 2)
  untouched : ∀ {s line s'}, start s line = some s' →
    s'.headers = s.headers ∧ s'.connType = s.connType ∧ s'.bodySize = s.bodySize

theorem takeUrl_type {s s' : HTTPContext} {line : Bytes} {offset : Nat}
    (h : takeUrl s line offset = some s') : s'.connType = s.connType := by
  unfold takeUrl at h
  simp only at h
  split_ifs at h
  split at h
  · cases h
  · split_ifs at h
    obtain rfl := Option.some.inj h
    unfold takeTarget
    split <;> rfl

theorem request_parses : Parses requestStage HTTPContext.request takeRequestLine where
  toImplements := request_implements
  passes := requestStage_passed
  keeps := request_keeps
  verdict {s line} h0 noBreak fits v := by
    change requestVerdict s _ = _
    have front : (line ++ Buffer.crlf ++ v).take line.length = line := by
      rw [List.append_assoc, List.take_left]
    cases taken : takeRequestLine s line <;>
      simp only [requestVerdict, h0, requestLineVerdict, onLine, lineEnd_first noBreak fits, front, taken]
  untouched {s line s'} h := by
    unfold takeRequestLine at h
    simp only at h
    split_ifs at h
    obtain ⟨headers, bodySize⟩ := takeUrl_keeps h
    have type := takeUrl_type h
    exact ⟨headers, type, bodySize⟩

theorem response_parses : Parses responseStage HTTPContext.response fun s _ => some s where
  toImplements := response_implements
  passes := responseStage_passed
  keeps := response_keeps
  verdict {s line} h0 noBreak fits v := by
    change responseVerdict s _ = _
    simp only [responseVerdict, h0, responseLineVerdict, onLine, lineEnd_first noBreak fits]
  untouched h := by
    cases h
    exact ⟨rfl, rfl, rfl⟩

/-- What is seen of a call: its status, and the connection type, the body size and the
payload of the context. -/
def seen (out : Except Fault (ParseProtocolStatus × HTTPParser)) :
    Except Fault (ParseProtocolStatus × ConnType × Int × Except Fault Bytes) := do
  let (status, p) ← out
  return (status, p.ctx.connType, p.ctx.bodySize, p.ctx.payloadView.str p.buf)

/-- The status and the payload of a message that declares no body. -/
def bodiless : Option HeadEnd → Bytes → ParseProtocolStatus × Except Fault Bytes
  | none, _ => (.noEnoughData, .ok [])
  | some .headed, x => (if 0 ≤ castInt x.length then .success else .noEnoughData, .ok [])
  | some _, _ => (.error, .ok [])

variable {stage : HTTPParser → Except Fault (Flow HTTPParser)}
  {M : Machine UInt8 HTTPContext HeadEnd} {start : HTTPContext → Bytes → Option HTTPContext}
  {p q : HTTPParser} {s s' t u : HTTPContext} {w x : Bytes} {r : Option HeadEnd} {k : ConnType}
  {n : Int} {m : Message} {b : Buffer} {f g : Field} {fs gs : List Field}

theorem Views.null (h : q.Views) (early : q.ctx.stage < 3) :
    q.ctx.payloadView.str q.buf = .ok [] := by
  rw [h.early early]
  rfl

/-- A call, by how the head machine ends. -/
theorem seen_drains (parses : Parses stage M start) (h : Matches p s w) (views : p.Views)
    (low : s.stage ≤ 2) (drains : Drains M s w r t x) :
    (r = some .thrown ∧ seen (runStages stage (3 - p.ctx.stage) p) = .error .thrown) ∨
      (r ≠ some .thrown ∧ ∃ status str, seen (runStages stage (3 - p.ctx.stage) p) =
        .ok (status, t.connType, t.bodySize, str) ∧
          (t.bodySize = 0 → (status, str) = bodiless r x)) := by
  have low' : t.stage ≤ 2 := drains.invariant (P := fun s => s.stage ≤ 2) low
    fun hv _ => (parses.keeps hv).1
  have passed : ∀ {status q}, runStages stage (3 - p.ctx.stage) p = .ok (status, q) → Passed p q :=
    fun h => runStages_rel h .refl (fun _ _ _ h k => h.trans k) fun _ _ => parses.passes
  have outcome := call_outcome parses.toImplements h drains
  cases outcome with
  | thrown out =>
      rw [out]
      exact .inl ⟨rfl, rfl⟩
  | @waits q out moved buf =>
      have null := ((passed out).views moved.wf views).null (by rw [moved.stage_eq]; omega)
      refine .inr ⟨by simp, .noEnoughData, .ok [], ?_, fun _ => rfl⟩
      rw [out, ← moved.bare]
      simp only [seen, bind, Except.bind, pure, Except.pure, null]
      rfl
  | @failed q out kept buf =>
      have wf : q.buf.Wf := by
        rw [buf]
        exact h.wf.retrieve (by rw [h.unread]; exact Nat.sub_le _ _)
      have null := ((passed out).views wf views).null (by rw [kept.stage]; omega)
      refine .inr ⟨by simp, .error, .ok [], ?_, fun _ => rfl⟩
      rw [out, ← kept.connType, ← kept.bodySize]
      simp only [seen, bind, Except.bind, pure, Except.pure, null]
  | @headed q out moved h2 buf =>
      refine .inr ⟨by simp, ?_⟩
      have type : q.ctx.connType = t.connType := by
        rw [← moved.bare]
        rfl
      have size : q.ctx.bodySize = t.bodySize := by
        rw [← moved.bare]
        rfl
      have call := body_call parses.toImplements moved (le_antisymm low' h2)
      rw [call] at out
      rw [out]
      split_ifs with fits
      · refine ⟨.success, (BufferView.ofLength q.buf.rindex t.bodySize).str q.buf, ?_, fun none => ?_⟩
        · simp only [seen, bind, Except.bind, pure, Except.pure, type, size]
        · rw [none] at fits
          have payload := payload_str moved.wf le_rfl (Int.natCast_nonneg q.buf.unread.length)
          rw [none, payload, bodiless, if_pos fits]
          simp
      · rw [if_neg fits] at out
        have null := ((passed out).views moved.wf views).null (by rw [moved.stage_eq]; omega)
        refine ⟨.noEnoughData, .ok [], ?_, fun none => ?_⟩
        · simp only [seen, bind, Except.bind, pure, Except.pure, type, size, null]
        · rw [none] at fits
          rw [bodiless, if_neg fits]

/-- A message is read line by line. -/
theorem drains_message (parses : Parses stage M start) (h0 : s.stage = 0)
    (begun : start s m.start = some s') (rest : Drains M { s' with stage := 1 }
      (Field.lines m.fields ++ m.rest) r t x) : Drains M s m.bytes r t x := by
  have hv := parses.verdict (s := s) h0 m.noBreak m.fits (Field.lines m.fields ++ m.rest)
  rw [begun] at hv
  refine .advance hv ?_
  have behind : m.bytes.drop (m.start.length + 2) = Field.lines m.fields ++ m.rest := by
    rw [Message.bytes, ← List.drop_drop, List.append_assoc, List.drop_left]
    rfl
  change Drains M _ (m.bytes.drop (m.start.length + 2)) r t x
  rw [behind]
  exact rest

/-- A context made for the call, with the connection type that it is given. -/
def opening (k : ConnType) (b : Buffer) : HTTPParser := ⟨{ connType := k }, b⟩

theorem seen_opening (parses : Parses stage M start) (wf : b.Wf)
    (drains : Drains M { connType := k } b.unread r t x) :
    (r = some .thrown ∧ seen (runStages stage 3 (opening k b)) = .error .thrown) ∨
      (r ≠ some .thrown ∧ ∃ status str, seen (runStages stage 3 (opening k b)) =
        .ok (status, t.connType, t.bodySize, str) ∧
          (t.bodySize = 0 → (status, str) = bodiless r x)) := by
  have fresh : (opening k b).Fresh := ⟨wf, rfl, rfl⟩
  exact seen_drains parses (frame_matches (p := opening k b) wf) fresh.views (Nat.zero_le 2) drains

/-- Every spelling of the stream is seen alike. -/
def Insensitive (parse : HTTPParser → Except Fault (ParseProtocolStatus × HTTPParser))
    (k : ConnType) (w : Bytes) : Prop :=
  ∀ m m' : Message, m.bytes = w → m.Respelled m' → ∀ b b' : Buffer, b.Wf → b'.Wf →
    b.unread = w → b'.unread = m'.bytes → seen (parse (opening k b)) = seen (parse (opening k b'))

/-- Behind a first line of this kind there are plain fields only. -/
def PlainBehind (begun : Bytes → Prop) (k : ConnType) (w : Bytes) : Prop :=
  ∀ m : Message, m.bytes = w → begun m.start → ∀ f ∈ m.fields, f.Plain k

theorem failed_message (parses : Parses stage M start) (begun : start { connType := k } m.start = none)
    (wf : b.Wf) (bytes : b.unread = m.bytes) :
    seen (runStages stage 3 (opening k b)) = .ok (.error, k, 0, .ok []) := by
  have hv := parses.verdict (s := { connType := k }) rfl m.noBreak m.fits
    (Field.lines m.fields ++ m.rest)
  rw [begun] at hv
  have drains : Drains M { connType := k } b.unread (some .failed) { connType := k } b.unread := by
    rw [bytes]
    exact .stop hv
  rcases seen_opening parses wf drains with ⟨thrown, _⟩ | ⟨_, status, str, seen, size⟩
  · cases thrown
  · rw [seen]
    obtain ⟨rfl, rfl⟩ := Prod.mk.inj (size rfl)
    rfl

theorem level_begun (parses : Parses stage M start)
    (begun : start { connType := k } m.start = some s') :
    Level k 0 { s' with stage := 1 } ∧ s'.headers = [] := by
  obtain ⟨headers, type, size⟩ := parses.untouched begun
  exact ⟨⟨rfl, type, size⟩, headers⟩

/-- Plain fields are read alike in all spellings. -/
theorem insensitive_of_plain (parses : Parses stage M start)
    (plain : PlainBehind (fun line => (start { connType := k } line).isSome) k w) :
    Insensitive (runStages stage 3) k w := by
  intro m m' bytes same b b' wf wf' hb hb'
  rw [← bytes] at hb
  cases begun : start { connType := k } m.start with
  | none =>
      have begun' : start { connType := k } m'.start = none := by rw [same.start, begun]
      rw [failed_message parses begun wf hb, failed_message parses begun' wf' hb']
  | some s' =>
      have begun' : start { connType := k } m'.start = some s' := by rw [same.start, begun]
      obtain ⟨level, _⟩ := level_begun parses begun
      have fields := plain m bytes (Option.isSome_iff_exists.mpr ⟨s', begun⟩)
      have fields' : ∀ f ∈ m'.fields, f.Plain k := Message.plain_of_respelled fields same.fields
      obtain ⟨u, all, here⟩ := recordAll_level (fun f hf => (fields f hf).harmless) level
      obtain ⟨u', all', here'⟩ := recordAll_level (fun f hf => (fields' f hf).harmless) level
      obtain ⟨r, t, x, rest⟩ := Drains.total M u m.rest
      obtain ⟨t', rest', safe, size, size'⟩ := drains_alike parses.toImplements rest here here'
        fun fs v valid split f hf => by
          refine (plain { m with
            fields := m.fields ++ fs
            rest := v
            valid := List.forall_mem_append.mpr ⟨m.valid, valid⟩ } ?_ ?_ f
              (List.mem_append_right _ hf)).harmless
          · rw [← bytes, Message.bytes, Message.bytes, split]
            simp [Field.lines]
          · exact Option.isSome_iff_exists.mpr ⟨s', begun⟩
      rw [← same.rest] at rest'
      have whole := drains_message parses rfl begun
        (fields_drain parses.toImplements rfl m.valid all rest)
      have whole' := drains_message parses rfl begun'
        (fields_drain parses.toImplements rfl m'.valid all' rest')
      rw [← hb] at whole
      rw [← hb'] at whole'
      rcases seen_opening parses wf whole with ⟨thrown, _⟩ | ⟨_, status, str, out, known⟩
      · exact absurd thrown safe
      rcases seen_opening parses wf' whole' with ⟨thrown, _⟩ | ⟨_, status', str', out', known'⟩
      · exact absurd thrown safe
      obtain ⟨rfl, rfl⟩ := Prod.mk.inj ((known size.2).trans (known' size'.2).symm)
      rw [out, out', size.1, size.2, size'.1, size'.2]

/-- A buffer that holds a stream. -/
def holding (w : Bytes) : Buffer := ⟨0, w.length, w, 0, []⟩

theorem holding_wf (w : Bytes) : (holding w).Wf := ⟨Nat.zero_le _, le_rfl⟩

theorem holding_unread (w : Bytes) : (holding w).unread = w := List.take_length

/-- Fields that are recorded show in what is seen of the message. -/
theorem seen_recorded (parses : Parses stage M start)
    (begun : start { connType := k } m.start = some s') {k' : ConnType}
    (all : recordAll { s' with stage := 1 } m.fields = .ok u) (level : Level k' n u)
    (last : ∀ f, headerShape m.rest ≠ .field f) :
    ∃ status str, seen (runStages stage 3 (opening k (holding m.bytes))) =
      .ok (status, k', n, str) := by
  obtain ⟨r, t, x, rest, safe, type, size⟩ := rest_level parses.toImplements last level
  have whole := drains_message parses rfl begun
    (fields_drain parses.toImplements rfl m.valid all rest)
  rw [← holding_unread m.bytes] at whole
  rcases seen_opening parses (holding_wf _) whole with ⟨thrown, _⟩ | ⟨_, status, str, out, _⟩
  · exact absurd thrown safe
  · rw [type, size] at out
    exact ⟨status, str, out⟩

/-- So does one that is rejected. -/
theorem seen_rejected (parses : Parses stage M start)
    (begun : start { connType := k } m.start = some s') (split : m.fields = fs ++ f :: gs)
    (all : recordAll { s' with stage := 1 } fs = .ok u) (fault : ∀ d, u.record f ≠ .ok d) :
    seen (runStages stage 3 (opening k (holding m.bytes))) = .error .thrown := by
  have valid := m.valid
  rw [split, List.forall_mem_append, List.forall_mem_cons] at valid
  have lines : Field.lines m.fields ++ m.rest =
      Field.lines fs ++ (f.line ++ Buffer.crlf ++ (Field.lines gs ++ m.rest)) := by
    simp [split, Field.lines]
  have thrown := fields_throw parses.toImplements (recordAll_stage all) valid.2.1 fault
    (Field.lines gs ++ m.rest)
  have whole := drains_message parses rfl begun (by
    rw [lines]
    exact fields_drain parses.toImplements rfl valid.1 all thrown)
  rw [← holding_unread m.bytes] at whole
  rcases seen_opening parses (holding_wf _) whole with ⟨_, out⟩ | ⟨safe, _⟩
  · exact out
  · exact absurd rfl safe

/-- One field of a message in another spelling, all others in one the parser does not know. -/
theorem seen_spelled (parses : Parses stage M start)
    (sensible : Insensitive (runStages stage 3) k m.bytes)
    (begun : start { connType := k } m.start = some s') (split : m.fields = fs ++ f :: gs)
    (last : ∀ f, headerShape m.rest ≠ .field f) (same : f.Respelled g) :
    ∃ u, (∀ name, name = contentLength ∨ name = ascii "Connection" → u.headers.lookup name = none) ∧
      Level k 0 u ∧ ∃ d, u.record g = .ok d ∧ ∀ k' n, Level k' n d → k' = k ∧ n = 0 := by
  obtain ⟨level, new⟩ := level_begun parses begun
  have dull : ∀ (k : ConnType) (n : Int) (fs : List Field), ∀ f ∈ fs.map Field.dull, f.Harmless k n := by
    intro k n fs f hf
    obtain ⟨f, _, rfl⟩ := List.mem_map.mp hf
    exact f.dull_harmless k n
  obtain ⟨u, before, here⟩ := recordAll_level (dull k 0 fs) level
  -- no field is read in the one spelling
  obtain ⟨v, all, there⟩ := recordAll_level (dull k 0 m.fields) level
  have plain := Message.forall₂_dull m.fields
  obtain ⟨status, str, out⟩ := seen_recorded (m := m.spelled _ plain) parses begun all there last
  -- one field is read in the other
  have one : List.Forall₂ Field.Respelled m.fields (fs.map Field.dull ++ g :: gs.map Field.dull) := by
    rw [split]
    exact List.rel_append (Message.forall₂_dull fs) (.cons same (Message.forall₂_dull gs))
  have alike := (sensible m _ rfl (Message.respelled_spelled plain) _ _ (holding_wf _) (holding_wf _)
    (holding_unread _) (holding_unread _)).symm.trans (sensible m _ rfl
      (Message.respelled_spelled one) _ _ (holding_wf _) (holding_wf _) (holding_unread _)
        (holding_unread _))
  rw [out] at alike
  refine ⟨u, fun name known => ?_, here, ?_⟩
  · have upper : lowerCase name ≠ name ∧
        ∀ f : Field, lowerCase (trim f.key) = lowerCase name → f.Named := by
      rcases known with rfl | rfl
      · exact ⟨by decide, fun f => .inr⟩
      · exact ⟨by decide, fun f => .inl⟩
    rw [recordAll_lookup before, first_dull fs upper.1 upper.2, Option.or_none]
    change s'.headers.lookup name = none
    rw [new]
    rfl
  · cases recorded : u.record g with
    | error fault =>
        have thrown := seen_rejected (m := m.spelled _ one) parses begun rfl before
          (by simp [recorded])
        rw [thrown] at alike
        cases alike
    | ok d =>
        refine ⟨d, rfl, fun k' n level' => ?_⟩
        obtain ⟨v', behind, there'⟩ := recordAll_level (dull k' n gs) level'
        have all' : recordAll { s' with stage := 1 } (m.spelled _ one).fields = .ok v' := by
          change recordAll _ (_ ++ _) = _
          rw [recordAll_append, before]
          change u.recordAll _ = _
          rw [recordAll_cons, recorded]
          exact behind
        obtain ⟨status', str', out'⟩ := seen_recorded (m := m.spelled _ one) parses begun all' there' last
        rw [out'] at alike
        cases alike
        exact ⟨rfl, rfl⟩

/-- Where all spellings are seen alike, the fields are plain. -/
theorem plain_of_insensitive (parses : Parses stage M start)
    (sensible : Insensitive (runStages stage 3) k w) :
    PlainBehind (fun line => (start { connType := k } line).isSome) k w := by
  intro m bytes starts f hf
  obtain ⟨m₁, bytes₁, start₁, inside, last⟩ := m.exists_whole
  rw [← bytes, ← bytes₁] at sensible
  obtain ⟨s', begun⟩ := Option.isSome_iff_exists.mp starts
  rw [← start₁] at begun
  obtain ⟨fs, gs, split⟩ := List.append_of_mem (inside f hf)
  refine ⟨fun named nonempty => ?_, fun named token => ?_⟩
  · obtain ⟨g, same, key, value⟩ := Field.exists_length named
    obtain ⟨u, absent, level, d, recorded, known⟩ := seen_spelled parses sensible begun split last same
    rw [← value] at nonempty ⊢
    have added := added_of_ok recorded
    cases added with
    | ignored old _ => exact absurd ⟨by rw [key]; decide, nonempty, absent _ (.inl key)⟩ old
    | @recorded bodySize _ size same =>
        rw [if_pos key] at size
        have other : trim g.key ≠ ascii "Connection" := by rw [key]; decide
        subst same
        rw [size, (known k bodySize ⟨level.stage, by simp [other, level.type], rfl⟩).2]
  · obtain ⟨g, same, key, value⟩ := Field.exists_type named token
    obtain ⟨u, absent, level, d, recorded, known⟩ := seen_spelled parses sensible begun split last same
    have added := added_of_ok recorded
    cases added with
    | ignored old _ =>
        exact absurd ⟨by rw [key]; decide, by rw [value]; decide, absent _ (.inr key)⟩ old
    | @recorded bodySize _ size same =>
        subst same
        exact ((known .single bodySize ⟨level.stage, by simp [key, value], rfl⟩).1).symm

/-- All spellings of a stream are seen alike exactly if it has plain fields only, or its
first line is turned down. -/
theorem insensitive_iff (k : ConnType) (w : Bytes) :
    (Insensitive parseRequest k w ↔ PlainBehind (fun line =>
      ∃ r : RequestLine, r.Valid ∧ r.method ∈ HTTPMethod.tried ∧ line = r.text) k w) ∧
    (Insensitive parseResponse k w ↔ PlainBehind (fun _ => True) k w) := by
  constructor
  · have begun : ∀ line, (takeRequestLine { connType := k } line).isSome ↔
        ∃ r : RequestLine, r.Valid ∧ r.method ∈ HTTPMethod.tried ∧ line = r.text := by
      intro line
      constructor
      · intro taken
        obtain ⟨s', taken⟩ := Option.isSome_iff_exists.mp taken
        exact takeRequestLine_some rfl taken
      · rintro ⟨r, valid, tried, rfl⟩
        rw [takeRequestLine_text valid tried]
        rfl
    rw [← funext fun line => propext (begun line)]
    exact ⟨plain_of_insensitive request_parses, insensitive_of_plain request_parses⟩
  · have begun : ∀ line : Bytes, (Option.some ({ connType := k } : HTTPContext)).isSome ↔ True :=
      fun _ => iff_of_true rfl trivial
    rw [← funext fun line => propext (begun line)]
    exact ⟨plain_of_insensitive response_parses, insensitive_of_plain response_parses⟩

/-- A request that asks for a connection of its own. -/
def asking : Message where
  start := ascii "GET /hello/world HTTP/1.1"
  fields := [⟨ascii "Content-Length", ascii " 10"⟩, ⟨ascii "Connection", ascii " Keep-Alive"⟩]
  rest := Buffer.crlf ++ ascii "helloworld"
  noBreak := by decide +kernel
  fits := by decide +kernel
  valid := by decide +kernel

/-- The token as the tests of the repository spell it. -/
def asked : Message := asking.spelled
  [⟨ascii "Content-Length", ascii " 10"⟩, ⟨ascii "Connection", ascii " Keep-alive"⟩]
  (.cons (.refl _) (.cons ⟨.inl rfl, .inr ⟨by decide +kernel, by decide +kernel, by decide +kernel⟩⟩ .nil))

theorem not_insensitive : ¬ ∀ (k : ConnType) (w : Bytes), Insensitive parseRequest k w ∧
    Insensitive parseResponse k w := by
  intro claim
  have same := (claim .short asking.bytes).1 asking asked rfl (Message.respelled_spelled _) _ _
    (holding_wf _) (holding_wf _) (holding_unread _) (holding_unread _)
  exact absurd same (by decide +kernel)

end HTTPParser
end SmallRpc
