import SmallRpc.HttpFragments

/-! Header lines as fields, and what a context keeps of a sequence of them: the map, the
body size and the connection type, all from the first occurrences. -/
namespace SmallRpc
open FirstMatch (firstMatch firstMatch_singleton_some firstMatch_singleton_split)
open Resumable

/-- A header line, its key and value not yet trimmed. -/
structure Field where
  key : Bytes
  value : Bytes
  deriving DecidableEq, Repr

namespace Field

def line (f : Field) : Bytes := f.key ++ 58 :: f.value

/-- A line that the parser takes: there is something in front of the first colon. -/
structure Valid (f : Field) : Prop where
  key : f.key ≠ []
  noColon : 58 ∉ f.key
  noBreak : ¬ Buffer.crlf <:+: f.line
  fits : f.line.length ≤ 65534

def lines (fs : List Field) : Bytes := fs.flatMap fun f => f.line ++ Buffer.crlf

/-- The trimmed value of the first field with this trimmed key in which neither is empty. -/
def first : List Field → Bytes → Option Bytes
  | [], _ => none
  | f :: fs, key =>
    if trim f.key = key ∧ trim f.key ≠ [] ∧ trim f.value ≠ [] then some (trim f.value)
    else first fs key

end Field

namespace HTTPContext
variable {c d s s' t : HTTPContext} {f : Field} {fs gs : List Field} {key value w x : Bytes}
  {M : Machine UInt8 HTTPContext HeadEnd} {r : Option HeadEnd} {n : Nat}

/-- What one field does to a context, and what a sequence of them does. -/
def record (c : HTTPContext) (f : Field) : Except Fault HTTPContext :=
  c.addHeader (trim f.key) (trim f.value)

def recordAll (c : HTTPContext) (fs : List Field) : Except Fault HTTPContext := fs.foldlM record c

/-- A header that is new and has something in it is recorded, together with what is derived
from it. -/
inductive Added (c : HTTPContext) (key value : Bytes) (d : HTTPContext) : Prop
  | ignored : ¬ (key ≠ [] ∧ value ≠ [] ∧ c.headers.lookup key = none) → d = c → Added c key value d
  | recorded {bodySize : Int} : key ≠ [] ∧ value ≠ [] ∧ c.headers.lookup key = none →
      (if key = contentLength then stoi value = .ok bodySize else bodySize = c.bodySize) →
      d = { c with
        bodySize
        connType := if key = ascii "Connection" ∧ value = ascii "Keep-Alive" then .single
          else c.connType
        headers := c.headers ++ [(key, value)] } → Added c key value d

theorem added_of_ok (h : c.addHeader key value = .ok d) : Added c key value d := by
  unfold addHeader at h
  by_cases new : key ≠ [] ∧ value ≠ [] ∧ c.headers.lookup key = none
  · rw [if_pos new] at h
    by_cases len : key = contentLength
    · have same : key = ascii "Content-Length" := len
      rw [if_pos same] at h
      obtain ⟨bodySize, size, h⟩ := bind_ok.mp h
      cases h
      exact .recorded new (by rw [if_pos len]; exact size) rfl
    · have other : key ≠ ascii "Content-Length" := len
      rw [if_neg other] at h
      cases h
      exact .recorded new (by rw [if_neg len]) rfl
  · rw [if_neg new] at h
    cases h
    exact .ignored new rfl

/-- Only a `Content-Length` can be rejected. -/
theorem addHeader_fault {fault : Fault} (h : c.addHeader key value = .error fault) :
    key = contentLength ∧ value ≠ [] ∧ stoi value = .error fault := by
  unfold addHeader at h
  by_cases new : key ≠ [] ∧ value ≠ [] ∧ c.headers.lookup key = none
  · rw [if_pos new] at h
    by_cases len : key = ascii "Content-Length"
    · rw [if_pos len] at h
      refine ⟨len, new.2.1, ?_⟩
      cases size : stoi value with
      | error e =>
          rw [size] at h
          cases h
          rfl
      | ok bodySize =>
          rw [size] at h
          cases h
    · rw [if_neg len] at h
      cases h
  · rw [if_neg new] at h
    cases h

theorem recordAll_cons : c.recordAll (f :: fs) = c.record f >>= fun d => d.recordAll fs :=
  List.foldlM_cons

theorem recordAll_append :
    c.recordAll (fs ++ gs) = c.recordAll fs >>= fun d => d.recordAll gs := List.foldlM_append

/-- The first occurrence is looked for in the front, then behind it. -/
theorem first_cons (key : Bytes) :
    Field.first (f :: fs) key = (Field.first [f] key).or (Field.first fs key) := by
  rw [Field.first, Field.first]
  split_ifs <;> rfl

theorem record_lookup (h : c.record f = .ok d) (key : Bytes) :
    d.headers.lookup key = (c.headers.lookup key).or (Field.first [f] key) := by
  cases added_of_ok h with
  | ignored old same =>
      subst same
      rw [Field.first]
      split_ifs with here
      · obtain ⟨rfl, some, some'⟩ := here
        have held : d.headers.lookup (trim f.key) ≠ none := fun none => old ⟨some, some', none⟩
        obtain ⟨value, hv⟩ := Option.ne_none_iff_exists'.mp held
        rw [hv, Option.some_or]
      · rw [Field.first, Option.or_none]
  | recorded new _ same =>
      subst same
      simp only [List.lookup_append, Field.first, List.lookup]
      by_cases same : trim f.key = key
      · rw [if_pos ⟨same, new.1, new.2.1⟩, same, beq_self_eq_true]
      · have other : (key == trim f.key) = false := by simpa using Ne.symm same
        rw [if_neg fun here => same here.1, other]

/-- The map holds the first occurrences, and nothing else. -/
theorem recordAll_lookup (h : c.recordAll fs = .ok d) (key : Bytes) :
    d.headers.lookup key = (c.headers.lookup key).or (Field.first fs key) := by
  induction fs generalizing c with
  | nil =>
      cases h
      rw [Field.first, Option.or_none]
  | cons f fs ih =>
      rw [recordAll_cons] at h
      obtain ⟨e, one, h⟩ := bind_ok.mp h
      rw [ih h, record_lookup one, Option.or_assoc, ← first_cons]

/-- The connection type is the one of the recorded `Connection`, or what it was. -/
def TypeRecorded (before : ConnType) (c : HTTPContext) : Prop :=
  c.connType = if c.headers.lookup (ascii "Connection") = some (ascii "Keep-Alive") then .single
    else before

theorem record_type {before : ConnType} (h : c.record f = .ok d) (held : c.TypeRecorded before) :
    d.TypeRecorded before := by
  cases added_of_ok h with
  | ignored _ same => rwa [same]
  | recorded new _ same =>
      subst same
      unfold TypeRecorded at held ⊢
      simp only [List.lookup_append, List.lookup]
      by_cases connection : trim f.key = ascii "Connection"
      · have absent := new.2.2
        rw [connection] at absent
        rw [absent, if_neg (by simp)] at held
        simp [connection, absent, held]
      · have other : (ascii "Connection" == trim f.key) = false := by
          simpa using Ne.symm connection
        simp only [connection, false_and, if_false, other, Option.or_none, held]

theorem recordAll_derived {before : ConnType} (h : c.recordAll fs = .ok d)
    (type : c.TypeRecorded before) (length : c.LengthRecorded) :
    d.TypeRecorded before ∧ d.LengthRecorded := by
  induction fs generalizing c with
  | nil =>
      cases h
      exact ⟨type, length⟩
  | cons f fs ih =>
      rw [recordAll_cons] at h
      obtain ⟨e, one, h⟩ := bind_ok.mp h
      exact ih h (record_type one type) ((addHeader_recorded one).2 length)

/-- What a line that is found looks like. -/
theorem lineEnd_split (h : lineEnd w = some n) :
    w = w.take n ++ Buffer.crlf ++ w.drop (n + 2) ∧ ¬ Buffer.crlf <:+: w.take n ∧ n ≤ 65534 := by
  have bound := FirstMatch.firstMatch_bound h
  have two : Buffer.crlf.length = 2 := rfl
  rw [List.length_take, two] at bound
  obtain ⟨here, _, least⟩ := FirstMatch.firstMatch_eq_some_iff.mp h
  have whole : Buffer.crlf <+: w.drop n := by
    rw [List.drop_take] at here
    exact here.trans (List.take_prefix _ _)
  refine ⟨?_, ?_, ?_⟩
  · obtain ⟨rest, hrest⟩ := whole
    have behind : w.drop (n + 2) = rest := by
      rw [← List.drop_drop, ← hrest]
      rfl
    rw [behind, List.append_assoc, hrest, List.take_append_drop]
  · rintro ⟨front, back, hw⟩
    have length := congrArg List.length hw
    simp only [List.length_append, List.length_take, two] at length
    refine least front.length (by omega) ?_
    have inside : w.take n <+: w.take HTTPParser.maxHeadlineSize :=
      List.take_prefix_take_left (by omega)
    rw [← hw] at inside
    obtain ⟨rest, hrest⟩ := inside
    rw [← hrest, List.append_assoc, List.append_assoc, List.drop_left]
    exact List.prefix_append _ _
  · unfold HTTPParser.maxHeadlineSize at bound
    omega

/-- What the header parser finds in front of a stream. -/
inductive HeaderShape where
  | more
  | failed
  | last
  | field (f : Field)
  deriving DecidableEq, Repr

def headerShape (w : Bytes) : HeaderShape :=
  match lineEnd w with
  | none => if w.length < HTTPParser.maxHeadlineSize then .more else .failed
  | some n =>
    if n = 0 then .last
    else match firstMatch [58] (w.take n) with
      | none => .failed
      | some tmp =>
        if tmp = 0 then .failed else .field ⟨(w.take n).take tmp, (w.take n).drop (tmp + 1)⟩

/-- What it does with it. -/
def shapeVerdict (s : HTTPContext) : HeaderShape → HeadVerdict
  | .more => .more
  | .failed => .stop .failed
  | .last => .advance { s with stage := 2 } 2
  | .field f =>
    match s.record f with
    | .error _ => .stop .thrown
    | .ok s => .advance s (f.line.length + 2)

theorem headerVerdict_shape : headerVerdict s w = shapeVerdict s (headerShape w) := by
  unfold headerVerdict onLine headerShape
  cases found : lineEnd w with
  | none =>
      simp only
      split_ifs <;> rfl
  | some n =>
      have bound := lineEnd_bound found
      simp only
      split_ifs with h0
      · rfl
      · unfold takeHeader
        cases colon : firstMatch [58] (w.take n) with
        | none => rfl
        | some tmp =>
            have line := firstMatch_singleton_split colon
            have whole : (⟨(w.take n).take tmp, (w.take n).drop (tmp + 1)⟩ : Field).line.length = n := by
              rw [Field.line, ← line, List.length_take]
              omega
            cases tmp with
            | zero => rfl
            | succ tmp =>
                simp only [Nat.add_eq_zero_iff, one_ne_zero, and_false, if_false, shapeVerdict, whole,
                  record]
                generalize s.addHeader _ _ = added
                cases added <;> rfl

theorem headerShape_last (h : headerShape w = .last) : w = Buffer.crlf ++ w.drop 2 := by
  unfold headerShape at h
  cases found : lineEnd w with
  | none =>
      simp only [found] at h
      split_ifs at h
  | some n =>
      simp only [found] at h
      split_ifs at h with h0
      · subst h0
        exact (lineEnd_split found).1
      · split at h
        · cases h
        · split_ifs at h

theorem headerShape_field (h : headerShape w = .field f) :
    f.Valid ∧ w = f.line ++ Buffer.crlf ++ w.drop (f.line.length + 2) := by
  unfold headerShape at h
  cases found : lineEnd w with
  | none =>
      simp only [found] at h
      split_ifs at h
  | some n =>
      have bound := lineEnd_bound found
      obtain ⟨split, noBreak, fits⟩ := lineEnd_split found
      simp only [found] at h
      split_ifs at h
      cases colon : firstMatch [58] (w.take n) with
      | none =>
          rw [colon] at h
          cases h
      | some tmp =>
          simp only [colon] at h
          split_ifs at h with none
          cases h
          obtain ⟨inside, _, before⟩ := firstMatch_singleton_some colon
          have line := firstMatch_singleton_split colon
          have whole : (w.take n).length = n := by
            rw [List.length_take]
            omega
          simp only [Field.line, ← line]
          refine ⟨⟨?_, before, ?_, ?_⟩, ?_⟩
          · intro empty
            rw [List.take_eq_nil_iff] at empty
            rcases empty with h | h
            · exact none h
            · rw [h] at inside
              cases inside
          · rw [Field.line, ← line]
            exact noBreak
          · rw [Field.line, ← line, whole]
            exact fits
          · rw [whole]
            exact split

/-- A valid line is found as the field that it is. -/
theorem headerShape_line (valid : f.Valid) (v : Bytes) :
    headerShape (f.line ++ Buffer.crlf ++ v) = .field f := by
  have found := lineEnd_first valid.noBreak valid.fits v
  have front : (f.line ++ Buffer.crlf ++ v).take f.line.length = f.line := by
    rw [List.append_assoc, List.take_left]
  have colon : firstMatch [58] f.line = some f.key.length :=
    FirstMatch.firstMatch_singleton_append valid.noColon f.value
  have nonempty : f.line.length ≠ 0 := by simp [Field.line]
  have key : f.key.length ≠ 0 := fun h => valid.key (List.eq_nil_of_length_eq_zero h)
  unfold headerShape
  simp only [found, front, nonempty, if_false, colon, key]
  rw [Field.line, List.take_left, ← List.drop_drop, List.drop_left]
  rfl

/-- The head machine takes fields, and the empty line after the last one. -/
theorem drains_fields {stage : HTTPParser → Except Fault (Flow HTTPParser)}
    (imp : HTTPParser.Implements stage M) (h : Drains M s w r t x) (h1 : s.stage = 1) :
    ∃ fs : List Field, (∀ f ∈ fs, f.Valid) ∧ ∃ u, s.recordAll fs = .ok u ∧
      if r = some .headed then w = Field.lines fs ++ Buffer.crlf ++ x ∧ t = { u with stage := 2 }
      else w = Field.lines fs ++ x ∧ t = u := by
  induction h with
  | more hv => exact ⟨[], by simp, _, rfl, by simp [Field.lines]⟩
  | @stop s w o hv =>
      refine ⟨[], by simp, _, rfl, ?_⟩
      rw [if_neg]
      · exact ⟨rfl, rfl⟩
      · rintro ⟨⟩
        rw [imp.headers h1, headerVerdict_shape] at hv
        cases shape : headerShape w with
        | field f =>
            rw [shape, shapeVerdict] at hv
            split at hv <;> cases hv
        | _ =>
            rw [shape] at hv
            cases hv
  | @advance s w s' n r t x hv rest ih =>
      rw [imp.headers h1, headerVerdict_shape] at hv
      cases shape : headerShape w with
      | more =>
          rw [shape] at hv
          cases hv
      | failed =>
          rw [shape] at hv
          cases hv
      | last =>
          rw [shape] at hv
          cases hv
          obtain ⟨rfl, rfl, rfl⟩ := rest.unique (.stop (imp.headed le_rfl))
          refine ⟨[], by simp, _, rfl, ?_⟩
          rw [if_pos rfl]
          exact ⟨headerShape_last shape, rfl⟩
      | field f =>
          obtain ⟨valid, bytes⟩ := headerShape_field shape
          rw [shape, shapeVerdict] at hv
          cases one : s.record f with
          | error fault =>
              rw [one] at hv
              cases hv
          | ok u =>
              rw [one] at hv
              cases hv
              obtain ⟨fs, valids, u, all, reading⟩ := ih ((addHeader_recorded one).1.trans h1)
              refine ⟨f :: fs, List.forall_mem_cons.mpr ⟨valid, valids⟩, u, ?_, ?_⟩
              · rw [recordAll_cons, one]
                exact all
              · split_ifs at reading ⊢
                · refine ⟨?_, reading.2⟩
                  rw [bytes, reading.1]
                  simp [Field.lines]
                · refine ⟨?_, reading.2⟩
                  rw [bytes, reading.1]
                  simp [Field.lines]

end HTTPContext

namespace HTTPParser
open HTTPContext Resumable

/-- The header parser, called after every chunk until it has an answer. -/
def headerReader : Reader HTTPParser := ⟨recv, parseHeaders⟩

variable {p q : HTTPParser} {s t : HTTPContext} {w x : Bytes} {chunks : List Bytes}
  {r : Option HeadEnd}

theorem parseHeaders_outcome (h : Matches p s w) (h1 : s.stage = 1)
    (drains : Drains request s w r t x) : HeaderOutcome p w t x p.parseHeaders r := by
  refine headerLines_run request_implements h h1 drains ?_
  have length := h.wf.unread_length
  have bound := h.wf.bound
  rw [h.unread] at length
  omega

theorem recordAll_stage {fs : List Field} (h : s.recordAll fs = .ok t) : t.stage = s.stage := by
  induction fs generalizing s with
  | nil =>
      cases h
      rfl
  | cons f fs ih =>
      rw [recordAll_cons] at h
      obtain ⟨u, one, h⟩ := bind_ok.mp h
      exact (ih h).trans (addHeader_recorded one).1

/-- What a reading of all header lines leaves, whatever the chunks they came in. -/
theorem headerReader_fields (h : Matches p s w) (storage : 0 < p.buf.data.length)
    (h1 : s.stage = 1) (fed : headerReader.feed p chunks = .ok (.partSuccess, q)) :
    ∃ (fs : List Field) (u : HTTPContext), (∀ f ∈ fs, f.Valid) ∧ s.recordAll fs = .ok u ∧
      (u.headers = q.ctx.headers ∧ u.bodySize = q.ctx.bodySize ∧ u.connType = q.ctx.connType) ∧
      ∃ taken left, chunks = taken ++ left ∧
        w ++ taken.flatten = Field.lines fs ++ Buffer.crlf ++ q.buf.unread := by
  induction chunks generalizing p s w with
  | nil => cases fed
  | cons c chunks ih =>
      have here : Matches (p.recv c) s (w ++ c) := h.recv storage c
      obtain ⟨r, t, x, drains⟩ := Drains.total request s (w ++ c)
      obtain ⟨fs, valid, u, all, reading⟩ := drains_fields request_implements drains h1
      have outcome := parseHeaders_outcome here h1 drains
      cases outcome with
      | failed hq _ _ =>
          rw [Reader.feed_done hq (by simp)] at fed
          cases fed
      | thrown hq =>
          rw [Reader.feed_fault hq] at fed
          cases fed
      | @headed q₁ hq moved _ _ =>
          rw [Reader.feed_done hq (by simp)] at fed
          cases fed
          rw [if_pos rfl] at reading
          obtain ⟨bytes, rfl⟩ := reading
          have same := moved.bare
          refine ⟨fs, u, valid, all, ⟨?_, ?_, ?_⟩, [c], chunks, rfl, ?_⟩
          · exact (congrArg HTTPContext.headers same).symm
          · exact (congrArg HTTPContext.bodySize same).symm
          · exact (congrArg (fun d => d.connType) same).symm
          · have unread : q.buf.unread = x := moved.unread
            rw [List.flatten_cons, List.flatten_nil, List.append_nil, bytes, unread]
      | @waits q₁ hq moved kept =>
          rw [Reader.feed_more hq] at fed
          rw [if_neg (by simp)] at reading
          obtain ⟨bytes, rfl⟩ := reading
          have room : 0 < q₁.buf.data.length := by
            rw [kept]
            exact storage.trans_le (h.wf.recv storage c).storage
          obtain ⟨gs, v, valid', all', derived, taken, left, rfl, bytes'⟩ :=
            ih moved room ((recordAll_stage all).trans h1) fed
          refine ⟨fs ++ gs, v, List.forall_mem_append.mpr ⟨valid, valid'⟩, ?_, derived, c :: taken, left,
            rfl, ?_⟩
          · rw [recordAll_append, all]
            exact all'
          · rw [List.flatten_cons, ← List.append_assoc, bytes, List.append_assoc, bytes']
            simp [Field.lines]

/-- From a context that has read no header: the map holds the first occurrences, the length
is the value of the recorded one, and the connection type changes with the recorded one. -/
theorem headers_agree (wf : p.buf.Wf) (storage : 0 < p.buf.data.length) (h1 : p.ctx.stage = 1)
    (new : p.ctx.headers = []) (size : p.ctx.bodySize = 0)
    (fed : headerReader.feed p chunks = .ok (.partSuccess, q)) :
    ∃ fs : List Field, (∀ f ∈ fs, f.Valid) ∧
      (∃ taken left, chunks = taken ++ left ∧
        p.buf.unread ++ taken.flatten = Field.lines fs ++ Buffer.crlf ++ q.buf.unread) ∧
      (∀ key, q.ctx.headers.lookup key = Field.first fs key) ∧ q.ctx.LengthRecorded ∧
      q.ctx.TypeRecorded p.ctx.connType := by
  obtain ⟨fs, u, valid, all, ⟨headers, bodySize, connType⟩, bytes⟩ :=
    headerReader_fields (frame_matches wf) storage h1 fed
  have length : p.ctx.LengthRecorded := by simp [LengthRecorded, new, size]
  have type : p.ctx.TypeRecorded p.ctx.connType := by simp [TypeRecorded, new]
  obtain ⟨typed, measured⟩ := recordAll_derived all type length
  refine ⟨fs, valid, bytes, fun key => ?_, ?_, ?_⟩
  · rw [← headers, recordAll_lookup all]
    change (p.ctx.headers.lookup key).or _ = _
    rw [new]
    rfl
  · unfold LengthRecorded at measured ⊢
    rwa [← headers, ← bodySize]
  · unfold TypeRecorded at typed ⊢
    rwa [← headers, ← connType]

/-- The context of a call on a single connection, behind the first line of the response. -/
def responding : HTTPParser := ⟨{ connType := .single, stage := 1 }, Buffer.ofSize 64⟩

/-- Two keys, one of them twice, and no `Connection`. -/
def plainHeaders : List Bytes :=
  [ascii "Content-Length: 2\r\nHost : a\r\nCon", ascii "tent-Length: 7\r\n\r\nhi"]

/-- Where the reader ends. -/
def readHeaders (p : HTTPParser) (chunks : List Bytes) : HTTPParser :=
  (headerReader.feed p chunks).toOption.elim p (·.2)

theorem plainHeaders_agree : ∃ fs : List Field, (∀ f ∈ fs, f.Valid) ∧
    (∃ taken left, plainHeaders = taken ++ left ∧ responding.buf.unread ++ taken.flatten =
      Field.lines fs ++ Buffer.crlf ++ (readHeaders responding plainHeaders).buf.unread) ∧
    (∀ key, (readHeaders responding plainHeaders).ctx.headers.lookup key = Field.first fs key) ∧
    (readHeaders responding plainHeaders).ctx.LengthRecorded ∧
    (readHeaders responding plainHeaders).ctx.TypeRecorded .single :=
  headers_agree (p := responding) (by decide +kernel) (by decide +kernel)
    rfl rfl rfl (by decide +kernel)

/-- The type of the call stays, although the response names none. -/
theorem not_headers_agree : ¬ ∀ (p q : HTTPParser) (chunks : List Bytes), p.buf.Wf →
    0 < p.buf.data.length → p.ctx.stage = 1 → p.ctx.headers = [] → p.ctx.bodySize = 0 →
    headerReader.feed p chunks = .ok (.partSuccess, q) → ∃ fs : List Field, (∀ f ∈ fs, f.Valid) ∧
      (∃ taken left, chunks = taken ++ left ∧
        p.buf.unread ++ taken.flatten = Field.lines fs ++ Buffer.crlf ++ q.buf.unread) ∧
      (∀ key, q.ctx.headers.lookup key = Field.first fs key) ∧ q.ctx.LengthRecorded ∧
      q.ctx.TypeRecorded .short := by
  intro claim
  obtain ⟨_, _, _, _, _, type⟩ := claim responding (readHeaders responding plainHeaders) plainHeaders
    (by decide +kernel) (by decide +kernel) rfl rfl rfl (by decide +kernel)
  unfold TypeRecorded at type
  exact absurd type (by decide +kernel)

end HTTPParser
end SmallRpc
