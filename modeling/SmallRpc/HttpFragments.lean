import SmallRpc.HttpSafety

/-! HTTP under fragmentation. The head machine does not care how a stream is cut, and
the test for the body, which is not stable under more input, is made for good once the
body is there. -/
namespace SmallRpc
open Resumable
open FirstMatch (firstMatch)

/-- What a caller gets from a parsed HTTP message. -/
structure HTTPMessage where
  connType : ConnType
  service : Bytes
  method : Bytes
  headers : List (Bytes × Bytes)
  payload : Except Fault Bytes
  deriving DecidableEq

namespace HTTPContext

def message (c : HTTPContext) (payload : Except Fault Bytes) : HTTPMessage :=
  ⟨c.connType, c.service, c.method, c.headers, payload⟩

/-- The value of a string of decimal digits. -/
def decimalValue (text : Bytes) : Nat := text.foldl (fun a c => 10 * a + (c.toNat - 48)) 0

/-- A decimal number that an `int` can hold. -/
def Decimal (text : Bytes) : Prop :=
  text ≠ [] ∧ (∀ c ∈ text, isDigit c = true) ∧ decimalValue text < 2 ^ 31

/-- The head in front of `w` has a first `Content-Length` with this value. -/
def Declares (M : Machine UInt8 HTTPContext HeadEnd) (w text : Bytes) : Prop :=
  ∃ s x n tmp, Reaches M {} w s x ∧ s.stage = 1 ∧ lineEnd x = some n ∧ n ≠ 0 ∧
    firstMatch [58] (x.take n) = some tmp ∧ tmp ≠ 0 ∧ text ≠ [] ∧
    trim ((x.take n).take tmp) = contentLength ∧ trim ((x.take n).drop (tmp + 1)) = text ∧
    s.headers.lookup contentLength = none

variable {c c' s s' t : HTTPContext} {w v x text : Bytes} {n : Nat} {r : Option HeadEnd}
  {M : Machine UInt8 HTTPContext HeadEnd} {status status' : ParseProtocolStatus}
  {m m' : HTTPMessage}

theorem isDigit_bounds {c : UInt8} (h : isDigit c = true) : 48 ≤ c.toNat ∧ c.toNat ≤ 57 := by
  simpa [isDigit, UInt8.le_iff_toNat_le] using h

theorem isDigit_plain {c : UInt8} (h : isDigit c = true) : isSpace c = false ∧ c ≠ 45 ∧ c ≠ 43 := by
  obtain ⟨low, high⟩ := isDigit_bounds h
  refine ⟨?_, ?_, ?_⟩
  · rw [Bool.eq_false_iff]
    intro space
    simp only [isSpace, Bool.or_eq_true, decide_eq_true_eq, Bool.and_eq_true,
      UInt8.le_iff_toNat_le] at space
    rcases space with rfl | ⟨_, below⟩
    · exact absurd low (by decide)
    · have : (13 : UInt8).toNat = 13 := rfl
      omega
  · rintro rfl
    exact absurd low (by decide)
  · rintro rfl
    exact absurd low (by decide)

theorem digits_fold (text : Bytes) (digits : ∀ c ∈ text, isDigit c = true) (a : Nat) :
    text.foldl (fun (a : Int) c => 10 * a + (c.toNat - 48)) a =
      (text.foldl (fun a c => 10 * a + (c.toNat - 48)) a : Nat) := by
  induction text generalizing a with
  | nil => rfl
  | cons c cs ih =>
      have low := (isDigit_bounds (digits c List.mem_cons_self)).1
      rw [List.foldl_cons, List.foldl_cons, ← ih fun d hd => digits d (List.mem_cons_of_mem _ hd)]
      congr 1
      omega

/-- `stoi` reads a decimal as the number it is. -/
theorem stoi_decimal (h : Decimal text) : stoi text = .ok (decimalValue text : Int) := by
  obtain ⟨some, digits, small⟩ := h
  have all : text.takeWhile isDigit = text := List.takeWhile_eq_self_iff.mpr digits
  have value : text.foldl (fun (a : Int) c => 10 * a + (c.toNat - 48)) 0 = (decimalValue text : Int) :=
    digits_fold text digits 0
  have front : text.dropWhile isSpace = text ∧ text.head? ≠ Option.some 45 ∧
      text.head? ≠ Option.some 43 := by
    obtain ⟨c, cs, rfl⟩ := List.exists_cons_of_ne_nil some
    obtain ⟨noSpace, noMinus, noPlus⟩ := isDigit_plain (digits c List.mem_cons_self)
    refine ⟨?_, by simpa using noMinus, by simpa using noPlus⟩
    rw [List.dropWhile_cons, noSpace]
    rfl
  obtain ⟨noSpace, noMinus, noPlus⟩ := front
  unfold stoi
  simp only [noSpace, noMinus, noPlus, or_self, if_false, all, value, some]
  exact if_pos ⟨by omega, by exact_mod_cast small⟩

/-- Only header lines set the size of the body, and only they throw. -/
structure HeaderSized (M : Machine UInt8 HTTPContext HeadEnd) : Prop where
  thrown : ∀ {s w}, M.stage s w = .stop .thrown → s.stage = 1 ∧ headerVerdict s w = .stop .thrown
  advance : ∀ {s w s' n}, M.stage s w = .advance s' n →
    s'.bodySize = s.bodySize ∨ s.stage = 1 ∧ headerVerdict s w = .advance s' n

theorem onLine_stop {taken : Nat → Bytes → HeadVerdict} (h : onLine taken w = .stop .thrown) :
    ∃ n, lineEnd w = some n ∧ taken n (w.take n) = .stop .thrown := by
  unfold onLine at h
  cases hl : lineEnd w with
  | none =>
      simp only [hl] at h
      split_ifs at h
      cases h
  | some n => exact ⟨n, rfl, by simpa only [hl] using h⟩

theorem request_headerSized : HeaderSized request where
  thrown {s w} h := by
    change requestVerdict s w = _ at h
    unfold requestVerdict at h
    split at h
    · obtain ⟨n, _, taken⟩ := onLine_stop h
      split at taken <;> cases taken
    · exact ⟨by assumption, h⟩
    · cases h
  advance {s w s' n} h := by
    change requestVerdict s w = _ at h
    unfold requestVerdict at h
    split at h
    · obtain ⟨k, _, taken⟩ := onLine_advance h
      split at taken <;> cases taken
      rename_i line
      unfold takeRequestLine at line
      simp only at line
      split_ifs at line
      exact .inl (takeUrl_keeps line).2
    · exact .inr ⟨by assumption, h⟩
    · cases h

theorem response_headerSized : HeaderSized response where
  thrown {s w} h := by
    change responseVerdict s w = _ at h
    unfold responseVerdict at h
    split at h
    · obtain ⟨n, _, taken⟩ := onLine_stop h
      cases taken
    · exact ⟨by assumption, h⟩
    · cases h
  advance {s w s' n} h := by
    change responseVerdict s w = _ at h
    unfold responseVerdict at h
    split at h
    · obtain ⟨k, _, taken⟩ := onLine_advance h
      cases taken
      exact .inl rfl
    · exact .inr ⟨by assumption, h⟩
    · cases h

/-- The header line in front, read with its outcome. -/
theorem takeHeader_eq {line : Bytes} {added : Except Fault HTTPContext}
    (h : takeHeader s line = some added) : ∃ tmp, firstMatch [58] line = some tmp ∧ tmp ≠ 0 ∧
      added = s.addHeader (trim (line.take tmp)) (trim (line.drop (tmp + 1))) := by
  unfold takeHeader at h
  cases hf : firstMatch [58] line with
  | none => simp only [hf, reduceCtorEq] at h
  | some tmp =>
      cases tmp with
      | zero => simp only [hf, reduceCtorEq] at h
      | succ tmp =>
          simp only [hf, Option.some.injEq] at h
          exact ⟨tmp + 1, rfl, by simp, h.symm⟩

/-- A header either leaves the size alone or is the first `Content-Length`. -/
theorem addHeader_size (c : HTTPContext) (key value : Bytes) :
    (∃ c', c.addHeader key value = .ok c' ∧ c'.bodySize = c.bodySize) ∨
      (key = contentLength ∧ value ≠ [] ∧ c.headers.lookup contentLength = none ∧
        ∀ size, stoi value = .ok size → ∃ c', c.addHeader key value = .ok c' ∧ c'.bodySize = size) := by
  by_cases fresh : key ≠ [] ∧ value ≠ [] ∧ c.headers.lookup key = none
  · have added : c.addHeader key value = _ := if_pos fresh
    by_cases len : key = ascii "Content-Length"
    · refine .inr ⟨len, fresh.2.1, by rw [← fresh.2.2, len]; rfl, fun size hs => ?_⟩
      rw [added, if_pos len, hs]
      exact ⟨_, rfl, rfl⟩
    · rw [added, if_neg len]
      exact .inl ⟨_, rfl, rfl⟩
  · exact .inl ⟨c, if_neg fresh, rfl⟩

/-- Where every declared length is a decimal, a header line that is reached neither throws
nor makes the size negative. -/
theorem headerVerdict_sized (reached : Reaches M {} w s x) (h1 : s.stage = 1)
    (decimal : ∀ text, Declares M w text → Decimal text) :
    headerVerdict s x ≠ .stop .thrown ∧
      ∀ s' n, headerVerdict s x = .advance s' n → 0 ≤ s.bodySize → 0 ≤ s'.bodySize := by
  have added : ∀ n added, lineEnd x = some n → n ≠ 0 → takeHeader s (x.take n) = some added →
      ∃ c', added = .ok c' ∧ (0 ≤ s.bodySize → 0 ≤ c'.bodySize) := by
    intro n added hl h0 htake
    obtain ⟨tmp, hf, htmp, rfl⟩ := takeHeader_eq htake
    rcases addHeader_size s (trim ((x.take n).take tmp)) (trim ((x.take n).drop (tmp + 1))) with
      ⟨c', hc', same⟩ | ⟨key, some, fresh, read⟩
    · exact ⟨c', hc', fun nonneg => nonneg.trans same.ge⟩
    · have number := decimal _ ⟨s, x, n, tmp, reached, h1, hl, h0, hf, htmp, some, key, rfl, fresh⟩
      obtain ⟨c', hc', size⟩ := read _ (stoi_decimal number)
      exact ⟨c', hc', fun _ => by omega⟩
  constructor
  · intro thrown
    obtain ⟨n, hl, taken⟩ := onLine_stop thrown
    split_ifs at taken with h0
    split at taken <;> cases taken
    rename_i _ fault htake
    obtain ⟨c', hc', _⟩ := added n _ hl h0 htake
    cases hc'
  · intro s' n advance nonneg
    obtain ⟨k, hl, taken⟩ := onLine_advance advance
    split_ifs at taken with h0
    · cases taken
      exact nonneg
    · split at taken <;> cases taken
      rename_i htake
      obtain ⟨c', hc', size⟩ := added k _ hl h0 htake
      cases hc'
      exact size nonneg

theorem sized_of_decimal (sized : HeaderSized M)
    (decimal : ∀ text, Declares M w text → Decimal text) (drains : Drains M {} w r t x) :
    r ≠ some .thrown ∧ 0 ≤ t.bodySize := by
  have along : ∀ {s v}, Reaches M {} w s v → 0 ≤ s.bodySize → Reaches M s v t x → 0 ≤ t.bodySize := by
    intro s v before nonneg rest
    induction rest with
    | refl => exact nonneg
    | advance hv _ ih =>
        refine ih drains (before.snoc hv) ?_
        rcases sized.advance hv with same | ⟨h1, header⟩
        · exact nonneg.trans same.ge
        · exact (headerVerdict_sized before h1 decimal).2 _ _ header nonneg
  refine ⟨?_, along .refl le_rfl drains.reaches⟩
  rintro rfl
  obtain ⟨h1, thrown⟩ := sized.thrown drains.stopped
  exact (headerVerdict_sized drains.reaches h1 decimal).1 thrown

theorem Declares.append (h : Declares M w text) (v : Bytes) : Declares M (w ++ v) text := by
  obtain ⟨s, x, n, tmp, reached, h1, hl, h0, hf, htmp, some, key, value, fresh⟩ := h
  have line := line_append hl v
  refine ⟨s, x ++ v, n, tmp, reached.append v, h1, lineEnd_append hl v, h0, ?_, htmp, some, ?_, ?_,
    fresh⟩
  · rw [line]
    exact hf
  · rw [line]
    exact key
  · rw [line]
    exact value

/-- What a stream is answered with, and the message if that is `Success`. -/
inductive Ends (M : Machine UInt8 HTTPContext HeadEnd) (w : Bytes) :
    ParseProtocolStatus → HTTPMessage → Prop
  | waits {t : HTTPContext} {x : Bytes} {m : HTTPMessage} : Drains M {} w none t x → Ends M w .noEnoughData m
  | short {t : HTTPContext} {x : Bytes} {m : HTTPMessage} :
      Drains M {} w (some .headed) t x → (x.length : Int) < t.bodySize →
      Ends M w .noEnoughData m
  | failed {t : HTTPContext} {x : Bytes} {m : HTTPMessage} :
      Drains M {} w (some .failed) t x → Ends M w .error m
  | done {t : HTTPContext} {x : Bytes} : Drains M {} w (some .headed) t x → t.bodySize ≤ x.length →
      Ends M w .success (t.message (.ok (x.take t.bodySize.toNat)))

theorem Ends.unique (h : Ends M w status m) (k : Ends M w status' m') :
    status = status' ∧ (status = .success → m = m') := by
  cases h with
  | waits d =>
      cases k with
      | waits _ => exact ⟨rfl, nofun⟩
      | short _ _ => exact ⟨rfl, nofun⟩
      | failed d' => exact absurd (d.unique d').1 (by simp)
      | done d' _ => exact absurd (d.unique d').1 (by simp)
  | short d lt =>
      cases k with
      | waits _ => exact ⟨rfl, nofun⟩
      | short _ _ => exact ⟨rfl, nofun⟩
      | failed d' => exact absurd (d.unique d').1 (by simp)
      | done d' le =>
          obtain ⟨_, rfl, rfl⟩ := d.unique d'
          exact absurd le (not_le.mpr lt)
  | failed d =>
      cases k with
      | waits d' => exact absurd (d.unique d').1 (by simp)
      | short d' _ => exact absurd (d.unique d').1 (by simp)
      | failed _ => exact ⟨rfl, nofun⟩
      | done d' _ => exact absurd (d.unique d').1 (by simp)
  | done d le =>
      cases k with
      | waits d' => exact absurd (d.unique d').1 (by simp)
      | short d' lt =>
          obtain ⟨_, rfl, rfl⟩ := d.unique d'
          exact absurd le (not_le.mpr lt)
      | failed d' => exact absurd (d.unique d').1 (by simp)
      | done d' _ =>
          obtain ⟨_, rfl, rfl⟩ := d.unique d'
          exact ⟨rfl, fun _ => rfl⟩

/-- An answer other than `NoEnoughData` is final. -/
theorem Ends.append (h : Ends M w status m) (final : status ≠ .noEnoughData) (v : Bytes) :
    Ends M (w ++ v) status m := by
  cases h with
  | waits _ => exact absurd rfl final
  | short _ _ => exact absurd rfl final
  | failed d => exact .failed (d.stop_append v)
  | @done t x d le =>
      have inside : (x ++ v).take t.bodySize.toNat = x.take t.bodySize.toNat :=
        List.take_append_of_le_length (by omega)
      rw [← inside]
      exact .done (d.stop_append v) (by rw [List.length_append]; omega)

end HTTPContext

namespace HTTPParser
open HTTPContext

variable {p q : HTTPParser} {t u : HTTPContext} {w x y c : Bytes} {r : Option HeadEnd}
  {stage : HTTPParser → Except Fault (Flow HTTPParser)} {M : Machine UInt8 HTTPContext HeadEnd}

/-- What the parser shows after `Success`. -/
def message (p : HTTPParser) : HTTPMessage := p.ctx.message (p.ctx.payloadView.str p.buf)

/-- A parser that has received `w` and asked for more, in the head or in the body. -/
inductive At (M : Machine UInt8 HTTPContext HeadEnd) (w : Bytes) (p : HTTPParser) : Prop
  | head {t : HTTPContext} {x : Bytes} : Drains M {} w none t x → Matches p t x → 0 < p.buf.data.length → At M w p
  | body {t : HTTPContext} {x : Bytes} : Drains M {} w (some .headed) t x → (x.length : Int) < t.bodySize →
      Matches p t x → t.stage = 2 → 0 < p.buf.data.length → At M w p

theorem At.waits (h : At M w p) (m : HTTPMessage) : Ends M w .noEnoughData m := by
  cases h with
  | head d _ _ => exact .waits d
  | body d lt _ _ _ => exact .short d lt

theorem Matches.recv (h : Matches p t x) (storage : 0 < p.buf.data.length) (c : Bytes) :
    Matches (p.recv c) t (x ++ c) := by
  have got := h.wf.recv storage c
  exact ⟨got.wf, by rw [← h.unread]; exact got.unread, h.bare⟩

/-- More input resumes the machine where it stands. -/
theorem At.resume (imp : Implements stage M) (h : At M w p) (c : Bytes) : ∃ t x r u y,
    Matches (p.recv c) t x ∧ 0 < (p.recv c).buf.data.length ∧ Drains M t x r u y ∧
      Drains M {} (w ++ c) r u y := by
  cases h with
  | @head t x d here storage =>
      obtain ⟨r, u, y, rest⟩ := Drains.total M t (x ++ c)
      exact ⟨t, _, r, u, y, here.recv storage c, storage.trans_le (here.wf.recv storage c).storage,
        rest, d.resume rest⟩
  | @body t x d _ here h2 storage =>
      exact ⟨t, _, _, t, _, here.recv storage c, storage.trans_le (here.wf.recv storage c).storage, .stop (imp.headed h2.ge), d.stop_append c⟩

/-- The payload view of a body that is there. -/
theorem payload_str {b : Buffer} (wf : b.Wf) {size : Int} (h0 : 0 ≤ size)
    (fits : size ≤ b.unread.length) :
    (BufferView.ofLength b.rindex size).str b = .ok (b.unread.take size.toNat) := by
  have end_eq : BufferView.shift b.rindex size = b.rindex + size.toNat := if_pos h0
  have copy := wf.copy_eq (k := 0) (n := size.toNat) (by omega)
  rw [Nat.add_zero, List.drop_zero] at copy
  simp only [BufferView.str, BufferView.ofLength, end_eq, if_true, Nat.le_add_right,
    Nat.add_sub_cancel_left]
  exact copy

/-- One call, made where `w` has been received and the head of it is not read yet. -/
theorem call_ends (imp : Implements stage M) (keeps : Keeps M) (here : Matches p t x)
    (storage : 0 < p.buf.data.length) (rest : Drains M t x r u y) (whole : Drains M {} w r u y)
    (small : y.length < 2 ^ 31) (sized : r ≠ some .thrown ∧ 0 ≤ u.bodySize) :
    ∃ status q, runStages stage (3 - p.ctx.stage) p = .ok (status, q) ∧
      Ends M w status q.message ∧ (status = .noEnoughData → At M w q) := by
  obtain ⟨noThrow, nonneg⟩ := sized
  have low : u.stage ≤ 2 := whole.invariant (P := fun s => s.stage ≤ 2) (Nat.zero_le 2)
    fun hv _ => (keeps hv).1
  have kept : ∀ {q : HTTPParser} {n : Nat}, q.buf = p.buf.retrieve n → 0 < q.buf.data.length := by
    intro q n hq
    rw [hq]
    exact storage
  have outcome := call_outcome imp here rest
  cases outcome with
  | @waits q hq hm hb => exact ⟨_, q, hq, .waits whole, fun _ => .head whole hm (kept hb)⟩
  | @failed q hq _ _ => exact ⟨_, q, hq, .failed whole, by simp⟩
  | thrown _ => exact absurd rfl noThrow
  | @headed q hq hm h2 hb =>
      have h2 : u.stage = 2 := le_antisymm low h2
      rw [hq, body_call imp hm h2, castInt_of_lt small]
      split_ifs with fits
      · refine ⟨_, _, rfl, ?_, by simp⟩
        have str := payload_str hm.wf nonneg (by rw [hm.unread]; exact fits)
        have shown : message { q with ctx := { q.ctx with
            payloadView := .ofLength q.buf.rindex u.bodySize, stage := 3 } } =
            u.message (.ok (y.take u.bodySize.toNat)) := by
          rw [← hm.unread, ← str, ← hm.bare]
          rfl
        rw [shown]
        exact .done whole fits
      · exact ⟨_, q, rfl, .short whole (not_le.mp fits),
          fun _ => .body whole (not_le.mp fits) hm h2 (kept hb)⟩

/-- One call after one more chunk. -/
theorem At.call (imp : Implements stage M) (keeps : Keeps M) (h : At M w p)
    (small : (w ++ c).length < 2 ^ 31)
    (sized : ∀ {r t x}, Drains M {} (w ++ c) r t x → r ≠ some .thrown ∧ 0 ≤ t.bodySize) :
    ∃ status q, runStages stage (3 - (p.recv c).ctx.stage) (p.recv c) = .ok (status, q) ∧
      Ends M (w ++ c) status q.message ∧ (status = .noEnoughData → At M (w ++ c) q) := by
  obtain ⟨t, x, r, u, y, here, storage, rest, whole⟩ := h.resume imp c
  exact call_ends imp keeps here storage rest whole (whole.suffix.length_le.trans_lt small)
    (sized whole)

/-- No declared length is anything but a decimal, and the stream is one an `int` can count. -/
def Orderly (M : Machine UInt8 HTTPContext HeadEnd) (w : Bytes) : Prop :=
  w.length < 2 ^ 31 ∧ ∀ text, Declares M w text → Decimal text

theorem Orderly.before {v : Bytes} (h : Orderly M (w ++ v)) : Orderly M w :=
  ⟨(List.length_append.ge.trans' (Nat.le_add_right _ _)).trans_lt h.1,
    fun text declared => h.2 text (declared.append v)⟩

theorem At.fresh {b : Buffer} (wf : b.Wf) (storage : 0 < b.data.length) (empty : b.unread = [])
    (idle : M.stage {} [] = .more) : At M [] ⟨{}, b⟩ :=
  .head (.more idle) ⟨wf, empty, rfl⟩ storage

theorem At.responses_call (h : At response w p) (orderly : Orderly response (w ++ c)) :
    ∃ status q, responses.parse (responses.recv p c) = .ok (status, q) ∧
      Ends response (w ++ c) status q.message ∧
      (status = .noEnoughData → At response (w ++ c) q) :=
  h.call response_implements response_keeps orderly.1
    (sized_of_decimal response_headerSized orderly.2)

/-- The parser of responses gives the answer of the stream, however it arrives. -/
theorem responses_end {b : Buffer} (wf : b.Wf) (storage : 0 < b.data.length) (empty : b.unread = [])
    {chunks : List Bytes} (orderly : Orderly response chunks.flatten) :
    ∃ status q, responses.feed ⟨{}, b⟩ chunks = .ok (status, q) ∧
      Ends response chunks.flatten status q.message := by
  have start : At response [] ⟨{}, b⟩ := .fresh wf storage empty rfl
  have feed := @Reader.feed_ends _ responses _ chunks _ _ _ (Orderly response) _ _
    (fun good h => h.responses_call good) (fun h => h.waits _) (fun final h => h.append final _)
    Orderly.before start
  rw [List.nil_append] at feed
  exact feed orderly

end HTTPParser

namespace HTTPProtocol
open HTTPContext HTTPParser

variable {s : Session} {w c : Bytes} {status status' : ParseProtocolStatus}
  {seen seen' : Option HTTPMessage}

/-- What the context of a session shows, once there is one. -/
def message (s : Session) : Option HTTPMessage :=
  match s.ctx with
  | some (.http ctx) => some (HTTPParser.message ⟨ctx, s.buf⟩)
  | _ => none

/-- What a stream is answered with as a request, and the message if that is `Success`. -/
inductive Ends (w : Bytes) : ParseProtocolStatus → Option HTTPMessage → Prop
  | early {seen : Option HTTPMessage} : w.length < httpMethodMaxLen → Ends w .noEnoughData seen
  | other {seen : Option HTTPMessage} : httpMethodMaxLen ≤ w.length →
      (∀ m ∈ HTTPMethod.tried, ¬ m.name <+: w) → Ends w .tryAnotherProtocol seen
  | http {status : ParseProtocolStatus} {m : HTTPMessage} : httpMethodMaxLen ≤ w.length →
      (∃ m ∈ HTTPMethod.tried, m.name <+: w) → HTTPContext.Ends request w status m →
      Ends w status (some m)

theorem Ends.unique (h : Ends w status seen) (k : Ends w status' seen') :
    status = status' ∧ (status = .success → seen = seen') := by
  cases h with
  | early few =>
      cases k with
      | early _ => exact ⟨rfl, by simp⟩
      | other enough _ => omega
      | http enough _ _ => omega
  | other enough none =>
      cases k with
      | early few => omega
      | other _ _ => exact ⟨rfl, by simp⟩
      | http _ found _ =>
          obtain ⟨m, hm, hpre⟩ := found
          exact absurd hpre (none m hm)
  | http enough found ends =>
      cases k with
      | early few => omega
      | other _ none =>
          obtain ⟨m, hm, hpre⟩ := found
          exact absurd hpre (none m hm)
      | http _ _ ends' =>
          obtain ⟨same, shown⟩ := ends.unique ends'
          exact ⟨same, fun done => congrArg some (shown done)⟩

theorem Ends.append (final : status ≠ .noEnoughData) (h : Ends w status seen) (v : Bytes) :
    Ends (w ++ v) status seen := by
  have longer : httpMethodMaxLen ≤ w.length → httpMethodMaxLen ≤ (w ++ v).length :=
    fun enough => enough.trans (by rw [List.length_append]; omega)
  have longest : ∀ m ∈ HTTPMethod.tried, m.name.length ≤ httpMethodMaxLen := by decide
  cases h with
  | early _ => exact absurd rfl final
  | other enough none =>
      refine .other (longer enough) fun m hm hpre => none m hm ?_
      exact List.prefix_of_prefix_length_le hpre (List.prefix_append w v)
        ((longest m hm).trans enough)
  | http enough found ends =>
      obtain ⟨m, hm, hpre⟩ := found
      exact .http (longer enough) ⟨m, hm, hpre.trans (List.prefix_append w v)⟩
        (ends.append final v)

/-- A session that has received `w` and waits: not recognised yet, or inside a message. -/
inductive At (w : Bytes) (s : Session) : Prop
  | fresh : s.ctx = none → s.buf.Wf → 0 < s.buf.data.length → s.buf.unread = w →
      w.length < httpMethodMaxLen → At w s
  | known {ctx : HTTPContext} : s.ctx = some (.http ctx) → httpMethodMaxLen ≤ w.length →
      (∃ m ∈ HTTPMethod.tried, m.name <+: w) → HTTPParser.At request w ⟨ctx, s.buf⟩ → At w s

theorem At.waits (h : At w s) : Ends w .noEnoughData (message s) := by
  cases h with
  | fresh _ _ _ _ few => exact .early few
  | @known ctx hs enough found at_ =>
      have shown : message s = some (HTTPParser.message ⟨ctx, s.buf⟩) := by
        rw [message, hs]
      rw [shown]
      exact .http enough found (at_.waits _)

/-- A call that reaches the parser ends as the parser does. -/
theorem resume_call {ctx t u : HTTPContext} {b : Buffer} {x y : Bytes} {r : Option HeadEnd}
    (here : Matches ⟨ctx, b⟩ t x) (storage : 0 < b.data.length) (rest : Drains request t x r u y)
    (whole : Drains request {} w r u y) (orderly : Orderly request w)
    (enough : httpMethodMaxLen ≤ w.length) (found : ∃ m ∈ HTTPMethod.tried, m.name <+: w) :
    ∃ status s', resume ctx b = .ok (status, s') ∧ Ends w status (message s') ∧
      (status = .noEnoughData → At w s') := by
  obtain ⟨status, q, hq, ends, waits⟩ := call_ends request_implements request_keeps here storage
    rest whole (whole.suffix.length_le.trans_lt orderly.1)
    (sized_of_decimal request_headerSized orderly.2 whole)
  exact ⟨status, _, resume_ok hq, .http enough found ends,
    fun more => .known rfl enough found (waits more)⟩

theorem At.call (orderly : Orderly request (w ++ c)) (h : At w s) :
    ∃ status s', requests.parse (requests.recv s c) = .ok (status, s') ∧
      Ends (w ++ c) status (message s') ∧ (status = .noEnoughData → At (w ++ c) s') := by
  cases h with
  | fresh hs wf storage unread _ =>
      have got := wf.recv storage c
      have arrived : (s.buf.recv c).unread = w ++ c := by rw [got.unread, unread]
      have cases' := fresh_cases (s := requests.recv s c) hs got.wf
      rw [show (requests.recv s c).buf.unread = w ++ c from arrived] at cases'
      rcases cases' with ⟨few, out⟩ | ⟨enough, ⟨other, out⟩ | ⟨found, out⟩⟩
      · exact ⟨_, _, out, .early few,
          fun _ => .fresh hs got.wf (storage.trans_le got.storage) arrived few⟩
      · exact ⟨_, _, out, .other enough other, by simp⟩
      · obtain ⟨r, u, y, whole⟩ := Drains.total request {} (w ++ c)
        rw [show requests.parse (requests.recv s c) = _ from out]
        exact resume_call ⟨got.wf, arrived, rfl⟩ (storage.trans_le got.storage) whole whole orderly
          enough found
  | @known ctx hs enough found at_ =>
      obtain ⟨m, hm, hpre⟩ := found
      obtain ⟨t, x, r, u, y, here, storage, rest, whole⟩ := at_.resume request_implements c
      have out : requests.parse (requests.recv s c) = resume ctx (s.buf.recv c) := by
        change parseRequest ⟨s.ctx, s.buf.recv c⟩ = _
        rw [hs]
        rfl
      rw [out]
      exact resume_call here storage rest whole orderly
        (enough.trans (by rw [List.length_append]; omega))
        ⟨m, hm, hpre.trans (List.prefix_append w c)⟩

/-- `parse_request` gives the answer of the stream, however it arrives. -/
theorem requests_end {b : Buffer} (wf : b.Wf) (storage : 0 < b.data.length) (empty : b.unread = [])
    {chunks : List Bytes} (orderly : Orderly request chunks.flatten) :
    ∃ status s, requests.feed ⟨none, b⟩ chunks = .ok (status, s) ∧
      Ends chunks.flatten status (message s) := by
  have start : At [] ⟨none, b⟩ := .fresh rfl wf storage empty (by decide)
  have feed := @Reader.feed_ends _ requests _ chunks _ _ _ (Orderly request) _ _
    (fun good h => h.call good) (fun h => h.waits) (fun final h => h.append final _)
    Orderly.before start
  rw [List.nil_append] at feed
  exact feed orderly

/-- A stream whose first `Content-Length`, if any, is a decimal an `int` can hold is
answered alike however it is cut, with the same message on `Success`. -/
theorem fragmentation_free {b : Buffer} (wf : b.Wf) (storage : 0 < b.data.length)
    (empty : b.unread = []) (chunks : List Bytes) (small : chunks.flatten.length < 2 ^ 31) :
    ((∀ text, Declares request chunks.flatten text → Decimal text) →
      SameOutcome message (requests.feed ⟨none, b⟩ chunks)
        (requests.feed ⟨none, b⟩ [chunks.flatten])) ∧
    ((∀ text, Declares response chunks.flatten text → Decimal text) →
      SameOutcome HTTPParser.message (responses.feed ⟨{}, b⟩ chunks)
        (responses.feed ⟨{}, b⟩ [chunks.flatten])) := by
  have whole : [chunks.flatten].flatten = chunks.flatten := List.flatten_singleton
  constructor
  · intro decimal
    obtain ⟨status, s, feed, ends⟩ := requests_end wf storage empty ⟨small, decimal⟩
    obtain ⟨status', s', feed', ends'⟩ := @requests_end b wf storage empty [chunks.flatten]
      (by rw [whole]; exact ⟨small, decimal⟩)
    rw [whole] at ends'
    obtain ⟨rfl, same⟩ := ends.unique ends'
    exact ⟨_, s, s', feed, feed', same⟩
  · intro decimal
    obtain ⟨status, p, feed, ends⟩ := responses_end wf storage empty ⟨small, decimal⟩
    obtain ⟨status', p', feed', ends'⟩ := @responses_end b wf storage empty [chunks.flatten]
      (by rw [whole]; exact ⟨small, decimal⟩)
    rw [whole] at ends'
    obtain ⟨rfl, same⟩ := ends.unique ends'
    exact ⟨_, p, p', feed, feed', same⟩

/-- A request cut inside both kinds of line break. -/
def cutRequest : List Bytes :=
  [ascii "POST /a/b HTTP/1.1\r", ascii "\nContent-Length: 3\r\n\r", ascii "\nxyz"]

theorem cutRequest_declares {text : Bytes} (h : Declares request cutRequest.flatten text) :
    text = ascii "3" := by
  obtain ⟨s, x, n, tmp, reached, h1, hl, h0, hf, _, _, _, value, _⟩ := h
  have line : request.stage {} cutRequest.flatten =
      .advance { httpMethod := some .post, service := ascii "a", method := ascii "b", stage := 1 }
        20 := by
    decide +kernel
  rcases reached.inv line with ⟨rfl, _⟩ | reached
  · cases h1
  have header : request.stage
      { httpMethod := some .post, service := ascii "a", method := ascii "b", stage := 1 }
      (cutRequest.flatten.drop 20) =
      .advance { httpMethod := some .post, service := ascii "a", method := ascii "b", stage := 1,
                 bodySize := 3, headers := [(contentLength, ascii "3")] } 19 := by
    decide +kernel
  rcases reached.inv header with ⟨rfl, rfl⟩ | reached
  · have len : lineEnd (cutRequest.flatten.drop 20) = some 17 := by decide +kernel
    have colon : firstMatch [58] ((cutRequest.flatten.drop 20).take 17) = some 14 := by
      decide +kernel
    obtain rfl := Option.some.inj (len.symm.trans hl)
    obtain rfl := Option.some.inj (colon.symm.trans hf)
    rw [← value]
    decide +kernel
  have empty : request.stage
      { httpMethod := some .post, service := ascii "a", method := ascii "b", stage := 1,
        bodySize := 3, headers := [(contentLength, ascii "3")] }
      ((cutRequest.flatten.drop 20).drop 19) =
      .advance { httpMethod := some .post, service := ascii "a", method := ascii "b", stage := 2,
                 bodySize := 3, headers := [(contentLength, ascii "3")] } 2 := by
    decide +kernel
  rcases reached.inv empty with ⟨rfl, rfl⟩ | reached
  · have len : lineEnd ((cutRequest.flatten.drop 20).drop 19) = some 0 := by decide +kernel
    exact absurd (Option.some.inj (len.symm.trans hl)).symm h0
  · obtain ⟨rfl, _⟩ := reached.halted (request_implements.headed le_rfl)
    cases h1

theorem cutRequest_fragmentation_free :
    SameOutcome message (requests.feed ⟨none, Buffer.ofSize 64⟩ cutRequest)
      (requests.feed ⟨none, Buffer.ofSize 64⟩ [cutRequest.flatten]) := by
  refine (fragmentation_free (Buffer.ofSize_wf 64) (by decide) (Buffer.ofSize_unread 64) cutRequest
    (by decide +kernel)).1 fun text declared => ?_
  rw [cutRequest_declares declared]
  exact ⟨by decide, by decide +kernel, by decide +kernel⟩

end HTTPProtocol
end SmallRpc
