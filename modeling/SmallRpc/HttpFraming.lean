import SmallRpc.HttpContext
import SmallRpc.Resumable

/-! The HTTP head as a resumable machine over bytes: a start line, then header lines up
to the empty one. It stops there; what follows is the body test, which is not stable
under more input. The views of the context play no part in it. -/
namespace SmallRpc
open Resumable
open FirstMatch (firstMatch firstMatch_eq_some_iff firstMatch_take_append firstMatch_full_window
  firstMatch_bound)

namespace HTTPContext
open HTTPParser (maxHeadlineSize)

/-- How reading a head ends. -/
inductive HeadEnd where
  | failed
  | thrown
  | headed
  deriving DecidableEq, Repr

abbrev HeadVerdict := Verdict HTTPContext HeadEnd

/-- Where the first line ends, if within the size the parser looks at. -/
def lineEnd (w : Bytes) : Option Nat := firstMatch Buffer.crlf (w.take maxHeadlineSize)

/-- Service and method of a target of `tmp` bytes: between its first two slashes, and
behind the second. -/
def takeTarget (s : HTTPContext) (url : Bytes) (tmp : Nat) : HTTPContext :=
  match firstMatch [47] ((url.drop 1).take tmp) with
  | none => s
  | some tmp2 =>
    { s with service := (url.drop 1).take tmp2
             method := (url.drop (1 + tmp2 + 1)).take (sizeSub tmp (tmp2 + 2)) }

/-- The request line `text` behind a method name of `offset` bytes; `none` is an error. -/
def takeUrl (s : HTTPContext) (text : Bytes) (offset : Nat) : Option HTTPContext :=
  let url := text.drop (offset + 1)
  if text[offset]? ≠ some 32 then none
  else match firstMatch [32] url with
    | none => none
    | some tmp =>
      if tmp = 0 ∨ url.head? ≠ some 47 ∨ 32 ∈ url.drop (tmp + 1) then none
      else some (takeTarget s url tmp)

/-- The method name in front of a line. -/
def lineMethod (line : Bytes) : Option HTTPMethod :=
  HTTPMethod.tried.find? fun m => m.name.isPrefixOf line

def takeRequestLine (s : HTTPContext) (line : Bytes) : Option HTTPContext :=
  let found := lineMethod line
  let httpMethod := found.or s.httpMethod
  if httpMethod = none then none
  else takeUrl { s with httpMethod } line (found.elim 0 fun m => m.name.length)

/-- The first line of `w`, once it is there, is answered by `taken`. -/
def onLine (taken : Nat → Bytes → HeadVerdict) (w : Bytes) : HeadVerdict :=
  match lineEnd w with
  | none => if w.length < maxHeadlineSize then .more else .stop .failed
  | some n => taken n (w.take n)

def requestLineVerdict (s : HTTPContext) : Bytes → HeadVerdict :=
  onLine fun n line => match takeRequestLine s line with
    | none => .stop .failed
    | some s => .advance { s with stage := 1 } (n + 2)

def responseLineVerdict (s : HTTPContext) : Bytes → HeadVerdict :=
  onLine fun n _ => .advance { s with stage := 1 } (n + 2)

/-- What a non-empty header line does; `none` is an error. -/
def takeHeader (s : HTTPContext) (line : Bytes) : Option (Except Fault HTTPContext) :=
  match firstMatch [58] line with
  | none => none
  | some 0 => none
  | some tmp => some (addHeader s (trim (line.take tmp)) (trim (line.drop (tmp + 1))))

def headerVerdict (s : HTTPContext) : Bytes → HeadVerdict :=
  onLine fun n line =>
    if n = 0 then .advance { s with stage := 2 } 2
    else match takeHeader s line with
      | none => .stop .failed
      | some (.error _) => .stop .thrown
      | some (.ok s) => .advance s (n + 2)

def requestVerdict (s : HTTPContext) (w : Bytes) : HeadVerdict :=
  match s.stage with
  | 0 => requestLineVerdict s w
  | 1 => headerVerdict s w
  | _ => .stop .headed

def responseVerdict (s : HTTPContext) (w : Bytes) : HeadVerdict :=
  match s.stage with
  | 0 => responseLineVerdict s w
  | 1 => headerVerdict s w
  | _ => .stop .headed

variable {s s' : HTTPContext} {line w v : Bytes} {n k : Nat}

theorem lineEnd_bound (h : lineEnd w = some n) : n + 2 ≤ w.length := by
  have hb := firstMatch_bound h
  rw [List.length_take] at hb
  have h2 : Buffer.crlf.length = 2 := rfl
  omega

theorem lineEnd_append (h : lineEnd w = some n) (v : Bytes) : lineEnd (w ++ v) = some n :=
  firstMatch_take_append h

theorem lineEnd_full (h : ¬ w.length < maxHeadlineSize) (v : Bytes) :
    lineEnd (w ++ v) = lineEnd w := firstMatch_full_window (by omega)

/-- The first line break is the one behind a line without any. -/
theorem lineEnd_first (noBreak : ¬ Buffer.crlf <:+: line) (fits : line.length ≤ 65534) (v : Bytes) :
    lineEnd (line ++ Buffer.crlf ++ v) = some line.length := by
  have short : (line ++ Buffer.crlf).length ≤ HTTPParser.maxHeadlineSize := by
    rw [List.length_append]
    exact Nat.add_le_add_right fits 2
  rw [lineEnd, List.take_append, List.take_of_length_le short, List.append_assoc,
    firstMatch_eq_some_iff]
  refine ⟨?_, by simp, fun m hm here => noBreak ?_⟩
  · rw [List.drop_left]
    exact List.prefix_append _ _
  · obtain ⟨rest, hrest⟩ := here
    rw [List.drop_append_of_le_length hm.le] at hrest
    have whole := List.take_append_drop m line
    cases tail : line.drop m with
    | nil =>
        have none := List.drop_eq_nil_iff.mp tail
        omega
    | cons a l =>
        rw [tail] at hrest whole
        cases l with
        | nil => cases hrest
        | cons b l =>
            simp only [Buffer.crlf, List.cons_append, List.cons.injEq] at hrest
            obtain ⟨rfl, rfl, _⟩ := hrest
            exact ⟨line.take m, l, by simpa [Buffer.crlf] using whole⟩

theorem line_append (h : lineEnd w = some n) (v : Bytes) : (w ++ v).take n = w.take n :=
  List.take_append_of_le_length (by have := lineEnd_bound h; omega)

theorem onLine_advance {taken : Nat → Bytes → HeadVerdict} (h : onLine taken w = .advance s' k) :
    ∃ n, lineEnd w = some n ∧ taken n (w.take n) = .advance s' k := by
  unfold onLine at h
  cases hl : lineEnd w with
  | none =>
      simp only [hl] at h
      split_ifs at h
  | some n => exact ⟨n, rfl, by simpa only [hl] using h⟩

/-- A verdict on the first line alone is settled if it consumes the line. -/
theorem onLine_settled {taken : HTTPContext → Nat → Bytes → HeadVerdict}
    (consumes : ∀ {s n line s' k}, taken s n line = .advance s' k → k = n + 2) :
    Settled fun s => onLine (taken s) where
  progress {s w s' k} h := by
    unfold onLine at h
    cases hl : lineEnd w with
    | none =>
        simp only [hl] at h
        split_ifs at h
    | some n =>
        simp only [hl] at h
        have hk := consumes h
        have hb := lineEnd_bound hl
        omega
  stable {s w} v h := by
    unfold onLine at h ⊢
    cases hl : lineEnd w with
    | none =>
        simp only [hl] at h
        have full : ¬ w.length < maxHeadlineSize := fun hlt => h (if_pos hlt)
        have longer : ¬ (w ++ v).length < maxHeadlineSize := by
          rw [List.length_append]
          omega
        simp only [lineEnd_full full, hl, full, longer, if_false]
    | some n => simp only [lineEnd_append hl, line_append hl]

theorem requestLineVerdict_settled : Settled requestLineVerdict :=
  onLine_settled fun {s n line s' k} h => by
    split at h <;> cases h
    rfl

theorem responseLineVerdict_settled : Settled responseLineVerdict :=
  onLine_settled fun {s n line s' k} h => by
    cases h
    rfl

theorem headerVerdict_settled : Settled headerVerdict :=
  onLine_settled fun {s n line s' k} h => by
    split_ifs at h with h0
    · cases h
      rw [h0]
    · split at h <;> cases h
      rfl

/-- The head of a request, once it is known to be HTTP. -/
def request : Machine UInt8 HTTPContext HeadEnd where
  stage := requestVerdict
  progress {s w s' n} h := by
    unfold requestVerdict at h
    split at h
    · exact requestLineVerdict_settled.progress h
    · exact headerVerdict_settled.progress h
    · cases h
  stable {s w} v h := by
    unfold requestVerdict at h ⊢
    split
    · simp_all only
      exact requestLineVerdict_settled.stable v h
    · simp_all only
      exact headerVerdict_settled.stable v h
    · rfl

def response : Machine UInt8 HTTPContext HeadEnd where
  stage := responseVerdict
  progress {s w s' n} h := by
    unfold responseVerdict at h
    split at h
    · exact responseLineVerdict_settled.progress h
    · exact headerVerdict_settled.progress h
    · cases h
  stable {s w} v h := by
    unfold responseVerdict at h ⊢
    split
    · simp_all only
      exact responseLineVerdict_settled.stable v h
    · simp_all only
      exact headerVerdict_settled.stable v h
    · rfl

end HTTPContext
end SmallRpc
