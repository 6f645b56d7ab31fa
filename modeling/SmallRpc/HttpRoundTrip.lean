import SmallRpc.HttpFragments
import SmallRpc.Packing

/-! Packing and parsing HTTP: the head that one side prints, line by line, is the head
that the other side reads, and the body behind it is not looked into. -/
namespace SmallRpc
open Resumable
open FirstMatch (firstMatch)

/-! ### Decimal lengths -/

namespace HTTPContext

theorem toText_digits (n : Nat) : ∀ c ∈ toText n, isDigit c = true := by
  intro c hc
  obtain ⟨d, hd, rfl⟩ := List.mem_map.mp hc
  have digit := Nat.isDigit_of_mem_toDigits (by decide) (by decide) hd
  simp only [Char.isDigit, Bool.and_eq_true, decide_eq_true_eq, UInt32.le_iff_toNat_le] at digit
  have low : 48 ≤ d.toNat := digit.1
  have high : d.toNat ≤ 57 := digit.2
  have byte : (UInt8.ofNat d.toNat).toNat = d.toNat := by
    rw [UInt8.toNat_ofNat']
    omega
  simp only [isDigit, Bool.and_eq_true, decide_eq_true_eq, UInt8.le_iff_toNat_le, byte]
  exact ⟨low, high⟩

theorem toText_value (n : Nat) : decimalValue (toText n) = n := by
  have bytes : ∀ (ds : List Char), (∀ d ∈ ds, d.isDigit = true) → ∀ a,
      (ds.map fun c => UInt8.ofNat c.toNat).foldl (fun a c => 10 * a + (c.toNat - 48)) a =
        Nat.ofDigitChars 10 ds a := by
    intro ds
    induction ds with
    | nil =>
        intro _ a
        rw [Nat.ofDigitChars_nil]
        rfl
    | cons d ds ih =>
        intro digits a
        have digit := digits d List.mem_cons_self
        simp only [Char.isDigit, Bool.and_eq_true, decide_eq_true_eq, UInt32.le_iff_toNat_le] at digit
        have high : d.toNat ≤ 57 := digit.2
        have byte : (UInt8.ofNat d.toNat).toNat = d.toNat := by
          rw [UInt8.toNat_ofNat']
          omega
        rw [List.map_cons, List.foldl_cons, ih (fun e he => digits e (List.mem_cons_of_mem _ he)),
          Nat.ofDigitChars_cons, byte]
        rfl
  have whole := bytes (Nat.toDigits 10 n)
    (fun d hd => Nat.isDigit_of_mem_toDigits (by decide) (by decide) hd) 0
  rw [Nat.ofDigitChars_ten_toDigits] at whole
  exact whole

theorem toText_ne_nil (n : Nat) : toText n ≠ [] := by
  intro empty
  exact Nat.toDigits_ne_nil (List.map_eq_nil_iff.mp empty)

/-- `to_string` prints what `stoi` reads. -/
theorem toText_decimal {n : Nat} (small : n < 2 ^ 31) : Decimal (toText n) :=
  ⟨toText_ne_nil n, toText_digits n, by rw [toText_value]; exact small⟩

theorem stoi_toText {n : Nat} (small : n < 2 ^ 31) : stoi (toText n) = .ok (n : Int) := by
  rw [stoi_decimal (toText_decimal small), toText_value]

/-- A text without a blank at either end is trimmed already; one blank in front goes. -/
theorem trim_blank {text : Bytes} (h : 32 ∉ text) : trim (32 :: text) = text := by
  have front : (32 :: text).dropWhile (· = 32) = text := by
    rw [List.dropWhile_cons, if_pos (by decide)]
    cases text with
    | nil => rfl
    | cons c cs =>
        have : c ≠ 32 := fun hc => h (by rw [hc]; exact List.mem_cons_self)
        rw [List.dropWhile_cons, if_neg (by simpa using this)]
  rw [trim, front]
  apply List.rdropWhile_eq_self_iff.mpr
  intro hne blank
  have : text.getLast hne = 32 := by simpa using blank
  exact h (by rw [← this]; exact List.getLast_mem hne)

theorem digits_no {n : Nat} {c : UInt8} (h : isDigit c = false) : c ∉ toText n := by
  intro hc
  rw [toText_digits n c hc] at h
  cases h

variable {s s' : HTTPContext} {line v w : Bytes} {n : Nat}

/-! ### Lines -/

theorem lineEnd_line (noCr : 13 ∉ line) (fits : line.length ≤ 65534) (v : Bytes) :
    lineEnd (line ++ (13 :: 10 :: v)) = some line.length := by
  have noBreak : ¬ Buffer.crlf <:+: line := fun h => noCr (h.subset (by simp [Buffer.crlf]))
  have first := lineEnd_first noBreak fits v
  rwa [List.append_assoc] at first

theorem onLine_line {taken : Nat → Bytes → HeadVerdict} (noCr : 13 ∉ line)
    (fits : line.length ≤ 65534) (v : Bytes) :
    onLine taken (line ++ (13 :: 10 :: v)) = taken line.length line := by
  simp only [onLine, lineEnd_line noCr fits, List.take_left]

/-- A header line is read as its key and its value. -/
theorem headerVerdict_line {key value : Bytes} (some : key ≠ []) (noColon : 58 ∉ key)
    (noCr : 13 ∉ key ++ 58 :: value) (fits : (key ++ 58 :: value).length ≤ 65534)
    (added : s.addHeader (trim key) (trim value) = .ok s') (v : Bytes) :
    headerVerdict s ((key ++ 58 :: value) ++ (13 :: 10 :: v)) =
      .advance s' ((key ++ 58 :: value).length + 2) := by
  have colon := FirstMatch.firstMatch_singleton_append noColon value
  have nonempty : (key ++ 58 :: value).length ≠ 0 := by simp
  have pos : key.length ≠ 0 := fun h => some (List.eq_nil_of_length_eq_zero h)
  have header : takeHeader s (key ++ 58 :: value) = .some (.ok s') := by
    unfold takeHeader
    rw [colon]
    cases hk : key.length with
    | zero => exact absurd hk pos
    | succ k =>
        simp only [← hk, List.take_left, List.drop_append, Nat.add_sub_cancel_left,
          List.drop_eq_nil_of_le (Nat.le_succ _), List.nil_append, List.drop_succ_cons,
          List.drop_zero, added]
  rw [headerVerdict, onLine_line noCr fits, if_neg nonempty, header]

theorem headerVerdict_empty (v : Bytes) :
    headerVerdict s (13 :: 10 :: v) = .advance { s with stage := 2 } 2 :=
  @onLine_line [] _ (by simp) (by simp) v

/-! ### Heads -/

/-- What the packed `Connection` header leaves at a reader that holds a type, and at a new one. -/
def heldConnType (held c : ConnType) : ConnType := if c = .short then held else .single

def keptConnType (c : ConnType) : ConnType := heldConnType .short c

def connectionValue (c : ConnType) : Bytes :=
  if c = .short then ascii "Close" else ascii "Keep-Alive"

/-- The headers of a packed message. -/
def packedHeaders (ctx : HTTPContext) : List (Bytes × Bytes) :=
  [(ascii "Connection", connectionValue ctx.connType),
    (ascii "Content-Type", ascii "application/data"), (contentLength, toText ctx.payload.length)]

/-- The pieces of the header lines, the same in both messages. -/
def headerPieces (ctx : HTTPContext) : List Bytes :=
  [ctx.connectionLine, ascii "Content-Type: application/data\r\n", ascii "Content-Length: ",
    toText ctx.payload.length, ascii "\r\n\r\n"]

def requestPieces (ctx : HTTPContext) : List Bytes :=
  [ascii "POST /", ctx.service, ascii "/", ctx.method, ascii " HTTP/1.1\r\n"] ++ ctx.headerPieces

def responsePieces (ctx : HTTPContext) : List Bytes :=
  ascii "HTTP/1.1 200 OK\r\n" :: ctx.headerPieces

variable {ctx : HTTPContext} {wr out : Buffer} {M : Machine UInt8 HTTPContext HeadEnd}
  {stage : HTTPParser → Except Fault (Flow HTTPParser)}

theorem packRequest_eq : ctx.packRequest wr =
    (fun b => b.appendExtra ctx.payload) <$> wr.appendAll ctx.requestPieces := by
  simp only [packRequest, Buffer.appendAll, requestPieces, headerPieces, List.foldlM_cons,
    List.foldlM_nil, List.cons_append, List.nil_append, bind_pure, map_eq_pure_bind, bind_assoc]

theorem packResponse_eq : ctx.packResponse wr =
    (fun b => b.appendExtra ctx.payload) <$> wr.appendAll ctx.responsePieces := by
  simp only [packResponse, Buffer.appendAll, responsePieces, headerPieces, List.foldlM_cons,
    List.foldlM_nil, bind_pure, map_eq_pure_bind, bind_assoc]

theorem connectionLine_eq (ctx : HTTPContext) : ctx.connectionLine =
    (ascii "Connection" ++ 58 :: 32 :: connectionValue ctx.connType) ++ [13, 10] := by
  unfold connectionLine connectionValue
  split_ifs <;> decide

theorem lookup_new {headers : List (Bytes × Bytes)} {key : Bytes}
    (new : key ∉ headers.map Prod.fst) : headers.lookup key = none := by
  rw [List.lookup_eq_none_iff]
  intro header hm
  have other : key ≠ header.1 := fun same => new (List.mem_map.mpr ⟨header, hm, same.symm⟩)
  simpa using other

theorem addHeader_other {key value : Bytes} (some : key ≠ []) (some' : value ≠ [])
    (new : s.headers.lookup key = none) (other : key ≠ contentLength) :
    s.addHeader key value = .ok { s with
      connType := if key = ascii "Connection" ∧ value = ascii "Keep-Alive" then .single
        else s.connType
      headers := s.headers ++ [(key, value)] } := by
  have added : s.addHeader key value = _ := if_pos ⟨some, some', new⟩
  rw [added, if_neg (show key ≠ ascii "Content-Length" from other)]
  rfl

theorem addHeader_length {value : Bytes} {size : Int} (some : value ≠ [])
    (new : s.headers.lookup contentLength = none) (read : stoi value = .ok size) :
    s.addHeader contentLength value = .ok { s with
      bodySize := size
      headers := s.headers ++ [(contentLength, value)] } := by
  have added : s.addHeader contentLength value = _ := if_pos ⟨by decide, some, new⟩
  have length : contentLength = ascii "Content-Length" := rfl
  have other : ¬ (contentLength = ascii "Connection" ∧ value = ascii "Keep-Alive") :=
    fun both => absurd both.1 (by decide)
  rw [added, if_pos length, read, if_neg other]
  rfl

theorem connectionValue_cases (c : ConnType) :
    connectionValue c = ascii "Close" ∧ c = .short ∨
      connectionValue c = ascii "Keep-Alive" ∧ c ≠ .short := by
  unfold connectionValue
  split_ifs with short
  · exact .inl ⟨rfl, short⟩
  · exact .inr ⟨rfl, short⟩

section Added
variable {c : ConnType} {k : Nat}

theorem connection_added (fresh : s.headers = []) :
    s.addHeader (trim (ascii "Connection")) (trim (32 :: connectionValue c)) =
      .ok { s with connType := heldConnType s.connType c
                   headers := [(ascii "Connection", connectionValue c)] } := by
  have key : trim (ascii "Connection") = ascii "Connection" := by decide
  have new : ascii "Connection" ∉ s.headers.map Prod.fst := by simp [fresh]
  rcases connectionValue_cases c with ⟨value, short⟩ | ⟨value, long⟩
  · have close : ¬ (ascii "Connection" = ascii "Connection" ∧ ascii "Close" = ascii "Keep-Alive") := by
      decide
    rw [value, heldConnType, if_pos short, key, trim_blank (by decide),
      addHeader_other (by decide) (by decide) (lookup_new new) (by decide), if_neg close, fresh,
      List.nil_append]
  · rw [value, heldConnType, if_neg long, key, trim_blank (by decide),
      addHeader_other (by decide) (by decide) (lookup_new new) (by decide), if_pos ⟨rfl, rfl⟩, fresh,
      List.nil_append]

theorem type_added (before : s.headers = [(ascii "Connection", connectionValue c)]) :
    s.addHeader (trim (ascii "Content-Type")) (trim (32 :: ascii "application/data")) =
      .ok { s with headers := s.headers ++ [(ascii "Content-Type", ascii "application/data")] } := by
  have key : trim (ascii "Content-Type") = ascii "Content-Type" := by decide
  have other : ¬ (ascii "Content-Type" = ascii "Connection" ∧
      ascii "application/data" = ascii "Keep-Alive") := by decide
  have new : ascii "Content-Type" ∉ s.headers.map Prod.fst := by
    rw [before]
    change ascii "Content-Type" ∉ [ascii "Connection"]
    decide
  rw [key, trim_blank (by decide), addHeader_other (by decide) (by decide) (lookup_new new)
    (by decide), if_neg other]

theorem length_added (before : s.headers = [(ascii "Connection", connectionValue c),
    (ascii "Content-Type", ascii "application/data")]) (small : k < 2 ^ 31) :
    s.addHeader (trim contentLength) (trim (32 :: toText k)) =
      .ok { s with bodySize := k, headers := s.headers ++ [(contentLength, toText k)] } := by
  have key : trim contentLength = contentLength := by decide
  have new : contentLength ∉ s.headers.map Prod.fst := by
    rw [before]
    change contentLength ∉ [ascii "Connection", ascii "Content-Type"]
    decide
  rw [key, trim_blank (digits_no (by decide)), addHeader_length (toText_ne_nil _) (lookup_new new)
    (stoi_toText small)]

theorem connectionValue_line (c : ConnType) :
    13 ∉ ascii "Connection" ++ 58 :: 32 :: connectionValue c ∧
      (ascii "Connection" ++ 58 :: 32 :: connectionValue c).length ≤ 65534 := by
  rcases connectionValue_cases c with ⟨value, _⟩ | ⟨value, _⟩ <;> rw [value] <;> decide

theorem toText_length (small : k < 2 ^ 31) : (toText k).length ≤ 10 := by
  rw [toText, List.length_map]
  exact (Nat.length_toDigits_le_iff (by decide) (by decide)).mpr (small.trans (by decide))

theorem lengthValue_line (small : k < 2 ^ 31) : 13 ∉ contentLength ++ 58 :: 32 :: toText k ∧
    (contentLength ++ 58 :: 32 :: toText k).length ≤ 65534 := by
  have digits := toText_length small
  have noCr : 13 ∉ toText k := digits_no (by decide)
  have key : 13 ∉ contentLength := by decide
  have keyLength : contentLength.length = 14 := by decide
  constructor
  · simp [key, noCr]
  · simp only [List.length_append, List.length_cons, keyLength]
    omega

end Added

theorem drop_line (line v : Bytes) : (line ++ (13 :: 10 :: v)).drop (line.length + 2) = v := by
  simp [List.drop_append]

/-- The header lines of a packed message, one by one. -/
theorem headerPieces_eq (ctx : HTTPContext) (v : Bytes) : ctx.headerPieces.flatten ++ v =
    (ascii "Connection" ++ 58 :: 32 :: connectionValue ctx.connType) ++ (13 :: 10 ::
      ((ascii "Content-Type" ++ 58 :: 32 :: ascii "application/data") ++ (13 :: 10 ::
        ((contentLength ++ 58 :: 32 :: toText ctx.payload.length) ++ (13 :: 10 ::
          (13 :: 10 :: v)))))) := by
  have typeLine : ascii "Content-Type: application/data\r\n" =
      (ascii "Content-Type" ++ 58 :: 32 :: ascii "application/data") ++ [13, 10] := by decide
  have lengthLine : ascii "Content-Length: " = contentLength ++ [58, 32] := by decide
  have emptyLine : ascii "\r\n\r\n" = [13, 10, 13, 10] := by decide
  simp only [headerPieces, connectionLine_eq, typeLine, lengthLine, emptyLine, List.flatten_cons,
    List.flatten_nil, List.append_assoc, List.append_nil, List.cons_append, List.nil_append]

theorem header_drains {key value x : Bytes} {r : Option HeadEnd} {t : HTTPContext}
    (imp : HTTPParser.Implements stage M) (some : key ≠ []) (noColon : 58 ∉ key)
    (noCr : 13 ∉ key ++ 58 :: value) (fits : (key ++ 58 :: value).length ≤ 65534)
    (added : s.addHeader (trim key) (trim value) = .ok s') (h1 : s.stage = 1)
    (rest : Drains M s' v r t x) :
    Drains M s ((key ++ 58 :: value) ++ (13 :: 10 :: v)) r t x := by
  apply Drains.advance ((imp.headers h1).trans (headerVerdict_line some noColon noCr fits added v))
  rw [drop_line]
  exact rest

/-- They are read from behind the first line, and the body is what is left. -/
theorem headers_drain (imp : HTTPParser.Implements stage M) (h1 : s.stage = 1)
    (fresh : s.headers = []) (small : ctx.payload.length < 2 ^ 31) (v : Bytes) :
    Drains M s (ctx.headerPieces.flatten ++ v) (some .headed)
      { s with stage := 2, connType := heldConnType s.connType ctx.connType,
               headers := ctx.packedHeaders, bodySize := ctx.payload.length } v := by
  obtain ⟨noCr₁, fits₁⟩ := connectionValue_line ctx.connType
  obtain ⟨noCr₃, fits₃⟩ := lengthValue_line small
  rw [headerPieces_eq]
  refine header_drains imp (by decide) (by decide) noCr₁ fits₁ (connection_added fresh) h1 ?_
  refine header_drains imp (by decide) (by decide) (by decide) (by decide) (type_added rfl) h1 ?_
  refine header_drains imp (by decide) (by decide) noCr₃ fits₃ (length_added rfl small) h1 ?_
  apply Drains.advance ((imp.headers (by exact h1)).trans (headerVerdict_empty v))
  exact .stop (imp.headed le_rfl)

theorem lineMethod_post (v : Bytes) : lineMethod (ascii "POST /" ++ v) = some .post := by
  have name : ascii "POST /" = [80, 79, 83, 84, 32, 47] := by decide
  rw [name]
  rfl

theorem takeTarget_packed {service method : Bytes} (noSlash : 47 ∉ service) (v : Bytes) :
    takeTarget s (47 :: (service ++ 47 :: (method ++ v))) (service.length + 1 + method.length + 1) =
      { s with service, method } := by
  have found : firstMatch [47]
      ((service ++ 47 :: (method ++ v)).take (service.length + 1 + method.length + 1)) =
        some service.length := by
    have window : (service ++ 47 :: (method ++ v)).take (service.length + 1 + method.length + 1) =
        service ++ 47 :: (method ++ v).take (method.length + 1) := by
      rw [List.take_append, List.take_of_length_le (by omega),
        show service.length + 1 + method.length + 1 - service.length = method.length + 1 + 1 by omega,
        List.take_succ_cons]
    rw [window]
    exact FirstMatch.firstMatch_singleton_append noSlash _
  have size : sizeSub (service.length + 1 + method.length + 1) (service.length + 2) = method.length := by
    rw [Buffer.sizeSub_of_le (by omega)]
    omega
  have rest : (47 :: (service ++ 47 :: (method ++ v))).drop (1 + service.length + 1) = method ++ v := by
    rw [show 1 + service.length + 1 = service.length + 1 + 1 by omega, List.drop_succ_cons]
    simp [List.drop_append]
  rw [takeTarget, List.drop_succ_cons, List.drop_zero, found]
  simp only [List.take_left, rest, size]

/-- The first line of a packed request. -/
theorem takeRequestLine_packed (noSlash : 47 ∉ ctx.service) (noSpace : 32 ∉ ctx.service)
    (noSpace' : 32 ∉ ctx.method) : takeRequestLine {}
      (ascii "POST /" ++ (ctx.service ++ 47 :: (ctx.method ++ 32 :: ascii "HTTP/1.1"))) =
        some { httpMethod := some .post, service := ctx.service, method := ctx.method } := by
  have name : ascii "POST /" = [80, 79, 83, 84, 32, 47] := by decide
  have target : firstMatch [32]
      (47 :: (ctx.service ++ 47 :: (ctx.method ++ 32 :: ascii "HTTP/1.1"))) =
        some (ctx.service.length + 1 + ctx.method.length + 1) := by
    have shape : 47 :: (ctx.service ++ 47 :: (ctx.method ++ 32 :: ascii "HTTP/1.1")) =
        (47 :: (ctx.service ++ 47 :: ctx.method)) ++ 32 :: ascii "HTTP/1.1" := by simp
    have none : 32 ∉ 47 :: (ctx.service ++ 47 :: ctx.method) := by
      simp [noSpace, noSpace']
    rw [shape, FirstMatch.firstMatch_singleton_append none]
    simp only [List.length_cons, List.length_append]
    congr 1
    omega
  have version : 32 ∉ (47 :: (ctx.service ++ 47 :: (ctx.method ++ 32 :: ascii "HTTP/1.1"))).drop
      (ctx.service.length + 1 + ctx.method.length + 1 + 1) := by
    have behind : (47 :: (ctx.service ++ 47 :: (ctx.method ++ 32 :: ascii "HTTP/1.1"))).drop
        (ctx.service.length + 1 + ctx.method.length + 1 + 1) = ascii "HTTP/1.1" := by
      rw [List.drop_succ_cons, List.drop_append, List.drop_eq_nil_of_le (by omega), List.nil_append,
        show ctx.service.length + 1 + ctx.method.length + 1 - ctx.service.length =
          ctx.method.length + 1 + 1 by omega, List.drop_succ_cons, List.drop_append,
        List.drop_eq_nil_of_le (by omega), Nat.add_sub_cancel_left]
      rfl
    rw [behind]
    decide
  have url : takeUrl { httpMethod := some .post }
      (ascii "POST /" ++ (ctx.service ++ 47 :: (ctx.method ++ 32 :: ascii "HTTP/1.1"))) 4 =
        some { httpMethod := some .post, service := ctx.service, method := ctx.method } := by
    rw [name, takeUrl]
    simp only [List.cons_append, List.nil_append, List.drop_succ_cons, List.drop_zero, target]
    rw [if_neg (by simp), if_neg (by simpa using version), takeTarget_packed noSlash]
  rw [takeRequestLine, lineMethod_post]
  exact (if_neg (by simp)).trans url

theorem request_drains (noSlash : 47 ∉ ctx.service) (noSpace : 32 ∉ ctx.service)
    (noCr : 13 ∉ ctx.service) (noSpace' : 32 ∉ ctx.method) (noCr' : 13 ∉ ctx.method)
    (line : 16 + ctx.service.length + ctx.method.length ≤ 65534)
    (small : ctx.payload.length < 2 ^ 31) :
    Drains request {} (ctx.requestPieces.flatten ++ ctx.payload) (some .headed)
      { stage := 2, httpMethod := some .post, connType := keptConnType ctx.connType,
        service := ctx.service, method := ctx.method, headers := ctx.packedHeaders,
        bodySize := ctx.payload.length } ctx.payload := by
  generalize hl : ascii "POST /" ++ (ctx.service ++ 47 :: (ctx.method ++ 32 :: ascii "HTTP/1.1")) =
    text
  have version : ascii " HTTP/1.1\r\n" = 32 :: ascii "HTTP/1.1" ++ [13, 10] := by decide
  have slash : ascii "/" = [47] := by decide
  have bytes : ctx.requestPieces.flatten ++ ctx.payload =
      text ++ (13 :: 10 :: (ctx.headerPieces.flatten ++ ctx.payload)) := by
    simp only [← hl, requestPieces, version, slash, List.flatten_cons, List.append_assoc, List.cons_append, List.nil_append]
  have noCrs : 13 ∉ text := by
    have post : 13 ∉ ascii "POST /" := by decide
    have http : 13 ∉ ascii "HTTP/1.1" := by decide
    rw [← hl]
    simp [post, http, noCr, noCr']
  have fits : text.length ≤ 65534 := by
    have post : (ascii "POST /").length = 6 := by decide
    have http : (ascii "HTTP/1.1").length = 8 := by decide
    rw [← hl]
    simp only [List.length_append, List.length_cons, post, http]
    omega
  have first : request.stage {} (text ++ (13 :: 10 :: (ctx.headerPieces.flatten ++ ctx.payload))) =
      .advance { stage := 1, httpMethod := some .post, service := ctx.service, method := ctx.method }
        (text.length + 2) := by
    change requestLineVerdict {} _ = _
    rw [requestLineVerdict, onLine_line noCrs fits, ← hl,
      takeRequestLine_packed noSlash noSpace noSpace']
  rw [bytes]
  apply Drains.advance first
  rw [drop_line]
  exact headers_drain HTTPParser.request_implements rfl rfl small _

theorem response_drains (h0 : s.stage = 0) (fresh : s.headers = [])
    (small : ctx.payload.length < 2 ^ 31) :
    Drains response s (ctx.responsePieces.flatten ++ ctx.payload) (some .headed)
      { s with stage := 2, connType := heldConnType s.connType ctx.connType,
               headers := ctx.packedHeaders, bodySize := ctx.payload.length } ctx.payload := by
  have status : ascii "HTTP/1.1 200 OK\r\n" = ascii "HTTP/1.1 200 OK" ++ [13, 10] := by decide
  have noCr : 13 ∉ ascii "HTTP/1.1 200 OK" := by decide
  have fits : (ascii "HTTP/1.1 200 OK").length ≤ 65534 := by decide
  rw [responsePieces, status]
  generalize ascii "HTTP/1.1 200 OK" = text at noCr fits
  have bytes : ((text ++ [13, 10]) :: ctx.headerPieces).flatten ++ ctx.payload =
      text ++ (13 :: 10 :: (ctx.headerPieces.flatten ++ ctx.payload)) := by
    simp only [List.flatten_cons, List.append_assoc, List.cons_append, List.nil_append]
  have first : response.stage s (text ++ (13 :: 10 :: (ctx.headerPieces.flatten ++ ctx.payload))) =
      .advance { s with stage := 1 } (text.length + 2) := by
    change responseVerdict s _ = _
    simp only [responseVerdict, h0, responseLineVerdict, onLine_line noCr fits]
  rw [bytes]
  apply Drains.advance first
  rw [drop_line]
  exact headers_drain (s := { s with stage := 1 }) HTTPParser.response_implements rfl fresh small _

theorem headerPieces_short (small : ctx.payload.length < 2 ^ 31) :
    ∀ mem ∈ ctx.headerPieces, mem.length ≤ 32 := by
  have digits := toText_length small
  have connection : ctx.connectionLine.length ≤ 24 := by
    unfold connectionLine
    split_ifs <;> decide
  simp only [headerPieces, List.forall_mem_cons, List.not_mem_nil, false_implies, implies_true,
    and_true]
  exact ⟨by omega, by decide, by decide, by omega, by decide⟩

theorem headerPieces_small (small : ctx.payload.length < 2 ^ 31) :
    ∀ mem ∈ ctx.headerPieces, mem.length < 2 ^ 31 := fun mem hm =>
  (headerPieces_short small mem hm).trans_lt (by decide)

/-- Packed and parsed again: every session that has received just the bytes of
`pack_request` finds the call in them. -/
def RequestTrip (ctx : HTTPContext) (wr : Buffer) : Prop :=
  ∃ out head, ctx.packRequest wr = .ok out ∧ out.unread = wr.unread ++ head ∧
    ∀ rd, Buffer.Wf rd → rd.unread = head ++ out.extraData →
      ∃ c buf, HTTPProtocol.parseRequest ⟨none, rd⟩ = .ok (.success, ⟨some (.http c), buf⟩) ∧
        c.service = ctx.service ∧ c.method = ctx.method ∧
        c.connType = keptConnType ctx.connType ∧ c.payloadView.str buf = .ok ctx.payload

def ResponseTrip (ctx : HTTPContext) (wr : Buffer) : Prop :=
  ∃ out head, ctx.packResponse wr = .ok out ∧ out.unread = wr.unread ++ head ∧
    ∀ rd, Buffer.Wf rd → rd.unread = head ++ out.extraData →
      ∃ p, HTTPParser.parseResponse ⟨{}, rd⟩ = .ok (.success, p) ∧
        p.ctx.connType = keptConnType ctx.connType ∧
        p.ctx.payloadView.str p.buf = .ok ctx.payload

/-- A complete message is answered with `Success`, and shows what the head said. -/
theorem parse_complete (imp : HTTPParser.Implements stage M) {p : HTTPParser} {w payload : Bytes}
    {t : HTTPContext} (here : HTTPParser.Matches p s w)
    (drains : Drains M s w (some .headed) t payload) (h2 : t.stage = 2)
    (small : payload.length < 2 ^ 31) (size : t.bodySize = payload.length) :
    ∃ q, runStages stage (3 - p.ctx.stage) p = .ok (.success, q) ∧
      HTTPParser.message q = t.message (.ok payload) := by
  have outcome := HTTPParser.call_outcome imp here drains
  cases outcome with
  | @headed q out moved _ _ =>
      have fits : t.bodySize ≤ castInt payload.length := by rw [size, castInt_of_lt small]
      rw [HTTPParser.body_call imp moved h2, if_pos fits] at out
      have unread : q.buf.unread = payload := moved.unread
      have nonneg : 0 ≤ t.bodySize := by omega
      have str := HTTPParser.payload_str moved.wf nonneg (by rw [unread, size])
      rw [unread, size, Int.toNat_natCast, List.take_length] at str
      refine ⟨_, out, ?_⟩
      simp only [HTTPParser.message, HTTPContext.message, size, str]
      rw [← moved.bare]
      rfl

theorem recognised {rd : Buffer} {payload : Bytes} (wf : rd.Wf)
    (arrived : rd.unread = ctx.requestPieces.flatten ++ payload) :
    HTTPProtocol.parseRequest ⟨none, rd⟩ = HTTPProtocol.resume {} rd := by
  have name : ascii "POST /" = HTTPMethod.post.name ++ [32, 47] := by decide
  have slash : ascii "/" = [47] := by decide
  have four : HTTPMethod.post.name.length = 4 := by decide
  have bytes : rd.unread = HTTPMethod.post.name ++ (32 :: 47 :: (ctx.service ++ 47 :: (ctx.method ++
      (ascii " HTTP/1.1\r\n" ++ (ctx.headerPieces.flatten ++ payload))))) := by
    rw [arrived]
    simp only [requestPieces, name, slash, List.flatten_cons, List.append_assoc, List.cons_append,
      List.nil_append]
  rcases HTTPProtocol.fresh_cases (s := ⟨none, rd⟩) rfl wf with ⟨few, _⟩ |
    ⟨_, ⟨other, _⟩ | ⟨_, out⟩⟩
  · rw [show (Session.mk none rd).buf.unread = _ from bytes] at few
    simp only [List.length_append, List.length_cons, four, HTTPProtocol.httpMethodMaxLen] at few
    omega
  · refine absurd ?_ (other .post (by decide))
    rw [show (Session.mk none rd).buf.unread = _ from bytes]
    exact List.prefix_append _ _
  · exact out

/-- Whatever a message carries, its packed form is parsed back, with the connection types
of HTTP. -/
theorem round_trip :
    (∀ (ctx : HTTPContext) (wr : Buffer), wr.Wf → 47 ∉ ctx.service → 32 ∉ ctx.service →
      13 ∉ ctx.service → 32 ∉ ctx.method → 13 ∉ ctx.method →
      16 + ctx.service.length + ctx.method.length ≤ 65534 → ctx.payload.length < 2 ^ 31 →
      Buffer.Room wr.windex wr.data.length ctx.requestPieces → RequestTrip ctx wr) ∧
    ∀ (ctx : HTTPContext) (wr : Buffer), wr.Wf → ctx.payload.length < 2 ^ 31 →
      Buffer.Room wr.windex wr.data.length ctx.responsePieces → ResponseTrip ctx wr := by
  constructor
  · intro ctx wr wf noSlash noSpace noCr noSpace' noCr' line small room
    have pieces : ∀ mem ∈ ctx.requestPieces, mem.length < 2 ^ 31 := by
      simp only [requestPieces, List.forall_mem_append, List.forall_mem_cons, List.not_mem_nil,
        false_implies, implies_true, and_true]
      exact ⟨⟨by decide, by omega, by decide, by omega, by decide⟩, headerPieces_small small⟩
    obtain ⟨b, appended, _, unread, _⟩ := wf.appendAll room pieces
    refine ⟨b.appendExtra ctx.payload, _, by rw [packRequest_eq, appended]; rfl, unread,
      fun rd wf' arrived => ?_⟩
    have drains := request_drains noSlash noSpace noCr noSpace' noCr' line small
    obtain ⟨p, out, shown⟩ := parse_complete (p := ⟨{}, rd⟩) HTTPParser.request_implements
      ⟨wf', arrived, rfl⟩ drains rfl small rfl
    refine ⟨p.ctx, p.buf, (recognised wf' arrived).trans (HTTPProtocol.resume_ok out),
      ?_, ?_, ?_, ?_⟩
    · exact congrArg HTTPMessage.service shown
    · exact congrArg HTTPMessage.method shown
    · exact congrArg HTTPMessage.connType shown
    · exact congrArg HTTPMessage.payload shown
  · intro ctx wr wf small room
    have pieces : ∀ mem ∈ ctx.responsePieces, mem.length < 2 ^ 31 := by
      rw [responsePieces, List.forall_mem_cons]
      exact ⟨by decide, headerPieces_small small⟩
    obtain ⟨b, appended, _, unread, _⟩ := wf.appendAll room pieces
    refine ⟨b.appendExtra ctx.payload, _, by rw [packResponse_eq, appended]; rfl, unread,
      fun rd wf' arrived => ?_⟩
    have drains := response_drains (s := {}) rfl rfl small
    obtain ⟨p, out, shown⟩ := parse_complete (p := ⟨{}, rd⟩) HTTPParser.response_implements
      ⟨wf', arrived, rfl⟩ drains rfl small rfl
    exact ⟨p, out, congrArg HTTPMessage.connType shown, congrArg HTTPMessage.payload shown⟩

/-- A call with a line break and a colon in its payload. -/
def binaryCall : HTTPContext :=
  { connType := .pool, service := [69], method := [101], payload := [13, 10, 58] }

theorem binaryCall_trip : RequestTrip binaryCall (Buffer.ofSize 64) :=
  round_trip.1 binaryCall (Buffer.ofSize 64) (Buffer.ofSize_wf 64) (by decide) (by decide) (by decide)
    (by decide) (by decide) (by decide) (by decide) (by decide)

end HTTPContext
end SmallRpc
