import SmallRpc.Context

/-! The HTTP side: request line, response line, header lines and body, each parsed
from the storage of the receive buffer. -/
namespace SmallRpc

def ascii (s : String) : Bytes := s.toList.map fun c => UInt8.ofNat c.toNat

inductive HTTPMethod where
  | get
  | post
  | head
  | options
  | put
  | patch
  | delete
  | trace
  | connect
  deriving DecidableEq, Repr

namespace HTTPMethod

/-- `_HTTPMethod_Name`. -/
def name : HTTPMethod → Bytes
  | get => ascii "GET"
  | post => ascii "POST"
  | head => ascii "HEAD"
  | options => ascii "OPTIONS"
  | put => ascii "PUT"
  | patch => ascii "PATCH"
  | delete => ascii "DELETE"
  | trace => ascii "TRACE"
  | connect => ascii "CONNECT"

/-- The range of the source's `for` loops, `_HTTPMethod_MIN <= i < _HTTPMethod_MAX`. -/
def tried : List HTTPMethod := [get, post, head, options, put, patch, delete, trace]

end HTTPMethod

/-- `isspace` of the C locale. -/
def isSpace (c : UInt8) : Bool := c = 32 || (9 ≤ c && c ≤ 13)

def isDigit (c : UInt8) : Bool := 48 ≤ c && c ≤ 57

/-- `std::stoi`: leading blanks, a sign, and as many digits as follow. It throws
without a digit, and outside the range of `int`. -/
def stoi (text : Bytes) : Except Fault Int :=
  let text := text.dropWhile isSpace
  let negative := text.head? = some 45
  let digits := (if negative ∨ text.head? = some 43 then text.tail else text).takeWhile isDigit
  let value : Int := digits.foldl (fun (a : Int) c => 10 * a + (c.toNat - 48)) 0
  let value := if negative then -value else value
  if digits = [] then .error .thrown
  else if -2 ^ 31 ≤ value ∧ value < 2 ^ 31 then .ok value
  else .error .thrown

/-- The local `trim`. -/
def trim (str : Bytes) : Bytes := (str.dropWhile (· = 32)).rdropWhile (· = 32)

/-- `std::to_string` of a `size_t`. -/
def toText (n : Nat) : Bytes := (Nat.toDigits 10 n).map fun c => UInt8.ofNat c.toNat

/-- `_http_method` is -1 until a method has been recognised. -/
structure HTTPContext extends Context where
  stage : Nat := 0
  bodySize : Int := 0
  httpMethod : Option HTTPMethod := none
  httpUrl : BufferView := .null
  httpVersion : BufferView := .null
  requestLine : BufferView := .null
  headers : List (Bytes × Bytes) := []
  deriving DecidableEq, Repr

/-- What a trimmed header does to the context: only the first one of a key counts. -/
def HTTPContext.addHeader (c : HTTPContext) (key value : Bytes) : Except Fault HTTPContext :=
  if key ≠ [] ∧ value ≠ [] ∧ c.headers.lookup key = none then do
    let bodySize ← if key = ascii "Content-Length" then stoi value else pure c.bodySize
    let connType := if key = ascii "Connection" ∧ value = ascii "Keep-Alive" then .single
      else c.connType
    return { c with bodySize, connType, headers := c.headers ++ [(key, value)] }
  else .ok c

/-- `strncmp` against the front of the unread bytes; it stops at the first difference. -/
def Buffer.startsWith (b : Buffer) (text : Bytes) : Except Fault Bool :=
  let front := (b.data.drop b.rindex).take text.length
  if front = text then .ok true
  else if front <+: text then .error .outOfStorage
  else .ok false

/-- The loop over the method names. -/
def Buffer.findMethod (b : Buffer) : List HTTPMethod → Except Fault (Option HTTPMethod)
  | [] => .ok none
  | m :: ms => do if ← b.startsWith m.name then return some m else b.findMethod ms

structure HTTPParser where
  ctx : HTTPContext
  buf : Buffer
  deriving DecidableEq, Repr

namespace HTTPParser

def maxHeadlineSize : Nat := 65536
def maxHeaderSize : Nat := 65536

def retrieve (p : HTTPParser) (n : Nat) : HTTPParser := { p with buf := p.buf.retrieve n }

/-- `_service` and `_method` of the target at `url`, if it has a second slash. -/
def takeService (p : HTTPParser) (url tmp : Nat) : Except Fault HTTPParser := do
  match ← p.buf.search [47] (url + 1) tmp with
  | none => return p
  | some tmp2 =>
    let service ← p.buf.copy (url + 1) tmp2
    let method ← p.buf.copy (url + 1 + tmp2 + 1) (sizeSub tmp (tmp2 + 2))
    return { p with ctx := { p.ctx with service, method } }

/-- `_parse_request_line` for a line that ends at `n`, once the method is known. -/
def parseUrl (p : HTTPParser) (n offset : Nat) :
    Except Fault (ParseProtocolStatus × HTTPParser) := do
  let begin := p.buf.rindex
  if (← p.buf.copy (begin + offset) 1) ≠ [32] then return (.error, p)
  let offset := offset + 1
  match ← p.buf.search [32] (begin + offset) (sizeSub n offset) with
  | none => return (.error, p)
  | some tmp =>
    if tmp = 0 then return (.error, p)
    if (← p.buf.copy (begin + offset) 1) ≠ [47] then return (.error, p)
    let p := { p with ctx := { p.ctx with httpUrl := .ofLength (begin + offset) tmp } }
    let p ← p.takeService (begin + offset) tmp
    let offset := offset + tmp + 1
    if (← p.buf.search [32] (begin + offset) (sizeSub n offset)).isSome then return (.error, p)
    let httpVersion := BufferView.ofLength (begin + offset) ((n : Int) - offset)
    let requestLine := BufferView.ofLength begin n
    let p := { p with ctx := { p.ctx with httpVersion, requestLine } }
    return (.partSuccess, p.retrieve (n + 2))

/-- What the three line parsers begin with: the end of the first line, or the status
they return for want of one. `limit` is the constant in the source's `std::min`. -/
def nextLine (p : HTTPParser) (limit : Nat) : Except Fault (ParseProtocolStatus ⊕ Nat) := do
  let size := min p.buf.readable limit
  if size = 0 then return .inl .noEnoughData
  match ← p.buf.findCrlf size with
  | none => return .inl (if size = maxHeadlineSize then .error else .noEnoughData)
  | some n => return .inr n

/-- `_parse_request_line`. -/
def parseRequestLine (p : HTTPParser) : Except Fault (ParseProtocolStatus × HTTPParser) := do
  match ← p.nextLine maxHeadlineSize with
  | .inl status => return (status, p)
  | .inr n =>
    let found ← p.buf.findMethod HTTPMethod.tried
    let httpMethod := found.or p.ctx.httpMethod
    let p := { p with ctx := { p.ctx with httpMethod } }
    if httpMethod = none then return (.error, p)
    p.parseUrl n (found.elim 0 fun m => m.name.length)

/-- `_parse_response_line`. -/
def parseResponseLine (p : HTTPParser) : Except Fault (ParseProtocolStatus × HTTPParser) := do
  match ← p.nextLine maxHeadlineSize with
  | .inl status => return (status, p)
  | .inr n =>
    let requestLine := BufferView.ofLength p.buf.rindex n
    let p := { p with ctx := { p.ctx with requestLine } }
    return (.partSuccess, p.retrieve (n + 2))

/-- One pass of the loop in `_parse_headers`. -/
def headerLine (p : HTTPParser) : Except Fault (Flow HTTPParser) := do
  match ← p.nextLine maxHeaderSize with
  | .inl status => return .ret status p
  | .inr 0 => return .ret .partSuccess (p.retrieve 2)
  | .inr n =>
    match ← p.buf.search [58] p.buf.rindex n with
    | none => return .ret .error p
    | some 0 => return .ret .error p
    | some tmp =>
      let key ← p.buf.copy p.buf.rindex tmp
      let value ← p.buf.copy (p.buf.rindex + tmp + 1) (n - tmp - 1)
      let ctx ← p.ctx.addHeader (trim key) (trim value)
      return .again ({ p with ctx }.retrieve (n + 2))

/-- `_parse_headers`. Every further pass has consumed at least two bytes of storage, so
the passes are bounded by its size. -/
def headerLines : Nat → HTTPParser → Except Fault (ParseProtocolStatus × HTTPParser)
  | 0, _ => .error .outOfStorage
  | k + 1, p => do
    match ← p.headerLine with
    | .ret status p => return (status, p)
    | .again p => headerLines k p

def parseHeaders (p : HTTPParser) : Except Fault (ParseProtocolStatus × HTTPParser) :=
  headerLines (p.buf.data.length + 1) p

/-- `_parse_body`. The body stays in the buffer. -/
def parseBody (p : HTTPParser) : ParseProtocolStatus × HTTPParser :=
  if p.ctx.bodySize ≤ castInt p.buf.readable then
    (.partSuccess,
      { p with ctx := { p.ctx with payloadView := .ofLength p.buf.rindex p.ctx.bodySize } })
  else (.noEnoughData, p)

/-- `++_stage` after a part that succeeded. -/
def advance : ParseProtocolStatus × HTTPParser → Flow HTTPParser
  | (.partSuccess, p) => .again { p with ctx := { p.ctx with stage := p.ctx.stage + 1 } }
  | (status, p) => .ret status p

def requestStage (p : HTTPParser) : Except Fault (Flow HTTPParser) :=
  match p.ctx.stage with
  | 0 => advance <$> p.parseRequestLine
  | 1 => advance <$> p.parseHeaders
  | 2 => .ok (advance p.parseBody)
  | _ => .ok (.ret .success p)

def responseStage (p : HTTPParser) : Except Fault (Flow HTTPParser) :=
  match p.ctx.stage with
  | 0 => advance <$> p.parseResponseLine
  | 1 => advance <$> p.parseHeaders
  | 2 => .ok (advance p.parseBody)
  | _ => .ok (.ret .success p)

def parseRequest (p : HTTPParser) : Except Fault (ParseProtocolStatus × HTTPParser) :=
  runStages requestStage (3 - p.ctx.stage) p

def parseResponse (p : HTTPParser) : Except Fault (ParseProtocolStatus × HTTPParser) :=
  runStages responseStage (3 - p.ctx.stage) p

end HTTPParser

namespace HTTPContext

/-- The `Connection` header of both messages. -/
def connectionLine (ctx : HTTPContext) : Bytes :=
  if ctx.connType = .short then ascii "Connection: Close\r\n"
  else ascii "Connection: Keep-Alive\r\n"

def packResponse (ctx : HTTPContext) (wrBuf : Buffer) : Except Fault Buffer := do
  let b ← wrBuf.append (ascii "HTTP/1.1 200 OK\r\n")
  let b ← b.append ctx.connectionLine
  let b ← b.append (ascii "Content-Type: application/data\r\n")
  let b ← b.append (ascii "Content-Length: ")
  let b ← b.append (toText ctx.payload.length)
  let b ← b.append (ascii "\r\n\r\n")
  return b.appendExtra ctx.payload

def packRequest (ctx : HTTPContext) (wrBuf : Buffer) : Except Fault Buffer := do
  let b ← wrBuf.append (ascii "POST /")
  let b ← b.append ctx.service
  let b ← b.append (ascii "/")
  let b ← b.append ctx.method
  let b ← b.append (ascii " HTTP/1.1\r\n")
  let b ← b.append ctx.connectionLine
  let b ← b.append (ascii "Content-Type: application/data\r\n")
  let b ← b.append (ascii "Content-Length: ")
  let b ← b.append (toText ctx.payload.length)
  let b ← b.append (ascii "\r\n\r\n")
  return b.appendExtra ctx.payload

end HTTPContext
end SmallRpc
