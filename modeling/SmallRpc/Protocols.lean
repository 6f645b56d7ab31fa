import SmallRpc.HttpContext
import SmallRpc.SimpleContext

/-! The two protocols behind their common interface: a context is made by the first
`parse_request` that recognises the stream, and every later call has to find a context
of its own kind. -/
namespace SmallRpc

/-- What a `Context*` that is not null points to. -/
inductive AnyContext where
  | simple (ctx : SimpleContext)
  | http (ctx : HTTPContext)
  deriving DecidableEq, Repr

namespace AnyContext

def base : AnyContext → Context
  | simple ctx => ctx.toContext
  | http ctx => ctx.toContext

def packResponse : AnyContext → Buffer → Except Fault Buffer
  | simple ctx => ctx.packResponse
  | http ctx => ctx.packResponse

def packRequest : AnyContext → Buffer → Except Fault Buffer
  | simple ctx => ctx.packRequest
  | http ctx => ctx.packRequest

def modify (f : Context → Context) : AnyContext → AnyContext
  | simple ctx => simple { ctx with toContext := f ctx.toContext }
  | http ctx => http { ctx with toContext := f ctx.toContext }

end AnyContext

/-- A context pointer, null at first, beside the buffer it is parsed from. -/
structure Session where
  ctx : Option AnyContext
  buf : Buffer
  deriving DecidableEq, Repr

namespace SimpleProtocol

/-- The call of `ctx->parse_request` on a `SimpleContext`. -/
def resume (ctx : SimpleContext) (buf : Buffer) : Except Fault (ParseProtocolStatus × Session) := do
  let (status, p) ← ctx.parseRequest buf
  return (status, ⟨some (.simple p.ctx), p.buf⟩)

def parseRequest (s : Session) : Except Fault (ParseProtocolStatus × Session) :=
  match s.ctx with
  | none =>
    if s.buf.readable < 4 then .ok (.noEnoughData, s)
    else do
      if (← s.buf.peekInt32) ≠ magicNum then return (.tryAnotherProtocol, s)
      resume {} s.buf
  | some (.simple ctx) => resume ctx s.buf
  | some (.http _) => .ok (.error, s)

end SimpleProtocol

namespace HTTPProtocol

def httpMethodMaxLen : Nat := 7

def resume (ctx : HTTPContext) (buf : Buffer) : Except Fault (ParseProtocolStatus × Session) := do
  let (status, p) ← HTTPParser.parseRequest ⟨ctx, buf⟩
  return (status, ⟨some (.http p.ctx), p.buf⟩)

def parseRequest (s : Session) : Except Fault (ParseProtocolStatus × Session) :=
  match s.ctx with
  | none =>
    if s.buf.readable < httpMethodMaxLen then .ok (.noEnoughData, s)
    else do
      match ← s.buf.findMethod HTTPMethod.tried with
      | none => return (.tryAnotherProtocol, s)
      | some _ => resume {} s.buf
  | some (.http ctx) => resume ctx s.buf
  | some (.simple _) => .ok (.error, s)

end HTTPProtocol

inductive Protocol where
  | simple
  | http
  deriving DecidableEq, Repr

def Protocol.parseRequest : Protocol → Session → Except Fault (ParseProtocolStatus × Session)
  | .simple => SimpleProtocol.parseRequest
  | .http => HTTPProtocol.parseRequest

def Protocol.newContext : Protocol → AnyContext
  | .simple => .simple {}
  | .http => .http {}

end SmallRpc
