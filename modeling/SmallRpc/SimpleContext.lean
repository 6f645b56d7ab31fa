import SmallRpc.Context

/-! The hand-written binary protocol. A request is magic, conn_type, path length,
path, payload length, payload; a response has an rpc_status in place of the path.
Every stage function is one branch of the `while (true)` of its parser. -/
namespace SmallRpc

structure SimpleContext extends Context where
  stage : Nat := 0
  deriving DecidableEq, Repr

/-- `SimpleProtocol::MAGIC_NUM`. -/
def magicNum : Int := 0x19951028

def slash : UInt8 := 0x2F

/-- A parser at work: its context, the buffer, and what it has looked at. -/
structure SimpleParser where
  ctx : SimpleContext
  buf : Buffer
  looked : List Access
  deriving DecidableEq, Repr

namespace SimpleParser

def look (p : SimpleParser) (start n : Nat) : SimpleParser :=
  { p with looked := p.looked ++ [⟨start, start + n, p.buf.rindex, p.buf.windex⟩] }

def retrieve (p : SimpleParser) (n : Nat) : SimpleParser := { p with buf := p.buf.retrieve n }

/-- Stage 0 of both parsers. -/
def stageMagic (p : SimpleParser) : Except Fault (Flow SimpleParser) :=
  if p.buf.readable < 4 then .ok (.ret .noEnoughData p)
  else do
    let magic ← p.buf.peekInt32
    let p := p.look p.buf.rindex 4
    if magic ≠ magicNum then return .ret .error p
    let p := p.retrieve 4
    return .again { p with ctx := { p.ctx with stage := 1 } }

/-- Stage 1 of `parse_request`. -/
def stageConnType (p : SimpleParser) : Except Fault (Flow SimpleParser) :=
  if p.buf.readable < 4 then .ok (.ret .noEnoughData p)
  else do
    let connType ← p.buf.peekInt32
    let p := p.look p.buf.rindex 4
    match ConnType.ofInt connType with
    | none => return .ret .error p
    | some connType =>
      let p := p.retrieve 4
      return .again { p with ctx := { p.ctx with connType, stage := 2 } }

/-- Stage 1 of `parse_response`: conn_type and rpc_status are waited for together. -/
def stageStatus (p : SimpleParser) : Except Fault (Flow SimpleParser) :=
  if p.buf.readable < 2 * 4 then .ok (.ret .noEnoughData p)
  else do
    let connType ← p.buf.peekInt32
    let p := p.look p.buf.rindex 4
    match ConnType.ofInt connType with
    | none => return .ret .error p
    | some connType =>
      let p := p.retrieve 4
      let p := { p with ctx := { p.ctx with connType } }
      let rpcStatus ← p.buf.peekInt32
      let p := p.look p.buf.rindex 4
      match RpcStatus.ofInt rpcStatus with
      | none => return .ret .error p
      | some rpcStatus =>
        let p := p.retrieve 4
        return .again { p with ctx := { p.ctx with rpcStatus := some rpcStatus, stage := 2 } }

/-- The rest of stage 2 once `path_len` has been consumed. -/
def takePath (pathLen : Nat) (p : SimpleParser) : Except Fault (Flow SimpleParser) := do
  match ← p.buf.search [slash] p.buf.rindex pathLen with
  | none => return .ret .error (p.look p.buf.rindex pathLen)
  | some tmp =>
    let p := p.look p.buf.rindex (tmp + 1)
    let service ← p.buf.copy p.buf.rindex tmp
    let method ← p.buf.copy (p.buf.rindex + tmp + 1) (pathLen - 1 - tmp)
    let p := p.look p.buf.rindex pathLen
    let p := { p with ctx := { p.ctx with service, method, stage := 3 } }
    return .again (p.retrieve pathLen)

/-- Stage 2 of `parse_request`. The bytes of the length count as path bytes in the
second test of `readable`. -/
def stagePath (p : SimpleParser) : Except Fault (Flow SimpleParser) :=
  if p.buf.readable < 4 then .ok (.ret .noEnoughData p)
  else do
    let pathLen ← p.buf.peekUint32
    let p := p.look p.buf.rindex 4
    if p.buf.readable < pathLen then return .ret .noEnoughData p
    let p := p.retrieve 4
    p.takePath pathLen

/-- The last stage of both parsers, with the same second test; `next` is the stage
that means finished. -/
def stagePayload (next : Nat) (p : SimpleParser) : Except Fault (Flow SimpleParser) :=
  if p.buf.readable < 4 then .ok (.ret .noEnoughData p)
  else do
    let payloadLen ← p.buf.peekUint32
    let p := p.look p.buf.rindex 4
    if p.buf.readable < payloadLen then return .ret .noEnoughData p
    let p := p.retrieve 4
    let payloadView := BufferView.ofLength p.buf.rindex payloadLen
    let p := { p with ctx := { p.ctx with payloadView, stage := next } }
    return .again (p.retrieve payloadLen)

def requestStage (p : SimpleParser) : Except Fault (Flow SimpleParser) :=
  match p.ctx.stage with
  | 0 => p.stageMagic
  | 1 => p.stageConnType
  | 2 => p.stagePath
  | 3 => p.stagePayload 4
  | _ => .ok (.ret .success p)

def responseStage (p : SimpleParser) : Except Fault (Flow SimpleParser) :=
  match p.ctx.stage with
  | 0 => p.stageMagic
  | 1 => p.stageStatus
  | 2 => p.stagePayload 3
  | _ => .ok (.ret .success p)

def parseRequest (p : SimpleParser) : Except Fault (ParseProtocolStatus × SimpleParser) :=
  runStages requestStage (4 - p.ctx.stage) p

def parseResponse (p : SimpleParser) : Except Fault (ParseProtocolStatus × SimpleParser) :=
  runStages responseStage (3 - p.ctx.stage) p

end SimpleParser

namespace SimpleContext

def parseRequest (ctx : SimpleContext) (buf : Buffer) :
    Except Fault (ParseProtocolStatus × SimpleParser) := SimpleParser.parseRequest ⟨ctx, buf, []⟩

def parseResponse (ctx : SimpleContext) (buf : Buffer) :
    Except Fault (ParseProtocolStatus × SimpleParser) := SimpleParser.parseResponse ⟨ctx, buf, []⟩

/-- `pack_response`; the caller has set the status. -/
def packResponse (ctx : SimpleContext) (wrBuf : Buffer) : Except Fault Buffer := do
  let b ← wrBuf.appendInt32 magicNum
  let b ← b.appendInt32 ctx.connType.toInt
  let b ← b.appendInt32 (ctx.rpcStatus.elim 0 RpcStatus.toInt)
  let b ← b.appendInt32 (ctx.payload.length % 2 ^ 32)
  return b.appendExtra ctx.payload

def packRequest (ctx : SimpleContext) (wrBuf : Buffer) : Except Fault Buffer := do
  let b ← wrBuf.appendInt32 magicNum
  let b ← b.appendInt32 ctx.connType.toInt
  let b ← b.appendInt32 ((ctx.service.length + 1 + ctx.method.length) % 2 ^ 32)
  let b ← b.append ctx.service
  let b ← b.append [slash]
  let b ← b.append ctx.method
  let b ← b.appendInt32 (ctx.payload.length % 2 ^ 32)
  return b.appendExtra ctx.payload

end SimpleContext
end SmallRpc
