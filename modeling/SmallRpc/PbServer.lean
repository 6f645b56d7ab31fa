import SmallRpc.Connection

/-! The callbacks a server installs on its connections. What they decide from the
connection alone is a function; what they then do, and other threads can come between,
is a list of statements. -/
namespace SmallRpc

/-- What a complete request asks for. -/
structure Request where
  service : Bytes
  method : Bytes
  payload : Bytes
  deriving DecidableEq, Repr

/-- Settings fixed before `start`. Services come with the names of their methods;
`parses` is `ParseFromString` of the method's request message, and `async` says whether
services may run `done` after `CallMethod` has returned. -/
structure PbServer where
  protocols : List Protocol
  services : List (Bytes × List Bytes)
  parses : Request → Bool
  readTimeoutMs : Int := -1
  writeTimeoutMs : Int := -1
  async : Bool := false

/-- `is_read` of a timer; a write timer knows the request its response belongs to. -/
inductive TimerKind where
  | read
  | write (n : Nat)
  deriving DecidableEq, Repr

/-- The statements of the callbacks, up to what touches only locals. -/
inductive Stmt where
  | addChannel
  | setEvent (event : Interest)
  | updateChannel
  | bumpTimer
  | runAfter (kind : TimerKind)
  | install (callback : Callback)
  | closeFd
  | removeChannel
  | deleteConn
  | deleteContext
  | clearBuffers
  | unpack
  | setRpcStatus
  | setPayload (respStr : Bytes)
  | packResponse (n : Nat)
  | addFunc
  deriving DecidableEq, Repr

namespace PbServer

/-- `_find_service_method`. -/
def findServiceMethod (srv : PbServer) (service method : Bytes) : Bool :=
  match srv.services.lookup service with
  | none => false
  | some methods => methods.contains method

/-- The loop over the protocols from `proto_idx` on; no status when they are used up. -/
def tryProtocols : List Protocol → Nat → Session →
    Except Fault (Option ParseProtocolStatus × Nat × Session)
  | [], protoIdx, s => .ok (none, protoIdx, s)
  | protocol :: rest, protoIdx, s => do
    match ← protocol.parseRequest s with
    | (.tryAnotherProtocol, s) => tryProtocols rest (protoIdx + 1) s
    | (status, s) => return (some status, protoIdx, s)

inductive DataRead where
  | wait
  | close
  | request
  deriving DecidableEq, Repr

/-- `data_read_callback` up to the call it ends with. -/
def dataReadCallback (srv : PbServer) (conn : TCPConnection) :
    Except Fault (DataRead × TCPConnection) := do
  let (status, protoIdx, s) ←
    tryProtocols (srv.protocols.drop conn.protoIdx) conn.protoIdx ⟨conn.ctx, conn.rbuf⟩
  let conn := { conn with protoIdx, ctx := s.ctx, rbuf := s.buf }
  match status with
  | none => return (.close, conn)
  | some .error => return (.close, conn)
  | some .noEnoughData => return (.wait, conn)
  | some _ => return (.request, conn)

/-- `request_callback` up to `CallMethod`; `none` is the branch to `close_callback`. -/
def requestCallback (srv : PbServer) (conn : TCPConnection) : Except Fault (Option Request) :=
  match conn.ctx with
  | none => .error .nullPointer
  | some ctx => do
    let pbData ← ctx.base.payloadView.str conn.rbuf
    let request : Request := ⟨ctx.base.service, ctx.base.method, pbData⟩
    return if srv.findServiceMethod request.service request.method && srv.parses request then
      some request else none

/-- The two statements that arm a timer, under their condition. -/
def armTimer (timeoutMs : Int) (kind : TimerKind) : List Stmt :=
  if 0 < timeoutMs then [.bumpTimer, .runAfter kind] else []

/-- `new_connection_callback` once the connection object is there. -/
def newConnectionCallback (srv : PbServer) : List Stmt :=
  [.addChannel, .setEvent .epollin, .updateChannel] ++ armTimer srv.readTimeoutMs .read ++
    [.install .dataRead, .install .close, .install .writeComplete]

/-- `close_callback`; deleting the connection closes its descriptor once more. -/
def closeCallback : List Stmt :=
  [.setEvent .none, .updateChannel, .closeFd, .removeChannel, .deleteConn]

def writeCompleteCallback (srv : PbServer) (connType : ConnType) : List Stmt :=
  [.deleteContext, .clearBuffers] ++
    if connType = .short then closeCallback
    else [.setEvent .epollin, .updateChannel] ++ armTimer srv.readTimeoutMs .read

/-- `response_callback` for request `n`. The branch `!ret` is never taken: neither
`pack_response` returns `false`. -/
def responseCallback (srv : PbServer) (n : Nat) (respStr : Bytes) : List Stmt :=
  [.unpack, .setRpcStatus, .setPayload respStr, .packResponse n, .setEvent .epollout, .addFunc] ++
    armTimer srv.writeTimeoutMs (.write n)

end PbServer

namespace TCPConnection

/-- `update_channel` registers the wanted events, by the one of add, modify and delete
that fits, if they differ from the registered ones. -/
def updateChannel (conn : TCPConnection) : TCPConnection := { conn with sevent := conn.event }

/-- What a callback does through a `Context*`. -/
def withContext (conn : TCPConnection) (f : AnyContext → AnyContext) :
    Except Fault TCPConnection :=
  match conn.ctx with
  | none => .error .nullPointer
  | some ctx => .ok { conn with ctx := some (f ctx) }

def packResponse (conn : TCPConnection) : Except Fault TCPConnection :=
  match conn.ctx with
  | none => .error .nullPointer
  | some ctx => do
    let wbuf ← ctx.packResponse conn.wbuf
    return { conn with wbuf }

end TCPConnection

end SmallRpc
