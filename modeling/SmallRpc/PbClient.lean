import SmallRpc.Lifetime

/-! An asynchronous client and the two threads that use it: the application's, in which
`CallMethod` runs, and the loop's, in which everything else does. Each thread is a list of
statements still to be run; what a handler does before its first statement that the other
thread can come before is done at once. -/
namespace SmallRpc
open Runs

/-- `ctx->parse_response`. -/
def AnyContext.parseResponse (ctx : AnyContext) (buf : Buffer) :
    Except Fault (ParseProtocolStatus × Session) :=
  match ctx with
  | .simple ctx => do
    let (status, p) ← ctx.parseResponse buf
    return (status, ⟨some (.simple p.ctx), p.buf⟩)
  | .http ctx => do
    let (status, p) ← HTTPParser.parseResponse ⟨ctx, buf⟩
    return (status, ⟨some (.http p.ctx), p.buf⟩)

/-- Parsing leaves a context. -/
theorem AnyContext.parseResponse_ctx {ctx : AnyContext} {buf : Buffer} {status : ParseProtocolStatus}
    {s : Session} (h : ctx.parseResponse buf = .ok (status, s)) : s.ctx ≠ none := by
  cases ctx with
  | simple ctx =>
      obtain ⟨⟨_, q⟩, _, h⟩ := bind_ok.mp h
      cases h
      exact Option.some_ne_none _
  | http ctx =>
      obtain ⟨⟨_, q⟩, _, h⟩ := bind_ok.mp h
      cases h
      exact Option.some_ne_none _

/-- What `CallMethod` is called with; the request is serialized. -/
structure Call where
  connType : ConnType
  service : Bytes
  method : Bytes
  payload : Bytes
  deriving DecidableEq, Repr

inductive CtlOp where
  | add
  | mod
  | del
  deriving DecidableEq, Repr

/-- Statements of `CallMethod`, of `update_channel` and `_epoll_ctl`, and of the callbacks.
Calls are numbered as begun. -/
inductive ClientStmt where
  | clearRbuf
  | clearWbuf
  | newContext (n : Nat)
  | newSession (n : Nat)
  | setConnType (connType : ConnType)
  | setMethod (method : Bytes)
  | setService (service : Bytes)
  | setPayload (payload : Bytes)
  | testPayload (n : Nat)
  | packRequest (n : Nat)
  | setEvent (event : Interest)
  | addFunc
  | updateChannel
  | testSevent
  | testAdd
  | testDel
  | loadEvents (op : CtlOp)
  | epollCtl (op : CtlOp) (events : Interest)
  | setSevent
  | setConnected
  | deleteContext
  | resetSession
  deriving DecidableEq, Repr

/-- A run of `done`: the call of the session, the call that the context was made for, and
the response. -/
structure Completed where
  session : Nat
  ctx : Option Nat
  str : Bytes
  deriving DecidableEq, Repr

/-- `registered` is what epoll has for the descriptor. `session` and `ctxOf` are the calls
that the installed session and context belong to, `packed` is the last whose request was
packed, and `parseError` tells that the context has answered `Error`. -/
structure PbClient where
  conn : TCPConnection
  session : Option Nat := none
  ctxOf : Option Nat := none
  registered : Option Interest := none
  queued : Nat := 0
  phase : Phase := .polling
  loop : List ClientStmt := []
  app : List ClientStmt := []
  issued : Nat := 0
  packed : Option Nat := none
  parseError : Bool := false
  completed : List Completed := []
  fault : Option Fault := none
  deriving DecidableEq, Repr

/-- `call` begins a `CallMethod` in the application's thread; `chain` is the one, if any,
that `done` begins, should the event lead to it. -/
inductive ClientMove where
  | call (call : Call)
  | app
  | loop
  | event (events : Events) (io : SocketResults) (soError : Bool) (chain : Option Call)
  | quiet
  | swap
  | func
  | poll
  deriving DecidableEq, Repr

namespace PbClient

/-- `UINT32_MAX`. -/
def maxPayload : Nat := 2 ^ 32 - 1

def callMethod (n : Nat) (call : Call) : List ClientStmt :=
  [.clearRbuf, .clearWbuf, .newContext n, .newSession n, .setConnType call.connType,
    .setMethod call.method, .setService call.service, .setPayload call.payload, .testPayload n]

/-- The rest of the asynchronous branch, for a payload that is not too long. -/
def sendRequest (n : Nat) : List ClientStmt := [.packRequest n, .setEvent .epollout, .addFunc]

def clientConnCallback (soError : Bool) : List ClientStmt :=
  (if soError then [] else [.setConnected]) ++ [.setEvent .none, .updateChannel]

def writeCompleteCallback : List ClientStmt := [.setEvent .epollin, .updateChannel]

def closeCallback : List ClientStmt := [.setEvent .none, .updateChannel]

/-- What `response_callback` does after it has run `done`. -/
def afterDone : List ClientStmt := [.deleteContext, .resetSession] ++ closeCallback

/-- `epoll_ctl`; what it reports as an error is fatal. -/
def epollCtl (registered : Option Interest) (op : CtlOp) (events : Interest) :
    Except Fault (Option Interest) :=
  match op, registered with
  | .add, none => .ok (some events)
  | .mod, some _ => .ok (some events)
  | .del, some _ => .ok none
  | _, _ => .error .aborted

def modifyContext (w : PbClient) (f : Context → Context) : Except Fault PbClient := do
  return { w with conn := ← w.conn.withContext (.modify f) }

/-- One statement: the state after it, and the statements it makes come next. -/
def exec (protocol : Protocol) (w : PbClient) :
    ClientStmt → Except Fault (PbClient × List ClientStmt)
  | .clearRbuf => .ok ({ w with conn := { w.conn with rbuf := w.conn.rbuf.clear } }, [])
  | .clearWbuf => .ok ({ w with conn := { w.conn with wbuf := w.conn.wbuf.clear } }, [])
  | .newContext n =>
    .ok ({ w with conn := { w.conn with ctx := some protocol.newContext }
                  ctxOf := some n, parseError := false }, [])
  | .newSession n => .ok ({ w with session := some n }, [])
  | .setConnType connType => do
    return (← w.modifyContext fun (c : Context) => { c with connType }, [])
  | .setMethod method => do return (← w.modifyContext fun (c : Context) => { c with method }, [])
  | .setService service => do return (← w.modifyContext fun (c : Context) => { c with service }, [])
  | .setPayload payload => do return (← w.modifyContext fun (c : Context) => { c with payload }, [])
  | .testPayload n =>
    match w.conn.ctx with
    | none => .error .nullPointer
    | some ctx =>
      .ok (w, if maxPayload < ctx.base.payload.length then [] else sendRequest n)
  | .packRequest n =>
    match w.conn.ctx with
    | none => .error .nullPointer
    | some ctx => do
      let wbuf ← ctx.packRequest w.conn.wbuf
      return ({ w with conn := { w.conn with wbuf }, packed := some n }, [])
  | .setEvent event => .ok ({ w with conn := { w.conn with event } }, [])
  | .addFunc => .ok ({ w with queued := w.queued + 1 }, [])
  | .updateChannel => .ok (w, if w.conn.sevent ≠ w.conn.event then [.testSevent] else [])
  | .testSevent => .ok (w, if w.conn.sevent = .none then [.testAdd] else [.testDel])
  | .testAdd => .ok (w, if w.conn.event ≠ .none then [.loadEvents .add] else [])
  | .testDel => .ok (w, [.loadEvents (if w.conn.event = .none then .del else .mod)])
  | .loadEvents op => .ok (w, [.epollCtl op w.conn.event])
  | .epollCtl op events => do
    return ({ w with registered := ← epollCtl w.registered op events }, [.setSevent])
  | .setSevent => .ok ({ w with conn := { w.conn with sevent := w.conn.event } }, [])
  | .setConnected => .ok ({ w with conn := { w.conn with connected := true } }, [])
  | .deleteContext => .ok ({ w with conn := { w.conn with ctx := none }, ctxOf := none }, [])
  | .resetSession => .ok ({ w with session := none }, [])

/-- `response_callback`: `done` is run, and may call `CallMethod` before it returns. -/
def responseCallback (w : PbClient) (ctx : AnyContext) (chain : Option Call) :
    Except Fault PbClient :=
  match w.session with
  | none => .error .nullPointer
  | some n => do
    let str ← ctx.base.payloadView.str w.conn.rbuf
    let done : Completed := ⟨n, w.ctxOf, str⟩
    let w := { w with completed := w.completed ++ [done] }
    match chain with
    | none => return { w with loop := afterDone }
    | some call =>
      return { w with issued := w.issued + 1, loop := callMethod w.issued call ++ afterDone }

def dataReadCallback (w : PbClient) (chain : Option Call) : Except Fault PbClient :=
  match w.conn.ctx with
  | none => .error .nullPointer
  | some ctx => do
    let (status, s) ← ctx.parseResponse w.conn.rbuf
    let w := { w with conn := { w.conn with ctx := s.ctx, rbuf := s.buf } }
    match status, s.ctx with
    | .error, _ => return { w with parseError := true }
    | .success, some ctx => w.responseCallback ctx chain
    | _, _ => return w

def handle (w : PbClient) (events : Events) (io : SocketResults) (soError : Bool)
    (chain : Option Call) : Except Fault PbClient := do
  let out ← w.conn.handleEvents events io
  let w := { w with conn := out.conn }
  match out.call with
  | none => return w
  | some .close => return { w with loop := closeCallback }
  | some .writeComplete => return { w with loop := writeCompleteCallback }
  | some .clientConn => return { w with loop := clientConnCallback soError }
  | some .dataRead => w.dataReadCallback chain

def effect (protocol : Protocol) (w : PbClient) : ClientMove → Except Fault PbClient
  | .call call => .ok { w with issued := w.issued + 1, app := callMethod w.issued call }
  | .app =>
    match w.app with
    | [] => .ok w
    | s :: rest => do
      let (w, next) ← w.exec protocol s
      return { w with app := next ++ rest }
  | .loop =>
    match w.loop with
    | [] => .ok w
    | s :: rest => do
      let (w, next) ← w.exec protocol s
      return { w with loop := next ++ rest }
  | .event events io soError chain => { w with phase := .handled }.handle events io soError chain
  | .quiet => .ok { w with phase := .handled }
  | .swap => .ok { w with phase := .funcs w.queued, queued := 0 }
  | .func =>
    match w.phase with
    | .funcs (n + 1) => .ok { w with phase := .funcs n, loop := [.updateChannel] }
    | _ => .ok w
  | .poll => .ok { w with phase := .polling }

/-- What epoll can report. -/
def Reported (w : PbClient) (events : Events) : Prop :=
  w.registered ≠ none ∧ (events.epollin → w.registered = some .epollin) ∧
    (events.epollout → w.registered = some .epollout)

/-- A call is made only when the one before it is completed. -/
def Enabled (w : PbClient) : ClientMove → Prop
  | .call _ => w.app = [] ∧ w.completed.length = w.issued
  | .app => w.app ≠ []
  | .loop => w.loop ≠ []
  | .event events io _ _ => w.loop = [] ∧ w.phase = .polling ∧ w.Reported events ∧
      Lifetime.Possible w.conn io
  | .quiet => w.loop = [] ∧ w.phase = .polling
  | .swap => w.loop = [] ∧ w.phase = .handled
  | .func => w.loop = [] ∧ w.phase.funcsLeft ≠ 0
  | .poll => w.loop = [] ∧ w.phase = .funcs 0

instance (w : PbClient) (events : Events) : Decidable (w.Reported events) :=
  inferInstanceAs (Decidable (_ ∧ _ ∧ _))

instance (w : PbClient) : ∀ m, Decidable (w.Enabled m)
  | .call _ => inferInstanceAs (Decidable (_ ∧ _))
  | .app => inferInstanceAs (Decidable (_ ≠ _))
  | .loop => inferInstanceAs (Decidable (_ ≠ _))
  | .event _ _ _ _ => inferInstanceAs (Decidable (_ ∧ _ ∧ _ ∧ _))
  | .quiet => inferInstanceAs (Decidable (_ ∧ _))
  | .swap => inferInstanceAs (Decidable (_ ∧ _))
  | .func => inferInstanceAs (Decidable (_ ∧ _))
  | .poll => inferInstanceAs (Decidable (_ ∧ _))

/-- A move, or the fault it runs into. -/
def next (protocol : Protocol) (w : PbClient) (m : ClientMove) : PbClient :=
  match w.effect protocol m with
  | .ok w' => w'
  | .error f => { w with fault := some f }

/-- The callbacks that the constructor installs. -/
def installed : List Callback := [.close, .dataRead, .writeComplete, .clientConn]

/-- After the constructor: `::connect` is in progress, or it has succeeded at once. -/
def constructed (fd : Nat) (atOnce : Bool) : PbClient :=
  if atOnce then { conn := { fd, callbacks := installed } }
  else { conn := { fd, event := .epollout, connected := false, callbacks := installed }, queued := 1 }

end PbClient

def asyncClient (protocol : Protocol) : System PbClient ClientMove where
  start w := ∃ fd atOnce, w = .constructed fd atOnce
  step w m w' := w.fault = none ∧ w.Enabled m ∧ w' = w.next protocol m

end SmallRpc
