import SmallRpc.PbServer

/-! One connection from its construction on, as the three kinds of threads that touch it
see it: the acceptor, which sets it up; its event loop, which goes round through events,
queued functions and timers; and the threads in which services run `done`. Every move is
one statement of one thread, or the part of a handler that reads only the connection.
Any time may pass between two moves, so a timer may expire at any turn of the loop after
it was armed. -/
namespace SmallRpc
open Runs

/-- An armed timer: the id it was armed with, whether it is a read timer, and for that
one the number of requests dispatched by then. -/
structure Timer where
  kind : TimerKind
  id : Nat
  received : Nat
  deriving DecidableEq, Repr

/-- A `ReqRespConnPack` together with the rest of its `response_callback`, which runs
inside `CallMethod` or, `later`, in another thread. -/
structure Pack where
  request : Request
  later : Bool
  todo : List Stmt
  deriving DecidableEq, Repr

/-- Where the loop is in its turn, as far as this connection is concerned. -/
inductive Phase where
  | polling
  | handled
  | funcs (n : Nat)
  | timers (expired : List Timer)
  deriving DecidableEq, Repr

/-- The functions swapped out of `_funcs` and not yet run. -/
def Phase.funcsLeft : Phase → Nat
  | funcs n => n
  | _ => 0

def Phase.expired : Phase → List Timer
  | timers expired => expired
  | _ => []

/-- `conn` is gone once it is deleted. `setup` and `agenda` hold what is left of the
acceptor's and of the loop's current callback, `queued` counts the `update_channel`
functions in `_funcs`, `closed` the calls of `::close` on the descriptor. Requests are
numbered as dispatched; `packed` are those whose responses are in the write buffer,
`written` those for which the write-complete callback was called. -/
structure Lifetime where
  conn : Option TCPConnection
  listed : Bool := false
  setup : List Stmt
  agenda : List Stmt := []
  phase : Phase := .polling
  queued : Nat := 0
  timers : List Timer := []
  packs : List Pack := []
  packed : List Nat := []
  written : List Nat := []
  closed : Nat := 0
  fault : Option Fault := none
  deriving DecidableEq, Repr

/-- What the service does with a request: the response, and when it runs `done`. -/
structure Answer where
  respStr : Bytes := []
  later : Bool := false
  deriving DecidableEq, Repr

inductive Move where
  | setup
  | event (events : Events) (io : SocketResults) (answer : Answer)
  | quiet
  | stmt
  | swap
  | func
  | drain (expired left : List Timer)
  | timer
  | poll
  | respond (n : Nat)
  deriving DecidableEq, Repr

namespace Lifetime

/-- Use of the connection pointer. -/
def withConn (l : Lifetime) (f : TCPConnection → Except Fault Lifetime) : Except Fault Lifetime :=
  match l.conn with
  | none => .error .danglingPointer
  | some conn => f conn

def setConn (l : Lifetime) (conn : TCPConnection) : Lifetime := { l with conn := some conn }

def exec (l : Lifetime) : Stmt → Except Fault Lifetime
  | .addChannel => l.withConn fun _ => .ok { l with listed := true }
  | .setEvent event => l.withConn fun conn => .ok (l.setConn { conn with event })
  | .updateChannel => l.withConn fun conn => .ok (l.setConn conn.updateChannel)
  | .bumpTimer => l.withConn fun conn => .ok (l.setConn { conn with timerId := conn.timerId + 1 })
  | .runAfter kind => l.withConn fun conn =>
      .ok { l with timers := l.timers ++ [⟨kind, conn.timerId, l.packs.length⟩] }
  | .install callback => l.withConn fun conn =>
      .ok (l.setConn { conn with callbacks := conn.callbacks ++ [callback] })
  | .closeFd => l.withConn fun _ => .ok { l with closed := l.closed + 1 }
  | .removeChannel => l.withConn fun _ => .ok { l with listed := false }
  | .deleteConn => l.withConn fun _ => .ok { l with conn := none, closed := l.closed + 1 }
  | .deleteContext => l.withConn fun conn => .ok (l.setConn { conn with ctx := none })
  | .clearBuffers => l.withConn fun conn =>
      .ok (l.setConn { conn with rbuf := conn.rbuf.clear, wbuf := conn.wbuf.clear })
  | .unpack => .ok l
  | .setRpcStatus => l.withConn fun conn => do
      let status (c : Context) : Context := { c with rpcStatus := some .ok }
      return l.setConn (← conn.withContext (.modify status))
  | .setPayload respStr => l.withConn fun conn => do
      let payload (c : Context) : Context := { c with payload := respStr }
      return l.setConn (← conn.withContext (.modify payload))
  | .packResponse n => l.withConn fun conn => do
      return { l.setConn (← conn.packResponse) with packed := l.packed ++ [n] }
  | .addFunc => l.withConn fun _ => .ok { l with queued := l.queued + 1 }

/-- `conn->close()`; an unset callback throws. -/
def close (l : Lifetime) (conn : TCPConnection) : Except Fault Lifetime :=
  if .close ∈ conn.callbacks then .ok { l with agenda := PbServer.closeCallback }
  else .error .thrown

/-- `request_callback` up to the first statement of `response_callback`. -/
def request (srv : PbServer) (l : Lifetime) (conn : TCPConnection) (answer : Answer) :
    Except Fault Lifetime := do
  match ← srv.requestCallback conn with
  | none => return { l with agenda := PbServer.closeCallback }
  | some request =>
    let todo := srv.responseCallback l.packs.length answer.respStr
    return { l with packs := l.packs ++ [⟨request, answer.later, todo⟩] }

def dataRead (srv : PbServer) (l : Lifetime) (conn : TCPConnection) (answer : Answer) :
    Except Fault Lifetime := do
  let (next, conn) ← srv.dataReadCallback conn
  let l := l.setConn conn
  match next with
  | .wait => return l
  | .close => l.close conn
  | .request => l.request srv conn answer

def writeComplete (srv : PbServer) (l : Lifetime) (conn : TCPConnection) : Except Fault Lifetime :=
  match conn.ctx with
  | none => .error .nullPointer
  | some ctx =>
    .ok { l with agenda := srv.writeCompleteCallback ctx.base.connType
                 packed := [], written := l.written ++ l.packed }

/-- The callback `handle_events` ends with, up to the first statement that another
thread can come before. -/
def call (srv : PbServer) (l : Lifetime) (conn : TCPConnection) (answer : Answer) :
    Option Callback → Except Fault Lifetime
  | none => .ok l
  | some .clientConn => .ok l
  | some .close => .ok { l with agenda := PbServer.closeCallback }
  | some .writeComplete => l.writeComplete srv conn
  | some .dataRead => l.dataRead srv conn answer

def handle (srv : PbServer) (l : Lifetime) (events : Events) (io : SocketResults)
    (answer : Answer) : Except Fault Lifetime :=
  l.withConn fun conn => do
    let out ← conn.handleEvents events io
    (l.setConn out.conn).call srv out.conn answer out.call

/-- `timeout_callback`. -/
def timeoutCallback (l : Lifetime) (timer : Timer) : Except Fault Lifetime :=
  if l.listed then
    l.withConn fun conn =>
      .ok (if conn.timerId % 2 ^ 32 = timer.id % 2 ^ 32 then
        { l with agenda := PbServer.closeCallback } else l)
  else .ok l

def effect (srv : PbServer) (l : Lifetime) : Move → Except Fault Lifetime
  | .setup =>
    match l.setup with
    | [] => .ok l
    | s :: rest => { l with setup := rest }.exec s
  | .stmt =>
    match l.agenda with
    | [] => .ok l
    | s :: rest => { l with agenda := rest }.exec s
  | .respond n =>
    match l.packs[n]? with
    | none => .ok l
    | some pack =>
      match pack.todo with
      | [] => .ok l
      | s :: rest => { l with packs := l.packs.set n { pack with todo := rest } }.exec s
  | .event events io answer => { l with phase := .handled }.handle srv events io answer
  | .quiet => .ok { l with phase := .handled }
  | .swap => .ok { l with phase := .funcs l.queued, queued := 0 }
  | .func =>
    match l.phase with
    | .funcs (n + 1) => { l with phase := .funcs n }.exec .updateChannel
    | _ => .ok l
  | .drain expired left => .ok { l with phase := .timers expired, timers := left }
  | .timer =>
    match l.phase with
    | .timers (timer :: rest) => { l with phase := .timers rest }.timeoutCallback timer
    | _ => .ok l
  | .poll => .ok { l with phase := .polling }

/-- The loop is done with the callback it was in. -/
def AtRest (l : Lifetime) : Prop :=
  l.agenda = [] ∧ ∀ pack ∈ l.packs, pack.later = false → pack.todo = []

/-- What epoll can report: only what the connection is registered for. -/
def Reported (conn : TCPConnection) (events : Events) : Prop :=
  conn.sevent ≠ .none ∧ (events.epollin → conn.sevent = .epollin) ∧
    (events.epollout → conn.sevent = .epollout)

/-- A read fills at most the room it is offered. -/
def ReadPossible (b : Buffer) : Buffer.ReadResult → Prop
  | .data bs => bs ≠ [] ∧ b.windex + bs.length ≤ b.makeRoom.data.length
  | _ => True

/-- What the system calls of an event can report, errors included. -/
def Possible (conn : TCPConnection) (io : SocketResults) : Prop :=
  ReadPossible conn.rbuf io.read ∧ io.head.taken ≤ conn.wbuf.readable ∧
    io.extra.taken ≤ conn.wbuf.extraable

def Enabled (srv : PbServer) (l : Lifetime) : Move → Prop
  | .setup => l.setup ≠ []
  | .stmt => l.agenda ≠ []
  | .respond n => ∃ pack ∈ l.packs[n]?, pack.todo ≠ []
  | .event events io answer => l.AtRest ∧ l.phase = .polling ∧ (answer.later → srv.async) ∧
      ∃ conn ∈ l.conn, Reported conn events ∧ Possible conn io
  | .quiet => l.AtRest ∧ l.phase = .polling
  | .swap => l.AtRest ∧ l.phase = .handled
  | .func => l.AtRest ∧ l.phase.funcsLeft ≠ 0
  | .drain expired left => l.AtRest ∧ l.phase = .funcs 0 ∧ l.timers.Perm (expired ++ left)
  | .timer => l.AtRest ∧ l.phase.expired ≠ []
  | .poll => l.AtRest ∧ l.phase = .timers []

instance (b : Buffer) : ∀ r, Decidable (ReadPossible b r)
  | .data _ => inferInstanceAs (Decidable (_ ∧ _))
  | .eof => inferInstanceAs (Decidable True)
  | .again => inferInstanceAs (Decidable True)
  | .failed => inferInstanceAs (Decidable True)

instance (conn : TCPConnection) (io : SocketResults) : Decidable (Possible conn io) :=
  inferInstanceAs (Decidable (_ ∧ _ ∧ _))

instance (conn : TCPConnection) (events : Events) : Decidable (Reported conn events) :=
  inferInstanceAs (Decidable (_ ∧ _ ∧ _))

instance (l : Lifetime) : Decidable l.AtRest := inferInstanceAs (Decidable (_ ∧ _))

instance (srv : PbServer) (l : Lifetime) : ∀ m, Decidable (l.Enabled srv m)
  | .setup => inferInstanceAs (Decidable (_ ≠ _))
  | .stmt => inferInstanceAs (Decidable (_ ≠ _))
  | .respond n => inferInstanceAs (Decidable (∃ pack ∈ l.packs[n]?, pack.todo ≠ []))
  | .event events io _ => inferInstanceAs (Decidable (_ ∧ _ ∧ _ ∧
      ∃ conn ∈ l.conn, Reported conn events ∧ Possible conn io))
  | .quiet => inferInstanceAs (Decidable (_ ∧ _))
  | .swap => inferInstanceAs (Decidable (_ ∧ _))
  | .func => inferInstanceAs (Decidable (_ ∧ _))
  | .drain _ _ => inferInstanceAs (Decidable (_ ∧ _ ∧ _))
  | .timer => inferInstanceAs (Decidable (_ ∧ _))
  | .poll => inferInstanceAs (Decidable (_ ∧ _))

/-- A move, or the fault it runs into. -/
def next (srv : PbServer) (l : Lifetime) (m : Move) : Lifetime :=
  match l.effect srv m with
  | .ok l' => l'
  | .error f => { l with fault := some f }

/-- Nothing happens after a fault. -/
def Step (srv : PbServer) (l : Lifetime) (m : Move) (l' : Lifetime) : Prop :=
  l.fault = none ∧ l.Enabled srv m ∧ l' = l.next srv m

/-- `new TCPConnection(conn, el)` on a descriptor just accepted. -/
def accepted (srv : PbServer) (fd : Nat) : Lifetime :=
  { conn := some { fd }, setup := srv.newConnectionCallback }

end Lifetime

/-- The lives of the connections that a server accepts under one descriptor number. -/
def lifetime (srv : PbServer) (fd : Nat) : System Lifetime Move where
  start l := l = .accepted srv fd
  step := Lifetime.Step srv

end SmallRpc
