import SmallRpc.Phases
import SmallRpc.Setup
import SmallRpc.TimerOwners

/-! The connections of a server as its loops see them: raw pointers, which epoll hands
back, which are bound into queued functions and into timers. An address is free again as
soon as the object there is deleted. Services answer inside `CallMethod`, and a handler,
like the setting up of a connection, is one step. -/
namespace SmallRpc
open Runs

/-- A connection object, with its number among all that were created. -/
structure Object where
  conn : TCPConnection
  el : LoopId
  ts : TimeStamp
  serial : Nat
  deriving DecidableEq, Repr

/-- The object after something was done to its connection; nothing is left of a deleted one. -/
def Object.become (o : Object) (conn : Option TCPConnection) : Option Object :=
  conn.map fun conn => { o with conn }

/-- The connection that an object is stays the same, whatever is done to it. -/
def Object.Same (o o' : Object) : Prop :=
  o'.el = o.el ∧ o'.ts = o.ts ∧ o'.serial = o.serial ∧ o'.conn.fd = o.conn.fd

theorem Object.Same.refl {o : Object} : o.Same o := ⟨rfl, rfl, rfl, rfl⟩

theorem Object.Same.trans {o o' o'' : Object} (h : o.Same o') (k : o'.Same o'') : o.Same o'' :=
  ⟨k.1.trans h.1, k.2.1.trans h.2.1, k.2.2.1.trans h.2.2.1, k.2.2.2.trans h.2.2.2⟩

/-- A `TCPConnection*`, and the number of the object that it was taken from. -/
structure Pointer where
  conn : Nat
  serial : Nat
  deriving DecidableEq, Repr

/-- What epoll keeps for a descriptor: `data.ptr` and the events. -/
structure Registration where
  pointer : Pointer
  event : Interest
  deriving DecidableEq, Repr

/-- An element of `_events`: the acceptor's channel or that of a connection. -/
inductive BatchEntry where
  | listener
  | channel (pointer : Pointer) (events : Events)
  deriving DecidableEq, Repr

/-- Where a loop is in its turn, with what it has fetched for it. -/
inductive LoopTurn where
  | polling
  | events (batch : List BatchEntry)
  | funcs (calls : List Pointer)
  | timers (expired : List TimeoutCall)
  deriving DecidableEq, Repr

/-- The objects by their addresses, the descriptors, and for each loop its epoll set, its
`_channels`, its `_funcs`, its timers and its turn. -/
structure World where
  clock : TimeStamp
  heap : Nat → Option Object := fun _ => none
  created : Nat := 0
  files : Nat → Option File
  nextEl : Option Nat
  epoll : LoopId → Nat → Option Registration := fun _ _ => none
  channels : LoopId → Channels := fun _ _ => none
  queue : LoopId → List Pointer := fun _ => []
  timers : LoopId → List TimeoutCall := fun _ => []
  turn : LoopId → LoopTurn := fun _ => .polling
  fault : Option Fault := none

/-- `respStr` is what the service serializes, should the event lead to one; `address` is
where `new` puts a connection, should one be accepted. -/
inductive WorldMove where
  | tick (now : TimeStamp)
  | wait (el : LoopId) (sources : List (Option Nat × Events))
  | event (el : LoopId) (io : SocketResults) (respStr : Bytes)
  | accept (r : AcceptResult) (address : Nat)
  | swap (el : LoopId)
  | func (el : LoopId)
  | drain (el : LoopId) (expired left : List TimeoutCall)
  | timer (el : LoopId)
  | poll (el : LoopId)
  deriving DecidableEq, Repr

namespace LoopTurn

/-- The connections that are still to be handled in this batch. -/
def pointers : LoopTurn → List Pointer
  | events batch => batch.filterMap fun
    | .listener => none
    | .channel pointer _ => some pointer
  | _ => []

/-- The functions of this turn that are still to be called. -/
def calls : LoopTurn → List Pointer
  | funcs calls => calls
  | _ => []

/-- The timers of this turn that are still to be called. -/
def expired : LoopTurn → List TimeoutCall
  | timers expired => expired
  | _ => []

/-- The first element of what is left of the batch. -/
def entry : LoopTurn → Option BatchEntry
  | events batch => batch.head?
  | _ => none

/-- In the loop over the batch. -/
def handling : LoopTurn → Bool
  | events _ => true
  | _ => false

end LoopTurn

namespace World

/-- The use of a `TCPConnection*`. -/
def withObject (w : World) (a : Nat) (f : Object → Except Fault World) : Except Fault World :=
  match w.heap a with
  | none => .error .danglingPointer
  | some o => f o

def store (w : World) (a : Nat) (o : Option Object) : World :=
  { w with heap := Function.update w.heap a o }

/-- `::close` of a descriptor that may not be open; a file that is closed leaves epoll. -/
def closeFile (w : World) (fd : Nat) : World :=
  { w with files := Function.update w.files fd none
           epoll := fun el => Function.update (w.epoll el) fd none }

def setChannels (w : World) (el : LoopId) (channels : Channels) : World :=
  { w with channels := Function.update w.channels el channels }

def setEpoll (w : World) (el : LoopId) (fd : Nat) (r : Option Registration) : World :=
  { w with epoll := Function.update w.epoll el (Function.update (w.epoll el) fd r) }

/-- `update_channel` with the kernel's answer. -/
def epollCtl (w : World) (a : Nat) (o : Object) : Except Fault World :=
  match o.conn.epollOp with
  | none => .ok w
  | some op =>
    let registered := ((w.epoll o.el o.conn.fd).map Registration.event).getD .none
    if w.files o.conn.fd = none then .error .aborted
    else match op.perform o.conn.event registered with
    | none => .error .aborted
    | some event =>
      let registration := if event = .none then none else some ⟨⟨a, o.serial⟩, event⟩
      .ok (w.setEpoll o.el o.conn.fd registration)

/-- The milliseconds that a timer is armed with. -/
def timeoutMs (srv : PbServer) : TimerKind → Int
  | .read => srv.readTimeoutMs
  | .write _ => srv.writeTimeoutMs

/-- What a statement on the object at an address does outside of it. -/
def outside (srv : PbServer) (w : World) (a : Nat) (o : Object) : Stmt → Except Fault World
  | .addChannel => .ok (w.setChannels o.el ((w.channels o.el).addChannel a o.ts))
  | .removeChannel => .ok (w.setChannels o.el ((w.channels o.el).removeChannel a o.ts))
  | .updateChannel => w.epollCtl a o
  | .runAfter kind =>
    let call : TimeoutCall :=
      { conn := a, connTs := o.ts, timerId := o.conn.timerId, isRead := kind = .read
        deadline := w.clock.afterNowMs (timeoutMs srv kind), owner := o.serial }
    .ok { w with timers := Function.update w.timers o.el (w.timers o.el ++ [call]) }
  | .addFunc =>
    .ok { w with queue := Function.update w.queue o.el (w.queue o.el ++ [⟨a, o.serial⟩]) }
  | .closeFd => .ok (w.closeFile o.conn.fd)
  | .deleteConn => .ok (w.closeFile o.conn.fd)
  | _ => .ok w

/-- The connection by itself, for what is done to the object only. -/
def alone (conn : TCPConnection) : Lifetime := { conn := some conn, setup := [] }

def exec (srv : PbServer) (w : World) (a : Nat) (s : Stmt) : Except Fault World :=
  w.withObject a fun o => do
    let l ← (alone o.conn).exec s
    let w ← w.outside srv a o s
    return w.store a (o.become l.conn)

def execAll (srv : PbServer) (w : World) (a : Nat) (stmts : List Stmt) : Except Fault World :=
  stmts.foldlM (fun w s => w.exec srv a s) w

/-- `handle_events`, with all that its callback does. -/
def handle (srv : PbServer) (w : World) (a : Nat) (events : Events) (io : SocketResults)
    (respStr : Bytes) : Except Fault World :=
  w.withObject a fun o => do
    let l ← (alone o.conn).handle srv events io { respStr }
    (w.store a (o.become l.conn)).execAll srv a l.pending

/-- The constructor, at an address. -/
def construct (threadNum : Nat) (w : World) (fd a : Nat) : World :=
  let (el, nextEl) := TCPServer.getNextEl threadNum w.nextEl
  { w with
    nextEl
    created := w.created + 1
    files := Function.update w.files fd (some (.conn w.created))
    heap := Function.update w.heap a
      (some { conn := { fd }, el, ts := w.clock, serial := w.created }) }

/-- `handler_new_connection`. -/
def accept (srv : PbServer) (threadNum : Nat) (w : World) (a : Nat) :
    AcceptResult → Except Fault World
  | .again => .ok w
  | .failed => .error .aborted
  | .conn fd => (w.construct threadNum fd a).execAll srv a srv.newConnectionCallback

def timeoutCallback (srv : PbServer) (w : World) (el : LoopId) (call : TimeoutCall) :
    Except Fault World :=
  if (w.channels el).hasChannel call.conn call.connTs then
    w.withObject call.conn fun o =>
      if o.conn.timerId % 2 ^ 32 = call.timerId % 2 ^ 32 then
        w.execAll srv call.conn PbServer.closeCallback
      else .ok w
  else .ok w

def setTurn (w : World) (el : LoopId) (turn : LoopTurn) : World :=
  { w with turn := Function.update w.turn el turn }

/-- The pointers that `epoll_wait` hands back. -/
def report (w : World) (el : LoopId) : Option Nat × Events → List BatchEntry
  | (none, _) => [.listener]
  | (some fd, events) =>
    match w.epoll el fd with
    | none => []
    | some r => [.channel r.pointer events]

def effect (srv : PbServer) (threadNum : Nat) (w : World) : WorldMove → Except Fault World
  | .tick now => .ok { w with clock := now }
  | .wait el sources => .ok (w.setTurn el (.events (sources.flatMap (w.report el))))
  | .event el io respStr =>
    match w.turn el with
    | .events (.channel p events :: batch) =>
      (w.setTurn el (.events batch)).handle srv p.conn events io respStr
    | _ => .ok w
  | .accept r address =>
    match w.turn .main with
    | .events (.listener :: batch) =>
      (w.setTurn .main (.events batch)).accept srv threadNum address r
    | _ => .ok w
  | .swap el =>
    .ok { w.setTurn el (.funcs (w.queue el)) with queue := Function.update w.queue el [] }
  | .func el =>
    match w.turn el with
    | .funcs (p :: calls) => (w.setTurn el (.funcs calls)).exec srv p.conn .updateChannel
    | _ => .ok w
  | .drain el expired left =>
    .ok { w.setTurn el (.timers expired) with timers := Function.update w.timers el left }
  | .timer el =>
    match w.turn el with
    | .timers (call :: expired) => (w.setTurn el (.timers expired)).timeoutCallback srv el call
    | _ => .ok w
  | .poll el => .ok (w.setTurn el .polling)

/-- What can be reported: the acceptor to the main loop only, a descriptor that is
registered with events it is registered for, and each of them once. -/
def Reportable (w : World) (el : LoopId) : Option Nat × Events → Prop
  | (none, _) => el = .main
  | (some fd, events) => ∃ r ∈ w.epoll el fd,
      (events.epollin → r.event = .epollin) ∧ (events.epollout → r.event = .epollout)

/-- The main loop has the acceptor's channel before it; what `::accept` returns is a free
number, and `new` finds a free address. -/
def Acceptable (w : World) (r : AcceptResult) (address : Nat) : Prop :=
  (w.turn .main).entry = some .listener ∧ w.heap address = none ∧
    match r with
    | .conn fd => w.files fd = none
    | _ => True

def Enabled (w : World) : WorldMove → Prop
  | .tick now => now.lt w.clock = false
  | .wait el sources => w.turn el = .polling ∧ (sources.map Prod.fst).Nodup ∧
      ∀ source ∈ sources, w.Reportable el source
  | .event el _ _ => (w.turn el).pointers ≠ [] ∧ (w.turn el).entry ≠ some .listener
  | .accept r address => w.Acceptable r address
  | .swap el => w.turn el = .events []
  | .func el => (w.turn el).calls ≠ []
  | .drain el expired left => w.turn el = .funcs [] ∧ (w.timers el).Perm (expired ++ left)
  | .timer el => (w.turn el).expired ≠ []
  | .poll el => w.turn el = .timers []

instance (w : World) (el : LoopId) : ∀ source, Decidable (w.Reportable el source)
  | (none, _) => inferInstanceAs (Decidable (_ = _))
  | (some _, _) => inferInstanceAs (Decidable (∃ r ∈ _, _ ∧ _))

instance (w : World) (r : AcceptResult) (address : Nat) : Decidable (w.Acceptable r address) := by
  cases r <;> unfold Acceptable <;> infer_instance

instance (w : World) (m : WorldMove) : Decidable (w.Enabled m) := by
  cases m <;> unfold Enabled <;> infer_instance

/-- A move, or the fault it runs into. -/
def next (srv : PbServer) (threadNum : Nat) (w : World) (m : WorldMove) : World :=
  match w.effect srv threadNum m with
  | .ok w' => w'
  | .error f => { w with fault := some f }

/-- The object that the pointer was taken from is still there, and this loop's. -/
def Live (w : World) (el : LoopId) (p : Pointer) : Prop :=
  ∃ o, w.heap p.conn = some o ∧ o.serial = p.serial ∧ o.el = el

/-- The invariant: `_channels` lists the objects, their descriptors are their own, and all
pointers in epoll, in the batches and in the functions are live. A function is queued only
in the batch, for a connection that is through with it. -/
structure Linked (w : World) : Prop where
  listed : ∀ el a ts, w.channels el a = some ts ↔ ∃ o, w.heap a = some o ∧ o.el = el ∧ o.ts = ts
  files : ∀ a o, w.heap a = some o → w.files o.conn.fd = some (.conn o.serial)
  distinct : ∀ a b o q, w.heap a = some o → w.heap b = some q → o.serial = q.serial → a = b
  old : ∀ a o, w.heap a = some o → o.serial < w.created
  epoll : ∀ el fd r, w.epoll el fd = some r →
    ∃ o, w.heap r.pointer.conn = some o ∧ o.serial = r.pointer.serial ∧ o.el = el ∧ o.conn.fd = fd
  once : ∀ el, ((w.turn el).pointers.map Pointer.conn).Nodup
  batch : ∀ el, ∀ p ∈ (w.turn el).pointers, w.Live el p
  queue : ∀ el, ∀ p ∈ w.queue el,
    w.Live el p ∧ (w.turn el).handling = true ∧ p ∉ (w.turn el).pointers
  calls : ∀ el, ∀ p ∈ (w.turn el).calls, w.Live el p

/-- What is done to the object at an address and leaves it there, with the functions that
are queued for it. -/
structure Kept (a : Nat) (o : Object) (calls : List Pointer) (w w' : World) : Prop where
  heap : ∃ o', w'.heap = Function.update w.heap a (some o') ∧ o.Same o'
  channels : w'.channels = w.channels
  files : w'.files = w.files
  created : w'.created = w.created
  turn : w'.turn = w.turn
  fault : w'.fault = w.fault
  queue : w'.queue = Function.update w.queue o.el (w.queue o.el ++ calls)
  epoll : ∀ el fd r, w'.epoll el fd = some r →
    w.epoll el fd = some r ∨ el = o.el ∧ fd = o.conn.fd ∧ r.pointer = ⟨a, o.serial⟩

/-- A server right after `start`, in a process that has other descriptors open. -/
def Started (threadNum : Nat) (w : World) : Prop :=
  ∃ clock files, (∀ fd i, files fd ≠ some (File.conn i)) ∧
    w = { clock, files, nextEl := if threadNum = 0 then none else some 0 }

end World

/-- Nothing happens after a fault. -/
def world (srv : PbServer) (threadNum : Nat) : System World WorldMove where
  start := World.Started threadNum
  step w m w' := w.fault = none ∧ w.Enabled m ∧ w' = w.next srv threadNum m

/-- Statements that leave the object and its entry in `_channels` where they are. -/
def Stmt.stays : Stmt → Bool
  | .addChannel | .removeChannel | .closeFd | .deleteConn => false
  | _ => true

/-- A computation meets no dangling pointer, and what it ends in has the property. -/
def Safely {α : Type} (x : Except Fault α) (P : α → Prop) : Prop :=
  Faults (· ≠ .danglingPointer) x ∧ ∀ a, x = .ok a → P a

section
variable {α β : Type} {P : α → Prop} {Q : β → Prop} {x : Except Fault α} {f : α → Except Fault β}

theorem safely_ok {a : α} (h : P a) : Safely (.ok a) P :=
  ⟨faults_ok, fun _ same => Except.ok.inj same ▸ h⟩

theorem safely_error {e : Fault} (h : e ≠ .danglingPointer) : Safely (.error e) P :=
  ⟨faults_error h, fun _ same => by cases same⟩

theorem Safely.bind (h : Safely x P) (k : ∀ a, P a → Safely (f a) Q) : Safely (x >>= f) Q := by
  refine ⟨h.1.bind_ok fun a ha => (k a (h.2 a ha)).1, fun b hb => ?_⟩
  obtain ⟨a, ha, hb⟩ := bind_ok.mp hb
  exact (k a (h.2 a ha)).2 b hb

theorem Safely.mono {R : α → Prop} (h : Safely x P) (k : ∀ a, P a → R a) : Safely x R :=
  ⟨h.1, fun a ha => k a (h.2 a ha)⟩

end

namespace World
open Lifetime
variable {srv : PbServer} {threadNum : Nat} {w w' : World} {m : WorldMove} {a b : Nat} {o o' q : Object}
  {el : LoopId} {s : Stmt} {stmts : List Stmt} {p : Pointer} {calls : List Pointer} {events : Events}
  {io : SocketResults} {respStr : Bytes} {es : List (World × WorldMove)}

theorem withObject_some {f : Object → Except Fault World} (hc : w.heap a = some o) :
    w.withObject a f = f o := by
  rw [withObject, hc]

/-- Objects are found again, as the same connections. -/
theorem Kept.later (h : Kept a o calls w w') (hc : w.heap a = some o) (hq : w.heap b = some q) :
    ∃ q', w'.heap b = some q' ∧ q.Same q' := by
  obtain ⟨o', heap, same⟩ := h.heap
  rw [heap]
  by_cases hb : b = a
  · rw [hb, Function.update_self]
    rw [hb, hc] at hq
    obtain rfl := Option.some.inj hq
    exact ⟨o', rfl, same⟩
  · rw [Function.update_of_ne hb]
    exact ⟨q, hq, Object.Same.refl⟩

theorem Kept.earlier (h : Kept a o calls w w') (hc : w.heap a = some o) (hq : w'.heap b = some q) :
    ∃ q₀, w.heap b = some q₀ ∧ q₀.Same q := by
  obtain ⟨o', heap, same⟩ := h.heap
  rw [heap] at hq
  by_cases hb : b = a
  · rw [hb, Function.update_self] at hq
    obtain rfl := Option.some.inj hq
    exact ⟨o, by rw [hb, hc], same⟩
  · rw [Function.update_of_ne hb] at hq
    exact ⟨q, hq, Object.Same.refl⟩

theorem Kept.live (h : Kept a o calls w w') (hc : w.heap a = some o) (live : w.Live el p) :
    w'.Live el p := by
  obtain ⟨q, hq, serial, hel⟩ := live
  obtain ⟨q', hq', same⟩ := h.later hc hq
  exact ⟨q', hq', same.2.2.1.trans serial, same.1.trans hel⟩

theorem Linked.kept (h : w.Linked) (hc : w.heap a = some o) (kept : Kept a o calls w w')
    (queued : ∀ p ∈ calls, p = ⟨a, o.serial⟩ ∧ (w.turn o.el).handling = true ∧
      p ∉ (w.turn o.el).pointers) : w'.Linked where
  listed el b ts := by
    rw [kept.channels, h.listed]
    constructor
    · rintro ⟨q, hq, hel, hts⟩
      obtain ⟨q', hq', same⟩ := kept.later hc hq
      exact ⟨q', hq', same.1.trans hel, same.2.1.trans hts⟩
    · rintro ⟨q, hq, hel, hts⟩
      obtain ⟨q₀, hq₀, same⟩ := kept.earlier hc hq
      exact ⟨q₀, hq₀, same.1.symm.trans hel, same.2.1.symm.trans hts⟩
  files b q hq := by
    obtain ⟨q₀, hq₀, same⟩ := kept.earlier hc hq
    rw [kept.files, same.2.2.2, same.2.2.1]
    exact h.files b q₀ hq₀
  distinct b b' q q' hq hq' serial := by
    obtain ⟨q₀, hq₀, same⟩ := kept.earlier hc hq
    obtain ⟨q₁, hq₁, same'⟩ := kept.earlier hc hq'
    exact h.distinct b b' q₀ q₁ hq₀ hq₁ (same.2.2.1.symm.trans (serial.trans same'.2.2.1))
  old b q hq := by
    obtain ⟨q₀, hq₀, same⟩ := kept.earlier hc hq
    rw [kept.created, same.2.2.1]
    exact h.old b q₀ hq₀
  epoll el fd r hr := by
    rcases kept.epoll el fd r hr with old | ⟨rfl, rfl, new⟩
    · obtain ⟨q, hq, serial, hel, hfd⟩ := h.epoll el fd r old
      obtain ⟨q', hq', same⟩ := kept.later hc hq
      exact ⟨q', hq', same.2.2.1.trans serial, same.1.trans hel, same.2.2.2.trans hfd⟩
    · obtain ⟨o', ho', same⟩ := kept.later hc hc
      rw [new]
      exact ⟨o', ho', same.2.2.1, same.1, same.2.2.2⟩
  once el := by
    rw [kept.turn]
    exact h.once el
  batch el p hp := by
    rw [kept.turn] at hp
    exact kept.live hc (h.batch el p hp)
  queue el p hp := by
    rw [kept.turn]
    have before : p ∈ w.queue el → w'.Live el p ∧ (w.turn el).handling = true ∧
        p ∉ (w.turn el).pointers := by
      intro hp
      obtain ⟨live, handling, through⟩ := h.queue el p hp
      exact ⟨kept.live hc live, handling, through⟩
    rw [kept.queue] at hp
    by_cases hel : el = o.el
    · rw [hel, Function.update_self] at hp
      rcases List.mem_append.mp hp with old | new
      · exact before (by rw [hel]; exact old)
      · obtain ⟨rfl, handling, through⟩ := queued p new
        rw [hel]
        exact ⟨kept.live hc ⟨o, hc, rfl, rfl⟩, handling, through⟩
    · rw [Function.update_of_ne hel] at hp
      exact before hp
  calls el p hp := by
    rw [kept.turn] at hp
    exact kept.live hc (h.calls el p hp)

/-- The function that a statement leaves for the object. -/
def queues (a : Nat) (o : Object) (s : Stmt) : List Pointer :=
  if s = .addFunc then [⟨a, o.serial⟩] else []

theorem queue_nil {queue : LoopId → List Pointer} : Function.update queue el (queue el ++ []) = queue := by
  rw [List.append_nil, Function.update_eq_self]

/-- The kernel's set, after `update_channel` was not refused. -/
theorem epollCtl_ok (run : w.epollCtl a o = .ok w') :
    ∃ registration, (∀ r ∈ registration, r.pointer = ⟨a, o.serial⟩) ∧
      (w' = w ∨ w' = w.setEpoll o.el o.conn.fd registration) := by
  unfold epollCtl at run
  split at run
  · cases run
    exact ⟨none, nofun, .inl rfl⟩
  · simp only at run
    split_ifs at run
    · split at run
      · cases run
      · cases run
        refine ⟨_, ?_, .inr rfl⟩
        intro r hr
        split_ifs at hr
        · cases hr
        · obtain rfl := Option.some.inj hr
          rfl

theorem epollCtl_safe : w.epollCtl a o ≠ .error .danglingPointer := by
  unfold epollCtl
  split
  · exact nofun
  · simp only
    split_ifs
    · exact nofun
    · split <;> exact nofun

/-- What a statement that stays does outside of the object. -/
theorem outside_kept (stays : s.stays = true) (hc : w.heap a = some o)
    (run : w.outside srv a o s = .ok w') (same : o.Same o') :
    Kept a o (queues a o s) w (w'.store a (some o')) := by
  have plain : ∀ {w' : World}, w' = { w with timers := w'.timers } → s ≠ .addFunc →
      Kept a o (queues a o s) w (w'.store a (some o')) := by
    intro w' timers other
    rw [timers, queues, if_neg other]
    exact ⟨⟨o', rfl, same⟩, rfl, rfl, rfl, rfl, rfl, queue_nil.symm, fun _ _ _ => .inl⟩
  cases s with
  | addChannel => cases stays
  | removeChannel => cases stays
  | closeFd => cases stays
  | deleteConn => cases stays
  | updateChannel =>
      obtain ⟨registration, own, rfl | rfl⟩ := epollCtl_ok run
      · exact plain rfl (by simp)
      · refine ⟨⟨o', rfl, same⟩, rfl, rfl, rfl, rfl, rfl, queue_nil.symm, fun el fd r hr => ?_⟩
        change Function.update w.epoll o.el _ el fd = some r at hr
        by_cases hel : el = o.el
        · subst hel
          rw [Function.update_self] at hr
          by_cases hfd : fd = o.conn.fd
          · subst hfd
            rw [Function.update_self] at hr
            exact .inr ⟨rfl, rfl, own r hr⟩
          · rw [Function.update_of_ne hfd] at hr
            exact .inl hr
        · rw [Function.update_of_ne hel] at hr
          exact .inl hr
  | runAfter kind =>
      cases run
      exact plain rfl (by simp)
  | addFunc =>
      cases run
      exact ⟨⟨o', rfl, same⟩, rfl, rfl, rfl, rfl, rfl, rfl, fun _ _ _ => .inl⟩
  | _ =>
      cases run
      exact plain rfl (by simp)

/-- By itself, a statement that stays leaves a connection with its descriptor. -/
theorem alone_stays {conn : TCPConnection} {l : Lifetime} (stays : s.stays = true)
    (run : (alone conn).exec s = .ok l) : ∃ conn', l.conn = some conn' ∧ conn'.fd = conn.fd := by
  have executed := exec_ok run
  cases hl : l.conn with
  | none =>
      rcases executed.gone hl with gone | rfl
      · cases gone
      · cases stays
  | some conn' =>
      obtain ⟨_, c, hc, touched, _⟩ := executed.kept conn' hl
      obtain rfl := Option.some.inj hc
      exact ⟨conn', rfl, touched.fd⟩

theorem exec_safely (stays : s.stays = true) (hc : w.heap a = some o) :
    Safely (w.exec srv a s) (Kept a o (queues a o s) w) := by
  rw [exec, withObject_some hc]
  have object : Safely ((alone o.conn).exec s) fun l => ∃ conn', l.conn = some conn' ∧ conn'.fd = o.conn.fd := by
    refine ⟨fun e he => ?_, fun l hl => alone_stays stays hl⟩
    rintro rfl
    cases exec_dangling he
  refine object.bind fun l hl => ?_
  obtain ⟨conn', hl, hfd⟩ := hl
  have rest : Safely (w.outside srv a o s)
      fun w' => Kept a o (queues a o s) w (w'.store a (o.become l.conn)) := by
    refine ⟨fun e he => ?_, fun w' hw => ?_⟩
    · rintro rfl
      cases s with
      | updateChannel => exact epollCtl_safe he
      | _ => cases he
    · rw [hl]
      exact outside_kept stays hc hw ⟨rfl, rfl, rfl, hfd⟩
  exact rest.bind fun w' kept => safely_ok kept

/-- Where statements that stay lead. -/
structure After (a : Nat) (o : Object) (stmts : List Stmt) (w w' : World) : Prop where
  linked : w'.Linked
  there : ∃ o', w'.heap a = some o' ∧ o.Same o'
  turn : w'.turn = w.turn
  fault : w'.fault = w.fault
  queue : .addFunc ∉ stmts → w'.queue = w.queue

theorem execAll_append {more : List Stmt} :
    w.execAll srv a (stmts ++ more) = w.execAll srv a stmts >>= fun w => w.execAll srv a more :=
  List.foldlM_append

theorem execAll_safely (stays : ∀ s ∈ stmts, s.stays = true) (h : w.Linked) (hc : w.heap a = some o)
    (through : .addFunc ∈ stmts → (w.turn o.el).handling = true ∧
      ⟨a, o.serial⟩ ∉ (w.turn o.el).pointers) :
    Safely (w.execAll srv a stmts) (After a o stmts w) := by
  induction stmts generalizing w o with
  | nil => exact safely_ok ⟨h, ⟨o, hc, .refl⟩, rfl, rfl, fun _ => rfl⟩
  | cons s stmts ih =>
      change Safely (w.exec srv a s >>= fun w => w.execAll srv a stmts) _
      refine (exec_safely (stays s List.mem_cons_self) hc).bind fun w₁ kept => ?_
      obtain ⟨o₁, hc₁, same⟩ := kept.later hc hc
      have linked : w₁.Linked := h.kept hc kept fun p hp => by
        unfold queues at hp
        split_ifs at hp with hs
        · obtain rfl := List.mem_singleton.mp hp
          obtain ⟨handling, passed⟩ := through (by rw [hs]; exact List.mem_cons_self)
          exact ⟨rfl, handling, passed⟩
        · cases hp
      have later := ih (fun t ht => stays t (List.mem_cons_of_mem _ ht)) linked hc₁ fun hf => by
        rw [kept.turn, same.1, same.2.2.1]
        exact through (List.mem_cons_of_mem _ hf)
      refine later.mono fun w₂ after => ?_
      obtain ⟨o₂, hc₂, same'⟩ := after.there
      refine ⟨after.linked, ⟨o₂, hc₂, same.trans same'⟩, after.turn.trans kept.turn,
        after.fault.trans kept.fault, fun none => ?_⟩
      rw [List.mem_cons, not_or] at none
      have unqueued := kept.queue
      rw [queues, if_neg (Ne.symm none.1), queue_nil] at unqueued
      exact (after.queue none.2).trans unqueued

/-- The end of `close_callback`, which takes the descriptor, the entry in `_channels` and
the object away. -/
def removed (w : World) (a : Nat) (o : Object) : World :=
  { w.closeFile o.conn.fd with
    heap := Function.update w.heap a none
    channels := Function.update w.channels o.el ((w.channels o.el).removeChannel a o.ts) }

theorem exec_closeFd (hc : w.heap a = some o) :
    w.exec srv a .closeFd = .ok ((w.closeFile o.conn.fd).store a (some o)) := by
  rw [exec, withObject_some hc]
  rfl

theorem exec_removeChannel (hc : w.heap a = some o) : w.exec srv a .removeChannel =
    .ok ((w.setChannels o.el ((w.channels o.el).removeChannel a o.ts)).store a (some o)) := by
  rw [exec, withObject_some hc]
  rfl

theorem exec_deleteConn (hc : w.heap a = some o) :
    w.exec srv a .deleteConn = .ok ((w.closeFile o.conn.fd).store a none) := by
  rw [exec, withObject_some hc]
  rfl

theorem store_self : (w.store a (some o)).heap a = some o := Function.update_self ..

theorem execAll_removes (hc : w.heap a = some o) :
    w.execAll srv a [.closeFd, .removeChannel, .deleteConn] = .ok (w.removed a o) := by
  change (w.exec srv a .closeFd >>= fun w => w.exec srv a .removeChannel >>= fun w =>
    w.exec srv a .deleteConn >>= fun w => .ok w) = _
  rw [exec_closeFd hc]
  change (World.exec srv _ a .removeChannel >>= fun w => w.exec srv a .deleteConn >>= fun w => .ok w) = _
  rw [exec_removeChannel store_self]
  change (World.exec srv _ a .deleteConn >>= fun w => .ok w) = _
  rw [exec_deleteConn store_self]
  change Except.ok _ = _
  simp [removed, closeFile, store, setChannels]

/-- No pointer to the object is kept for this turn of its loop. -/
structure Unused (w : World) (a : Nat) (o : Object) : Prop where
  batch : ⟨a, o.serial⟩ ∉ (w.turn o.el).pointers
  queue : ⟨a, o.serial⟩ ∉ w.queue o.el
  calls : ⟨a, o.serial⟩ ∉ (w.turn o.el).calls

theorem Live.other (live : w.Live el p) (hc : w.heap a = some o)
    (unused : el = o.el → p ≠ ⟨a, o.serial⟩) : p.conn ≠ a := by
  obtain ⟨q, hq, serial, hel⟩ := live
  rintro rfl
  obtain rfl := Option.some.inj (hc.symm.trans hq)
  refine unused hel.symm ?_
  rw [serial]

theorem Live.removed (live : w.Live el p) (other : p.conn ≠ a) : (w.removed a o).Live el p := by
  obtain ⟨q, hq, rest⟩ := live
  refine ⟨q, ?_, rest⟩
  change Function.update w.heap a none p.conn = some q
  rw [Function.update_of_ne other]
  exact hq

theorem Linked.removed (h : w.Linked) (hc : w.heap a = some o) (unused : w.Unused a o) :
    (w.removed a o).Linked := by
  have heap : ∀ {b q}, (w.removed a o).heap b = some q → b ≠ a ∧ w.heap b = some q := by
    intro b q hq
    change Function.update w.heap a none b = some q at hq
    by_cases hb : b = a
    · rw [hb, Function.update_self] at hq
      cases hq
    · rw [Function.update_of_ne hb] at hq
      exact ⟨hb, hq⟩
  have own := (h.listed o.el a o.ts).mpr ⟨o, hc, rfl, rfl⟩
  have batch : ∀ el, ∀ p ∈ (w.turn el).pointers, p.conn ≠ a := fun el p hp =>
    Live.other (h.batch el p hp) hc fun hel same => unused.batch (by rw [← hel, ← same]; exact hp)
  refine ⟨fun el b ts => ?_, fun b q hq => ?_, fun b b' q q' hq hq' => ?_, fun b q hq => ?_,
    fun el fd r hr => ?_, h.once, fun el p hp => ?_, fun el p hp => ?_, fun el p hp => ?_⟩
  · change Function.update w.channels o.el _ el b = some ts ↔
      ∃ q, Function.update w.heap a none b = some q ∧ q.el = el ∧ q.ts = ts
    rw [Channels.removeChannel_own own]
    by_cases hb : b = a
    · subst hb
      refine iff_of_false ?_ fun ⟨_, found, _⟩ => by simp at found
      by_cases hel : el = o.el
      · simp [hel]
      · rw [Function.update_of_ne hel, h.listed]
        rintro ⟨q, hq, same, _⟩
        obtain rfl := Option.some.inj (hc.symm.trans hq)
        exact hel same.symm
    · rw [Function.update_of_ne hb, ← h.listed]
      by_cases hel : el = o.el
      · subst hel
        rw [Function.update_self, Function.update_of_ne hb]
      · rw [Function.update_of_ne hel]
  · obtain ⟨hb, hq⟩ := heap hq
    change Function.update w.files o.conn.fd none q.conn.fd = _
    have file := h.files b q hq
    rw [Function.update_of_ne, file]
    intro same
    rw [same, h.files a o hc] at file
    exact hb (h.distinct b a q o hq hc (File.conn.inj (Option.some.inj file)).symm)
  · exact h.distinct b b' q q' (heap hq).2 (heap hq').2
  · exact h.old b q (heap hq).2
  · change Function.update (w.epoll el) o.conn.fd none fd = some r at hr
    by_cases hfd : fd = o.conn.fd
    · rw [hfd, Function.update_self] at hr
      cases hr
    · rw [Function.update_of_ne hfd] at hr
      obtain ⟨q, hq, serial, hel, file⟩ := h.epoll el fd r hr
      refine ⟨q, ?_, serial, hel, file⟩
      change Function.update w.heap a none r.pointer.conn = some q
      rw [Function.update_of_ne]
      · exact hq
      · intro same
        rw [same, hc] at hq
        obtain rfl := Option.some.inj hq
        exact hfd file.symm
  · exact Live.removed (h.batch el p hp) (batch el p hp)
  · obtain ⟨live, rest⟩ := h.queue el p hp
    exact ⟨live.removed (live.other hc fun hel same => unused.queue (by rw [← hel, ← same]; exact hp)), rest⟩
  · have live := h.calls el p hp
    exact live.removed (live.other hc fun hel same => unused.calls (by rw [← hel, ← same]; exact hp))

/-- What is left to show of a step. -/
def Fine (w w' : World) : Prop := w'.Linked ∧ w'.fault = w.fault

/-- `close_callback`, on a connection that nothing of this turn points to. -/
theorem closeCallback_safely (h : w.Linked) (hc : w.heap a = some o) (unused : w.Unused a o) :
    Safely (w.execAll srv a PbServer.closeCallback) (Fine w) := by
  change Safely (w.execAll srv a ([.setEvent .none, .updateChannel] ++
    [.closeFd, .removeChannel, .deleteConn])) _
  rw [execAll_append]
  refine (execAll_safely (by decide) h hc fun hf => by simp at hf).bind fun w₁ after => ?_
  obtain ⟨o₁, hc₁, same⟩ := after.there
  rw [execAll_removes hc₁]
  refine safely_ok ⟨after.linked.removed hc₁ ⟨?_, ?_, ?_⟩, after.fault⟩
  · rw [after.turn, same.1, same.2.2.1]
    exact unused.batch
  · rw [after.queue (by simp), same.1, same.2.2.1]
    exact unused.queue
  · rw [after.turn, same.1, same.2.2.1]
    exact unused.calls

/-- Outside of a batch, no function is queued. -/
theorem Linked.queue_eq (h : w.Linked) (quiet : (w.turn el).handling = false) : w.queue el = [] := by
  rw [List.eq_nil_iff_forall_not_mem]
  intro p hp
  rw [(h.queue el p hp).2.1] at quiet
  cases quiet

/-- What a handler's callback still has to do: what stays, or what ends in a `close_callback`. -/
inductive Leads : List Stmt → Prop
  | stays {stmts : List Stmt} : (∀ s ∈ stmts, s.stays = true) → Leads stmts
  | closes {pre : List Stmt} : (∀ s ∈ pre, s.stays = true) → .addFunc ∉ pre →
      Leads (pre ++ PbServer.closeCallback)

theorem armTimer_stays {ms : Int} {kind : TimerKind} (h : s ∈ PbServer.armTimer ms kind) :
    s.stays = true ∧ s ≠ .addFunc := by
  unfold PbServer.armTimer at h
  split_ifs at h
  · simp only [List.mem_cons, List.not_mem_nil, or_false] at h
    rcases h with rfl | rfl <;> exact ⟨rfl, by simp⟩
  · cases h

theorem closeCallback_leads : Leads PbServer.closeCallback :=
  @Leads.closes [] nofun List.not_mem_nil

theorem writeCompleteCallback_leads (connType : ConnType) : Leads (srv.writeCompleteCallback connType) := by
  unfold PbServer.writeCompleteCallback
  split_ifs
  · exact .closes (by decide) (by decide)
  · refine .stays fun s hs => ?_
    simp only [List.mem_append, List.mem_cons, List.not_mem_nil, or_false] at hs
    rcases hs with (rfl | rfl) | (rfl | rfl) | timer
    all_goals first | rfl | exact (armTimer_stays timer).1

theorem responseCallback_leads (n : Nat) (respStr : Bytes) : Leads (srv.responseCallback n respStr) := by
  refine .stays fun s hs => ?_
  simp only [PbServer.responseCallback, List.mem_append, List.mem_cons, List.not_mem_nil, or_false] at hs
  rcases hs with (rfl | rfl | rfl | rfl | rfl | rfl) | timer
  all_goals first | rfl | exact (armTimer_stays timer).1

theorem pending_leads {conn : TCPConnection} {answer : Answer} {l : Lifetime}
    (outcome : Outcome srv (alone conn) conn events io answer l) :
    (∃ d, l.conn = some d ∧ d.fd = conn.fd) ∧ Leads l.pending := by
  have parsed : ∀ {rbuf d}, Parsed { conn with rbuf } d → d.fd = conn.fd := by
    intro rbuf d same
    rw [same]
  have nothing : Leads [] := .stays nofun
  cases outcome with
  | wrote => exact ⟨⟨_, rfl, rfl⟩, nothing⟩
  | ignored _ => exact ⟨⟨_, rfl, rfl⟩, nothing⟩
  | waits _ _ _ _ hcall => exact ⟨⟨_, rfl, parsed (dataReadCallback_parsed hcall)⟩, nothing⟩
  | closes _ closing =>
      exact ⟨⟨_, rfl, parsed closing.parsed⟩, closeCallback_leads⟩
  | @completes t wbuf sent ctx _ _ _ _ _ =>
      refine ⟨⟨_, rfl, rfl⟩, ?_⟩
      change Leads (srv.writeCompleteCallback ctx.base.connType ++ [])
      rw [List.append_nil]
      exact writeCompleteCallback_leads ctx.base.connType
  | dispatches _ _ _ _ hcall _ =>
      refine ⟨⟨_, rfl, parsed (dataReadCallback_parsed hcall)⟩, ?_⟩
      simpa [pending, alone, setConn] using responseCallback_leads 0 answer.respStr

theorem execAll_leads (leads : Leads stmts) (h : w.Linked) (hc : w.heap a = some o)
    (handling : (w.turn o.el).handling = true) (unused : w.Unused a o) :
    Safely (w.execAll srv a stmts) (Fine w) := by
  cases leads with
  | stays stays =>
      refine (execAll_safely stays h hc fun _ => ⟨handling, unused.batch⟩).mono fun w' after => ?_
      exact ⟨after.linked, after.fault⟩
  | closes stays none =>
      rw [execAll_append]
      refine (execAll_safely stays h hc fun hf => absurd hf none).bind fun w₁ after => ?_
      obtain ⟨o₁, hc₁, same⟩ := after.there
      refine (closeCallback_safely after.linked hc₁ ⟨?_, ?_, ?_⟩).mono fun w' fine => ?_
      · rw [after.turn, same.1, same.2.2.1]
        exact unused.batch
      · rw [after.queue none, same.1, same.2.2.1]
        exact unused.queue
      · rw [after.turn, same.1, same.2.2.1]
        exact unused.calls
      · exact ⟨fine.1, fine.2.trans after.fault⟩

theorem handle_safely (h : w.Linked) (hc : w.heap a = some o)
    (handling : (w.turn o.el).handling = true) (unused : w.Unused a o) :
    Safely (w.handle srv a events io respStr) (Fine w) := by
  rw [handle, withObject_some hc]
  have object : Safely ((alone o.conn).handle srv events io { respStr })
      fun l => (∃ d, l.conn = some d ∧ d.fd = o.conn.fd) ∧ Leads l.pending := by
    refine ⟨fun e he => ?_, fun l hl => pending_leads (handle_ok rfl hl)⟩
    have fault := handle_faults (l := alone o.conn) rfl e he
    rintro rfl
    simp [EventFault, ParseFault] at fault
  refine object.bind fun l hl => ?_
  obtain ⟨⟨d, hd, hfd⟩, leads⟩ := hl
  rw [hd]
  change Safely ((w.store a (some { o with conn := d })).execAll srv a l.pending) _
  have same : o.Same { o with conn := d } := ⟨rfl, rfl, rfl, hfd⟩
  have kept : Kept a o [] w (w.store a (some { o with conn := d })) :=
    ⟨⟨_, rfl, same⟩, rfl, rfl, rfl, rfl, rfl, queue_nil.symm, fun _ _ _ => .inl⟩
  have linked := h.kept hc kept fun p hp => by cases hp
  exact execAll_leads leads linked store_self handling
    ⟨unused.batch, unused.queue, unused.calls⟩

/-- `timeout_callback`, called when the loop is in its timers. -/
theorem timeoutCallback_safely {call : TimeoutCall} {left : List TimeoutCall} (h : w.Linked)
    (turn : w.turn el = .timers left) : Safely (w.timeoutCallback srv el call) (Fine w) := by
  unfold timeoutCallback
  split_ifs with listed
  · obtain ⟨o, hc, rfl, _⟩ := (h.listed el call.conn call.connTs).mp (Channels.hasChannel_iff.mp listed)
    rw [withObject_some hc]
    split_ifs
    · refine closeCallback_safely h hc ⟨?_, ?_, ?_⟩
      · simp [turn, LoopTurn.pointers]
      · simp [h.queue_eq (by rw [turn]; rfl)]
      · simp [turn, LoopTurn.calls]
    · exact safely_ok ⟨h, rfl⟩
  · exact safely_ok ⟨h, rfl⟩

/-- A loop goes on in its turn. -/
theorem Linked.setTurn {turn : LoopTurn} (h : w.Linked)
    (once : (turn.pointers.map Pointer.conn).Nodup) (batch : ∀ p ∈ turn.pointers, w.Live el p)
    (queue : ∀ p ∈ w.queue el, turn.handling = true ∧ p ∉ turn.pointers)
    (calls : ∀ p ∈ turn.calls, w.Live el p) : (w.setTurn el turn).Linked where
  listed := h.listed
  files := h.files
  distinct := h.distinct
  old := h.old
  epoll := h.epoll
  once el' := by
    by_cases hel : el' = el
    · simpa [World.setTurn, hel] using once
    · simpa [World.setTurn, hel] using h.once el'
  batch el' p hp := by
    by_cases hel : el' = el
    · subst hel
      exact batch p (by simpa [World.setTurn] using hp)
    · exact h.batch el' p (by simpa [World.setTurn, hel] using hp)
  queue el' p hp := by
    obtain ⟨live, old⟩ := h.queue el' p hp
    refine ⟨live, ?_⟩
    by_cases hel : el' = el
    · subst hel
      simpa [World.setTurn] using queue p hp
    · simpa [World.setTurn, hel] using old
  calls el' p hp := by
    by_cases hel : el' = el
    · subst hel
      exact calls p (by simpa [World.setTurn] using hp)
    · exact h.calls el' p (by simpa [World.setTurn, hel] using hp)

/-- The first entry of the batch is taken, and nothing of this turn points to its
connection any more. -/
theorem Linked.take {batch : List BatchEntry} (h : w.Linked)
    (turn : w.turn el = .events (.channel p events :: batch)) :
    (w.setTurn el (.events batch)).Linked ∧ ∃ o, (w.setTurn el (.events batch)).heap p.conn = some o ∧
      ((w.setTurn el (.events batch)).turn o.el).handling = true ∧
      (w.setTurn el (.events batch)).Unused p.conn o := by
  have pointers : (w.turn el).pointers = p :: (LoopTurn.events batch).pointers := by
    rw [turn]
    rfl
  have once := h.once el
  rw [pointers, List.map_cons, List.nodup_cons] at once
  have passed : p ∉ (LoopTurn.events batch).pointers := fun hp =>
    once.1 (List.mem_map_of_mem hp)
  refine ⟨h.setTurn once.2 (fun q hq => ?_) (fun q hq => ⟨rfl, fun hm => ?_⟩) nofun, ?_⟩
  · exact h.batch el q (by rw [pointers]; exact List.mem_cons_of_mem _ hq)
  · exact (h.queue el q hq).2.2 (by rw [pointers]; exact List.mem_cons_of_mem _ hm)
  · obtain ⟨o, hc, serial, rfl⟩ := h.batch el p (by rw [pointers]; exact List.mem_cons_self)
    have same : (⟨p.conn, o.serial⟩ : Pointer) = p := by rw [serial]
    refine ⟨o, hc, by simp [World.setTurn, LoopTurn.handling], ?_, ?_, ?_⟩
    · simpa [World.setTurn, same] using passed
    · rw [same]
      intro hq
      exact (h.queue o.el p hq).2.2 (by rw [pointers]; exact List.mem_cons_self)
    · simp [World.setTurn, LoopTurn.calls]

/-- The addresses in a new batch are those of the registrations it reports. -/
theorem report_pointers (sources : List (Option Nat × Events)) :
    (LoopTurn.events (sources.flatMap (w.report el))).pointers.map Pointer.conn =
      (sources.map Prod.fst).filterMap fun source =>
        source.bind fun fd => (w.epoll el fd).map fun r => r.pointer.conn := by
  induction sources with
  | nil => rfl
  | cons source sources ih =>
      obtain ⟨source, events⟩ := source
      simp only [LoopTurn.pointers] at ih ⊢
      rw [List.flatMap_cons, List.filterMap_append, List.map_append, ih, List.map_cons]
      cases source with
      | none => rfl
      | some fd => cases hr : w.epoll el fd <;> simp [report, hr]

theorem report_registered {sources : List (Option Nat × Events)}
    (hp : p ∈ (LoopTurn.events (sources.flatMap (w.report el))).pointers) :
    ∃ fd r, w.epoll el fd = some r ∧ r.pointer = p := by
  obtain ⟨entry, hentry, found⟩ := List.mem_filterMap.mp hp
  obtain ⟨⟨source, events⟩, _, hentry⟩ := List.mem_flatMap.mp hentry
  cases source with
  | none =>
      obtain rfl := List.mem_singleton.mp hentry
      cases found
  | some fd =>
      cases hr : w.epoll el fd with
      | none => simp [report, hr] at hentry
      | some r =>
          simp only [report, hr, List.mem_singleton] at hentry
          subst hentry
          exact ⟨fd, r, hr, Option.some.inj found⟩

/-- What epoll reports are objects that are there, each of them once. -/
theorem Linked.wait {sources : List (Option Nat × Events)} (h : w.Linked) (turn : w.turn el = .polling)
    (nodup : (sources.map Prod.fst).Nodup) :
    (w.setTurn el (.events (sources.flatMap (w.report el)))).Linked := by
  refine h.setTurn ?_ (fun p hp => ?_) (fun p hp => ?_) nofun
  · rw [report_pointers]
    refine nodup.filterMap fun a a' b hb hb' => ?_
    obtain ⟨fd, rfl, hb⟩ := Option.bind_eq_some_iff.mp hb
    obtain ⟨fd', rfl, hb'⟩ := Option.bind_eq_some_iff.mp hb'
    obtain ⟨r, hr, rfl⟩ := Option.map_eq_some_iff.mp hb
    obtain ⟨r', hr', same⟩ := Option.map_eq_some_iff.mp hb'
    obtain ⟨o, ho, _, _, hfd⟩ := h.epoll el fd r hr
    obtain ⟨o', ho', _, _, hfd'⟩ := h.epoll el fd' r' hr'
    rw [same, ho] at ho'
    obtain rfl := Option.some.inj ho'
    rw [← hfd, ← hfd']
  · obtain ⟨fd, r, hr, rfl⟩ := report_registered hp
    obtain ⟨o, ho, serial, hel, _⟩ := h.epoll el fd r hr
    exact ⟨o, ho, serial, hel⟩
  · rw [h.queue_eq (by rw [turn]; rfl)] at hp
    cases hp

/-- The object that the constructor makes. -/
def built (threadNum : Nat) (w : World) (fd : Nat) : Object :=
  { conn := { fd }, el := (TCPServer.getNextEl threadNum w.nextEl).1, ts := w.clock, serial := w.created }

/-- It is listed before anything else happens to it. -/
def listedNew (threadNum : Nat) (w : World) (fd a : Nat) : World :=
  ((w.construct threadNum fd a).setChannels (w.built threadNum fd).el
    ((w.channels (w.built threadNum fd).el).addChannel a w.clock)).store a (some (w.built threadNum fd))

theorem exec_addChannel (hc : w.heap a = some o) : w.exec srv a .addChannel =
    .ok ((w.setChannels o.el ((w.channels o.el).addChannel a o.ts)).store a (some o)) := by
  rw [exec, withObject_some hc]
  rfl

theorem Linked.listedNew {fd : Nat} (h : w.Linked) (free : w.heap a = none) (closed : w.files fd = none) :
    (w.listedNew threadNum fd a).Linked := by
  have heap : ∀ b, (w.listedNew threadNum fd a).heap b =
      if b = a then some (w.built threadNum fd) else w.heap b := by
    intro b
    by_cases hb : b = a
    · simp [World.listedNew, World.store, hb]
    · simp [World.listedNew, World.store, World.setChannels, World.construct, hb]
  have old : ∀ {b q}, w.heap b = some q → (w.listedNew threadNum fd a).heap b = some q := by
    intro b q hq
    rw [heap, if_neg, hq]
    rintro rfl
    rw [free] at hq
    cases hq
  have live : ∀ {el p}, w.Live el p → (w.listedNew threadNum fd a).Live el p := by
    rintro el p ⟨q, hq, rest⟩
    exact ⟨q, old hq, rest⟩
  refine ⟨fun el b ts => ?_, fun b q hq => ?_, fun b b' q q' hq hq' serial => ?_, fun b q hq => ?_,
    fun el fd' r hr => ?_, h.once, fun el p hp => live (h.batch el p hp), fun el p hp => ?_,
    fun el p hp => live (h.calls el p hp)⟩
  · rw [heap]
    change Function.update w.channels _ _ el b = some ts ↔ _
    by_cases hb : b = a
    · subst hb
      rw [if_pos rfl]
      by_cases hel : el = (w.built threadNum fd).el
      · subst hel
        simp [Channels.addChannel, built]
      · rw [Function.update_of_ne hel, h.listed]
        apply iff_of_false
        · rintro ⟨_, found, _⟩
          rw [free] at found
          cases found
        · rintro ⟨q, found, same, _⟩
          obtain rfl := Option.some.inj found
          exact hel same.symm
    · rw [if_neg hb, ← h.listed]
      by_cases hel : el = (w.built threadNum fd).el
      · subst hel
        rw [Function.update_self, Channels.addChannel, Function.update_of_ne hb]
      · rw [Function.update_of_ne hel]
  · rw [heap] at hq
    change Function.update w.files fd (some (.conn w.created)) q.conn.fd = some (.conn q.serial)
    split_ifs at hq with hb
    · obtain rfl := Option.some.inj hq
      exact Function.update_self ..
    · have file := h.files b q hq
      rw [Function.update_of_ne, file]
      intro same
      rw [same, closed] at file
      cases file
  · rw [heap] at hq hq'
    have fresh : ∀ {b q}, w.heap b = some q → q.serial ≠ w.created := fun hq => (h.old _ _ hq).ne
    split_ifs at hq hq' with hb hb' hb'
    · rw [hb, hb']
    · obtain rfl := Option.some.inj hq
      exact absurd serial.symm (fresh hq')
    · obtain rfl := Option.some.inj hq'
      exact absurd serial (fresh hq)
    · exact h.distinct b b' q q' hq hq' serial
  · rw [heap] at hq
    change q.serial < w.created + 1
    split_ifs at hq with hb
    · obtain rfl := Option.some.inj hq
      exact Nat.lt_succ_self _
    · exact (h.old b q hq).trans (Nat.lt_succ_self _)
  · obtain ⟨q, hq, rest⟩ := h.epoll el fd' r hr
    exact ⟨q, old hq, rest⟩
  · obtain ⟨there, rest⟩ := h.queue el p hp
    exact ⟨live there, rest⟩

theorem accept_safely {r : AcceptResult} (h : w.Linked) (free : w.heap a = none)
    (closed : ∀ fd, r = .conn fd → w.files fd = none) :
    Safely (w.accept srv threadNum a r) (Fine w) := by
  cases r with
  | again => exact safely_ok ⟨h, rfl⟩
  | failed => exact safely_error (by simp)
  | conn fd =>
      have there : (w.construct threadNum fd a).heap a = some (w.built threadNum fd) :=
        Function.update_self ..
      have first : (w.construct threadNum fd a).exec srv a .addChannel =
          .ok (w.listedNew threadNum fd a) := exec_addChannel there
      change Safely ((w.construct threadNum fd a).exec srv a .addChannel >>= fun w =>
        w.execAll srv a ([.setEvent .epollin, .updateChannel] ++ PbServer.armTimer srv.readTimeoutMs .read ++
          [.install .dataRead, .install .close, .install .writeComplete])) _
      rw [first]
      have quiet : ∀ s ∈ [.setEvent .epollin, .updateChannel] ++
          PbServer.armTimer srv.readTimeoutMs .read ++
          [.install .dataRead, .install .close, .install .writeComplete], s.stays = true ∧ s ≠ .addFunc := by
        intro s hs
        simp only [List.mem_append, List.mem_cons, List.not_mem_nil, or_false] at hs
        rcases hs with ((rfl | rfl) | timer) | rfl | rfl | rfl
        all_goals first | exact ⟨rfl, by simp⟩ | exact armTimer_stays timer
      refine (execAll_safely (fun s hs => (quiet s hs).1) (h.listedNew free (closed fd rfl)) store_self
        fun hf => absurd rfl (quiet _ hf).2).mono fun w' after => ?_
      exact ⟨after.linked, after.fault⟩

theorem Safely.fine {x : Except Fault World} {w₀ : World} (h : Safely x (Fine w₀))
    (fault : w₀.fault = w.fault) : Safely x (Fine w) :=
  h.mono fun _ fine => ⟨fine.1, fine.2.trans fault⟩

/-- The clock, the timers and a fault are beside the point. -/
theorem Linked.aside (h : w.Linked) (clock : TimeStamp) (timers : LoopId → List TimeoutCall)
    (fault : Option Fault) : ({ w with clock, timers, fault } : World).Linked :=
  ⟨h.listed, h.files, h.distinct, h.old, h.epoll, h.once, h.batch, h.queue, h.calls⟩

/-- No move of an enabled kind meets a dangling pointer. -/
theorem effect_safely (h : w.Linked) (enabled : w.Enabled m) :
    Safely (w.effect srv threadNum m) (Fine w) := by
  cases m with
  | tick now =>
      exact safely_ok ⟨h.aside now w.timers w.fault, rfl⟩
  | wait el sources => exact safely_ok ⟨h.wait enabled.1 enabled.2.1, rfl⟩
  | event el io respStr =>
      obtain ⟨some, other⟩ := enabled
      cases ht : w.turn el with
      | events batch =>
          cases batch with
          | nil => simp [ht, LoopTurn.pointers] at some
          | cons entry batch =>
              cases entry with
              | listener => simp [ht, LoopTurn.entry] at other
              | channel p events =>
                  simp only [effect, ht]
                  obtain ⟨linked, o, hc, handling, unused⟩ := h.take ht
                  exact Safely.fine (handle_safely linked hc handling unused) rfl
      | _ => simp [ht, LoopTurn.pointers] at some
  | accept r address =>
      obtain ⟨first, free, closed⟩ := enabled
      cases ht : w.turn .main with
      | events batch =>
          cases batch with
          | nil => simp [ht, LoopTurn.entry] at first
          | cons entry batch =>
              cases entry with
              | channel p events => simp [ht, LoopTurn.entry] at first
              | listener =>
                  simp only [effect, ht]
                  have pointers : (w.turn .main).pointers = (LoopTurn.events batch).pointers := by
                    rw [ht]
                    rfl
                  have linked : (w.setTurn .main (.events batch)).Linked := by
                    apply h.setTurn
                    · rw [← pointers]
                      exact h.once .main
                    · rw [← pointers]
                      exact h.batch .main
                    · rw [← pointers]
                      exact fun q hq => ⟨rfl, (h.queue .main q hq).2.2⟩
                    · exact nofun
                  refine Safely.fine (accept_safely linked free fun fd hr => ?_) rfl
                  subst hr
                  exact closed
      | _ => simp [ht, LoopTurn.entry] at first
  | swap el =>
      have turn : w.turn el = .events [] := enabled
      refine safely_ok ⟨?_, rfl⟩
      have emptied : ({ w with queue := Function.update w.queue el [] } : World).Linked := by
        refine ⟨h.listed, h.files, h.distinct, h.old, h.epoll, h.once, h.batch, fun el' p hp => ?_, h.calls⟩
        by_cases hel : el' = el
        · simp [hel] at hp
        · exact h.queue el' p (by simpa [hel] using hp)
      have linked : (World.setTurn _ el (.funcs (w.queue el))).Linked :=
        emptied.setTurn .nil nofun (by simp) fun p hp => (h.queue el p hp).1
      exact linked
  | func el =>
      cases ht : w.turn el with
      | funcs calls =>
          cases calls with
          | nil => simp [Enabled, ht, LoopTurn.calls] at enabled
          | cons p calls =>
              simp only [effect, ht]
              have live : ∀ q ∈ p :: calls, w.Live el q := fun q hq => h.calls el q (by rw [ht]; exact hq)
              have linked : (w.setTurn el (.funcs calls)).Linked := by
                refine h.setTurn .nil nofun (fun q hq => ?_) fun q hq => live q (List.mem_cons_of_mem _ hq)
                rw [h.queue_eq (by rw [ht]; rfl)] at hq
                cases hq
              obtain ⟨o, hc, _, _⟩ := live p List.mem_cons_self
              have there : (w.setTurn el (.funcs calls)).heap p.conn = some o := hc
              refine (exec_safely rfl there).mono fun w' kept => ?_
              exact ⟨linked.kept there kept (by simp [queues]), kept.fault⟩
      | _ => simp [Enabled, ht, LoopTurn.calls] at enabled
  | drain el expired left =>
      refine safely_ok ⟨?_, rfl⟩
      have turn : w.turn el = .funcs [] := enabled.1
      have timed : ({ w with timers := Function.update w.timers el left } : World).Linked :=
        h.aside w.clock _ w.fault
      have linked : (World.setTurn { w with timers := Function.update w.timers el left } el
          (.timers expired)).Linked := by
        refine timed.setTurn .nil nofun (fun q hq => ?_) nofun
        change q ∈ w.queue el at hq
        rw [h.queue_eq (by rw [turn]; rfl)] at hq
        cases hq
      exact linked
  | timer el =>
      cases ht : w.turn el with
      | timers expired =>
          cases expired with
          | nil => simp [Enabled, ht, LoopTurn.expired] at enabled
          | cons call expired =>
              simp only [effect, ht]
              have linked : (w.setTurn el (.timers expired)).Linked := by
                refine h.setTurn .nil nofun (fun q hq => ?_) nofun
                rw [h.queue_eq (by rw [ht]; rfl)] at hq
                cases hq
              have here : (w.setTurn el (.timers expired)).turn el = .timers expired :=
                Function.update_self ..
              exact Safely.fine (timeoutCallback_safely linked here) rfl
      | _ => simp [Enabled, ht, LoopTurn.expired] at enabled
  | poll el =>
      have turn : w.turn el = .timers [] := enabled
      refine safely_ok ⟨h.setTurn .nil nofun (fun q hq => ?_) nofun, rfl⟩
      rw [h.queue_eq (by rw [turn]; rfl)] at hq
      cases hq

theorem linked_started (start : Started threadNum w) : w.Linked := by
  obtain ⟨clock, files, _, rfl⟩ := start
  constructor
  case listed =>
    intro el a ts
    exact iff_of_false (fun listed => by cases listed) fun ⟨_, found, _⟩ => by cases found
  case files => exact fun _ _ found => by cases found
  case distinct => exact fun _ _ _ _ found => by cases found
  case old => exact fun _ _ found => by cases found
  case epoll => exact fun _ _ _ found => by cases found
  case once => exact fun _ => .nil
  case batch => exact fun _ _ hp => by cases hp
  case queue => exact fun _ _ hp => by cases hp
  case calls => exact fun _ _ hp => by cases hp

theorem started_fault (start : Started threadNum w) : w.fault ≠ some .danglingPointer := by
  obtain ⟨clock, files, _, rfl⟩ := start
  intro same
  cases same

theorem linked_step (h : w.Linked ∧ w.fault ≠ some .danglingPointer)
    (step : (world srv threadNum).step w m w') : w'.Linked ∧ w'.fault ≠ some .danglingPointer := by
  obtain ⟨fault, enabled, rfl⟩ := step
  have safely : Safely (w.effect srv threadNum m) (Fine w) := effect_safely h.1 enabled
  obtain ⟨safe, fine⟩ := safely
  unfold next
  cases he : w.effect srv threadNum m with
  | ok w' =>
      obtain ⟨linked, same⟩ := fine w' he
      refine ⟨linked, ?_⟩
      rw [same, fault]
      exact nofun
  | error f =>
      refine ⟨h.1.aside w.clock w.timers (some f), ?_⟩
      exact fun same => safe f he (Option.some.inj same)

/-- `_channels` lists what is there, and every pointer that a loop holds or follows is to a
connection of its own that is there. -/
structure PointersLive (w : World) : Prop where
  channels : ∀ el a ts, w.channels el a = some ts ↔ ∃ o, w.heap a = some o ∧ o.el = el ∧ o.ts = ts
  held : ∀ el, ∀ p ∈ (w.turn el).pointers ++ (w.turn el).calls ++ w.queue el, w.Live el p
  timers : ∀ el, ∀ call ∈ (w.turn el).expired,
    (w.channels el).hasChannel call.conn call.connTs = true →
    ∃ o, w.heap call.conn = some o ∧ o.el = el ∧ o.ts = call.connTs
  followed : w.fault ≠ some .danglingPointer

/-- So it is in every run, if services answer inside `CallMethod`. -/
theorem pointers_live (run : Run (world srv threadNum) es w) : w.PointersLive := by
  obtain ⟨h, safe⟩ := run.invariant (I := fun w => w.Linked ∧ w.fault ≠ some .danglingPointer)
    guarded_true (fun start => ⟨linked_started start, started_fault start⟩)
    fun h _ step => linked_step h step
  refine ⟨h.listed, fun el p hp => ?_, fun el call _ listed => ?_, safe⟩
  · rcases List.mem_append.mp hp with hp | queued
    · rcases List.mem_append.mp hp with batch | calls
      · exact h.batch el p batch
      · exact h.calls el p calls
    · exact (h.queue el p queued).1
  · exact (h.listed el call.conn call.connTs).mp (Channels.hasChannel_iff.mp listed)

open TCPServer (echo)

/-- Two sub-reactors, and the first five numbers taken. -/
def launched : World :=
  { clock := ⟨7, 0⟩, nextEl := some 0, files := fun fd => if fd < 5 then some .other else none }

theorem launched_started : Started 2 launched := by
  refine ⟨_, _, fun fd i h => ?_, rfl⟩
  split_ifs at h
  cases h

theorem run_world (srv : PbServer) (ms : List WorldMove)
    (enabled : ∀ e ∈ visits (next srv 2) launched ms, e.1.fault = none ∧ e.1.Enabled e.2) :
    Run (world srv 2) (visits (next srv 2) launched ms) (replay (next srv 2) launched ms) :=
  ⟨_, launched_started, path_replay (S := world srv 2) (E := fun w m => w.fault = none ∧ w.Enabled m)
    (fun {_ _} h => ⟨h.1, h.2, rfl⟩) enabled⟩

/-- A connection is accepted, asks, is answered and deleted, and the next one gets both
its number and its address. -/
def addressReused : List WorldMove :=
  [.wait .main [(none, {})], .accept (.conn 7) 4096, .swap .main, .drain .main [] [], .poll .main,
   .wait (.sub 1) [(some 7, { epollin := true })],
   .event (.sub 1) { read := .data (headOfRequest ++ [1, 2, 3, 4]) } [104, 105],
   .swap (.sub 1), .func (.sub 1), .drain (.sub 1) [] [], .poll (.sub 1),
   .wait (.sub 1) [(some 7, { epollout := true })],
   .event (.sub 1) { head := .wrote 16, extra := .wrote 2 } [],
   .wait .main [(none, {})], .accept (.conn 7) 4096]

theorem addressReused_live : (replay (next (echo false) 2) launched addressReused).PointersLive :=
  pointers_live (run_world (echo false) addressReused (by decide +kernel))

/-- The object at the address is the second one. -/
example : ((replay (next (echo false) 2) launched addressReused).heap 4096).map Object.serial = some 1 := by
  decide +kernel

end World
end SmallRpc
