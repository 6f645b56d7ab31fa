import SmallRpc.Messages
import SmallRpc.Redispatch

/-! A synchronous client and its server at the two ends of one connection that is kept
open: call after call in the client, the loops and callbacks of the server, and the bytes
that are on their way. The server's threads and timers move as they like in between. -/
namespace SmallRpc
open Runs
open Buffer (ReadResult WriteResult HeadFirst wireBytes)

/-- What the services of a server compute, with what they keep between two requests.
A message is serialized into less than 2^31 bytes. -/
structure Service (σ : Type) where
  serve : σ → Request → Bytes × σ
  small : ∀ object request, (serve object request).1.length < 2 ^ 31

namespace Service
variable {σ : Type} (service : Service σ)

/-- The answers to requests that are served one after the other. -/
def replies : σ → List Request → List Bytes
  | _, [] => []
  | object, request :: rest =>
    (service.serve object request).1 :: replies (service.serve object request).2 rest

def after : σ → List Request → σ
  | object, [] => object
  | object, request :: rest => after (service.serve object request).2 rest

variable {service} {object : σ} {rs qs : List Request}

@[simp] theorem replies_append :
    service.replies object (rs ++ qs) = service.replies object rs ++ service.replies (service.after object rs) qs := by
  induction rs generalizing object with
  | nil => rfl
  | cons r rs ih => simp only [List.cons_append, replies, after, ih]

@[simp] theorem after_append :
    service.after object (rs ++ qs) = service.after (service.after object rs) qs := by
  induction rs generalizing object with
  | nil => rfl
  | cons r rs ih => simp only [List.cons_append, after, ih]

end Service

/-- What a call asks for. -/
def Call.request (call : Call) : Request := ⟨call.service, call.method, call.payload⟩

namespace SyncCall

/-- What an iteration of the first loop puts on the wire. -/
def sent (w : SyncCall) (r : WriteResult × WriteResult) : Bytes :=
  match w.conn.wbuf.writeFd r.1 r.2 with
  | .ok (_, _, pieces) => wireBytes w.conn.wbuf pieces
  | .error _ => []

end SyncCall

namespace Lifetime

/-- What a move takes from the wire, and what it puts there. -/
def taken : Move → Bytes
  | .event events io _ => if events.epollin then io.read.bytes else []
  | _ => []

def sent (l : Lifetime) : Move → Bytes
  | .event events io _ =>
    match l.conn with
    | none => []
    | some conn =>
      match conn.handleEvents events io with
      | .ok out => wireBytes conn.wbuf out.sent
      | .error _ => []
  | _ => []

/-- The requests that were dispatched. -/
def served (l : Lifetime) : List Request := l.packs.map Pack.request

/-- The requests that a move dispatches. -/
def asked (srv : PbServer) (l : Lifetime) (m : Move) : List Request :=
  ((l.next srv m).packs.drop l.packs.length).map Pack.request

/-- What is read was on the wire. A connection may also have ended or failed, and a read may
be interrupted or find nothing. -/
def Offers (up : Bytes) : ReadResult → Prop
  | .data bytes => bytes <+: up
  | _ => True

instance (up : Bytes) : ∀ r, Decidable (Offers up r)
  | .data _ => inferInstanceAs (Decidable (_ <+: _))
  | .again => inferInstanceAs (Decidable True)
  | .eof => inferInstanceAs (Decidable True)
  | .failed => inferInstanceAs (Decidable True)

end Lifetime

/-- Whether a pair of writes puts payload before the rest of the head. -/
instance (s : Buffer.Sender) : ∀ r, Decidable (HeadFirst s r)
  | (.wrote n, .wrote m) => decidable_of_iff (s.buf.readable ≠ 0 → s.buf.extraable ≠ 0 →
      n < s.buf.readable → m = 0) (by simp [HeadFirst])
  | (.again, _) => isTrue (by simp [HeadFirst])
  | (.epipe, _) => isTrue (by simp [HeadFirst])
  | (.failed, _) => isTrue (by simp [HeadFirst])
  | (.wrote _, .again) => isTrue (by simp [HeadFirst])
  | (.wrote _, .epipe) => isTrue (by simp [HeadFirst])
  | (.wrote _, .failed) => isTrue (by simp [HeadFirst])

instance (s : TCPConnection.Writing) (io : SocketResults) : Decidable (TCPConnection.Coupled s io) :=
  inferInstanceAs (Decidable (_ → _ → _ ∨ _ → _ ∨ _))

/-- `call` is the call that the client is in, `returned` what the earlier ones came back
with; `up` and `down` are the bytes on their way to the server and back, `object` is what
the services keep, `answers` what they have answered so far. -/
structure Dialogue (σ : Type) where
  client : SyncCall
  call : Option Call := none
  returned : List (Call × Bytes) := []
  failed : Option Fault := none
  up : Bytes := []
  down : Bytes := []
  server : Lifetime
  object : σ
  answers : List Bytes := []

namespace Dialogue

/-- The client begins a call, or goes once round one of its two loops; or the server does
something. -/
inductive Action where
  | call (call : Call)
  | write (r : WriteResult × WriteResult)
  | read (r : ReadResult)
  | server (m : Move)
  deriving DecidableEq, Repr

section
variable {σ : Type} (srv : PbServer) (service : Service σ) (protocol : Protocol)

/-- `CallMethod` up to its first loop. -/
def begin (d : Dialogue σ) (call : Call) : Except Fault (Dialogue σ) := do
  let client ← (d.client.newSession protocol call).packRequest
  return { d with client, call := some call }

def write (d : Dialogue σ) (r : WriteResult × WriteResult) : Except Fault (Dialogue σ) := do
  let client ← d.client.writeFd r
  return { d with client, up := d.up ++ d.client.sent r }

/-- The end of `CallMethod`: the response has been parsed from these bytes. -/
def finish (d : Dialogue σ) (call : Call) : Except Fault (Dialogue σ) :=
  match d.client.conn.ctx with
  | none => .error .nullPointer
  | some ctx => do
    let str ← ctx.base.payloadView.str d.client.conn.rbuf
    return { d with client := { d.client with conn := { d.client.conn with ctx := none } }
                    call := none, returned := d.returned ++ [(call, str)] }

/-- The second loop is left with the response, or goes round again. -/
def proceed (d : Dialogue σ) : Except Fault (Dialogue σ) :=
  match d.call with
  | none => .ok d
  | some call => if d.client.waiting then .ok d else d.finish call

def read (d : Dialogue σ) (r : ReadResult) : Except Fault (Dialogue σ) := do
  let client ← d.client.readFd r
  proceed { d with client, down := d.down.drop r.bytes.length }

/-- A move of the server. What it dispatches is served at once, even where the answer is
packed and sent much later. -/
def serve (d : Dialogue σ) (m : Move) : Dialogue σ :=
  let asked := d.server.asked srv m
  { d with server := d.server.next srv m
           up := d.up.drop (Lifetime.taken m).length, down := d.down ++ d.server.sent m
           object := service.after d.object asked
           answers := d.answers ++ service.replies d.object asked }

def fail (d : Dialogue σ) (x : Except Fault (Dialogue σ)) : Dialogue σ :=
  match x with
  | .ok d' => d'
  | .error f => { d with failed := some f }

def next (d : Dialogue σ) : Action → Dialogue σ
  | .call call => d.fail (d.begin protocol call)
  | .write r => d.fail (d.write r)
  | .read r => d.fail (d.read r)
  | .server m => d.serve srv service m

/-- The server reads what is on the wire, and answers what its services answer. -/
def Honest (d : Dialogue σ) : Move → Prop
  | .event events io answer => (events.epollin = true → Lifetime.Offers d.up io.read) ∧
      ∀ reply ∈ service.replies d.object (d.server.asked srv (.event events io answer)),
        answer.respStr = reply
  | _ => True

/-- The client is in a call of its own, or free to make one that the protocol can express. -/
def Enabled (d : Dialogue σ) : Action → Prop
  | .call call => d.failed = none ∧ d.call = none ∧ protocol.Carries call
  | .write r => d.failed = none ∧ d.call ≠ none ∧ d.client.unsent = true ∧
      r.1.taken ≤ d.client.conn.wbuf.readable ∧ r.2.taken ≤ d.client.conn.wbuf.extraable
  | .read r => d.failed = none ∧ d.call ≠ none ∧ d.client.unsent = false ∧ d.client.waiting = true ∧
      Lifetime.ReadPossible d.client.conn.rbuf r ∧ r.bytes <+: d.down
  | .server m => d.server.fault = none ∧ d.server.Enabled srv m ∧ d.Honest srv service m

/-- No read ends in a field that is taken too early, and none of the server's is interrupted or
finds nothing; no write puts payload before the rest of the head, and with the last byte of a
response's head goes its payload. -/
def Whole (d : Dialogue σ) : Action → Prop
  | .write r => HeadFirst ⟨d.client.conn.wbuf, []⟩ r
  | .read r => ∀ reply ∈ d.answers.getLast?,
      ¬ protocol.CutsResponse reply.length (d.client.conn.rbuf.windex + r.bytes.length)
  | .server (.event events io _) => ∀ conn ∈ d.server.conn,
      (events.epollin = true → io.read ≠ .again ∧ ∀ call ∈ d.call,
        ¬ protocol.CutsRequest call (conn.rbuf.windex + io.read.bytes.length)) ∧
      (events.epollin = false → HeadFirst ⟨conn.wbuf, []⟩ (io.head, io.extra) ∧
        TCPConnection.Coupled { conn } io)
  | _ => True

instance (d : Dialogue σ) : ∀ m, Decidable (d.Honest srv service m)
  | .event _ _ _ => inferInstanceAs (Decidable (_ ∧ _))
  | .setup => isTrue trivial
  | .quiet => isTrue trivial
  | .stmt => isTrue trivial
  | .swap => isTrue trivial
  | .func => isTrue trivial
  | .drain _ _ => isTrue trivial
  | .timer => isTrue trivial
  | .poll => isTrue trivial
  | .respond _ => isTrue trivial

instance (d : Dialogue σ) : ∀ a, Decidable (d.Enabled srv service protocol a)
  | .call _ => inferInstanceAs (Decidable (_ ∧ _))
  | .write _ => inferInstanceAs (Decidable (_ ∧ _))
  | .read _ => inferInstanceAs (Decidable (_ ∧ _))
  | .server _ => inferInstanceAs (Decidable (_ ∧ _))

instance (d : Dialogue σ) : ∀ a, Decidable (d.Whole protocol a)
  | .call _ => isTrue trivial
  | .write r => inferInstanceAs (Decidable (HeadFirst _ r))
  | .read _ => inferInstanceAs (Decidable (∀ reply ∈ d.answers.getLast?, ¬ protocol.CutsResponse _ _))
  | .server (.event _ _ _) => inferInstanceAs (Decidable (∀ conn ∈ d.server.conn, _))
  | .server .setup => isTrue trivial
  | .server .quiet => isTrue trivial
  | .server .stmt => isTrue trivial
  | .server .swap => isTrue trivial
  | .server .func => isTrue trivial
  | .server (.drain _ _) => isTrue trivial
  | .server .timer => isTrue trivial
  | .server .poll => isTrue trivial
  | .server (.respond _) => isTrue trivial

/-- A client without an event loop has connected, and its connection is accepted. -/
def connected (fd fd' : Nat) (object : σ) : Dialogue σ :=
  { client := { conn := { fd } }, server := .accepted srv fd', object }

end

end Dialogue

/-- Everything that can pass between a client and a server on one connection. -/
def dialogue {σ : Type} (srv : PbServer) (service : Service σ) (protocol : Protocol) (fd fd' : Nat)
    (object : σ) : System (Dialogue σ) Dialogue.Action where
  start d := d = .connected srv fd fd' object
  step d a d' := d.Enabled srv service protocol a ∧ d' = d.next srv service protocol a

/-- What the callbacks of the server work on. -/
structure Stock where
  ctx : Option AnyContext
  rbuf : Buffer
  wbuf : Buffer

def TCPConnection.stock (conn : TCPConnection) : Stock := ⟨conn.ctx, conn.rbuf, conn.wbuf⟩

namespace Stock

/-- What a callback does through a `Context*`. -/
def withContext (k : Stock) (f : AnyContext → AnyContext) : Except Fault Stock :=
  match k.ctx with
  | none => .error .nullPointer
  | some ctx => .ok { k with ctx := some (f ctx) }

def packResponse (k : Stock) : Except Fault Stock :=
  match k.ctx with
  | none => .error .nullPointer
  | some ctx => do return { k with wbuf := ← ctx.packResponse k.wbuf }

end Stock

namespace Stmt

def on (k : Stock) : Stmt → Except Fault Stock
  | deleteContext => .ok { k with ctx := none }
  | clearBuffers => .ok { k with rbuf := k.rbuf.clear, wbuf := k.wbuf.clear }
  | setRpcStatus => k.withContext (.modify fun c => { c with rpcStatus := some .ok })
  | setPayload respStr => k.withContext (.modify fun c => { c with payload := respStr })
  | packResponse _ => k.packResponse
  | _ => .ok k

/-- The statement leaves the context and the buffers alone. -/
def inert : Stmt → Bool
  | deleteContext | clearBuffers | setRpcStatus | setPayload _ | packResponse _ => false
  | _ => true

theorem on_inert {s : Stmt} {k : Stock} (h : s.inert = true) : s.on k = .ok k := by
  cases s <;> first | rfl | cases h

end Stmt

/-- What is left when the rest of a callback has run. -/
def handled (todo : List Stmt) (k : Stock) : Except Fault Stock := todo.foldlM (fun k s => s.on k) k

theorem handled_cons {s : Stmt} {todo : List Stmt} {k k' : Stock} (h : s.on k = .ok k') :
    handled (s :: todo) k = handled todo k' := by
  rw [handled, List.foldlM_cons, h]
  rfl

theorem handled_inert {todo : List Stmt} {k : Stock} (h : ∀ s ∈ todo, s.inert = true) :
    handled todo k = .ok k := by
  induction todo with
  | nil => rfl
  | cons s todo ih =>
      obtain ⟨first, others⟩ := List.forall_mem_cons.mp h
      rw [handled_cons (Stmt.on_inert first)]
      exact ih others

namespace Lifetime

/-- The connection that is there was there before, with this in its hands. -/
def Worked (s : Stmt) (l l' : Lifetime) : Prop :=
  ∀ c', l'.conn = some c' → s ≠ .deleteConn ∧ ∃ c, l.conn = some c ∧ s.on c.stock = .ok c'.stock ∧
    c'.protoIdx = c.protoIdx ∧ (c'.event, c'.sevent) = s.settle (c.event, c.sevent)

/-- Nothing is dispatched on the connection any more. -/
def Gone (l : Lifetime) : Prop := l.fault ≠ none ∨ l.conn = none ∨ .deleteConn ∈ l.agenda

/-- What a move does that handles no event. -/
inductive Did (l l' : Lifetime) : Prop
  | gone : Gone l' → l'.packs = l.packs → Did l l'
  | kept {s : Stmt} : s.inert = true → (s = .updateChannel ∨ s = .unpack ∨ s ∈ l.setup) → Worked s l l' → l'.agenda = l.agenda → l'.packs = l.packs →
      l'.written = l.written → Did l l'
  | stmt {s : Stmt} {rest : List Stmt} : l.agenda = s :: rest → Worked s l l' → l'.agenda = rest →
      l'.packs = l.packs → l'.written = l.written → Did l l'
  | respond {n : Nat} {pack : Pack} {s : Stmt} {rest : List Stmt} : l.packs[n]? = some pack →
      pack.todo = s :: rest → Worked s l l' → l'.agenda = l.agenda →
      l'.packs = l.packs.set n { pack with todo := rest } → l'.written = l.written → Did l l'

/-- Where the statements that are waiting come from. -/
structure Sourced (srv : PbServer) (l : Lifetime) : Prop where
  setup : ∀ s ∈ l.setup, s.inert = true
  todo : ∀ pack ∈ l.packs, ∃ n respStr, pack.todo <:+ srv.responseCallback n respStr

section
variable {srv : PbServer} {l l' : Lifetime} {c c' : TCPConnection} {s : Stmt} {m : SmallRpc.Move}
  {todo rest : List Stmt} {n : Nat} {respStr : Bytes} {pack : Pack} {k : Stock}

theorem exec_worked (h : l.exec s = .ok l') : Worked s l l' := by
  intro c' hc'
  obtain ⟨stays, c, hc, touched, _⟩ := (exec_ok h).kept c' hc'
  refine ⟨stays, c, hc, ?_, touched.protoIdx, touched.settled⟩
  have set : ∀ {d : TCPConnection}, l.exec s = .ok (l.setConn d) → c' = d := by
    intro d hd
    obtain rfl := Except.ok.inj (h.symm.trans hd)
    exact (Option.some.inj hc').symm
  cases s
  case deleteConn => exact absurd rfl stays
  case unpack =>
      obtain rfl := Except.ok.inj h
      rw [Option.some.inj (hc.symm.trans hc')]
      rfl
  case deleteContext | clearBuffers | setEvent event | updateChannel | bumpTimer | install callback =>
      rw [set (withConn_some hc)]
      rfl
  case addChannel | runAfter kind | closeFd | removeChannel | addFunc =>
      obtain ⟨_, _, done⟩ := withConn_ok.mp h
      obtain rfl := Except.ok.inj done
      rw [Option.some.inj (hc.symm.trans hc')]
      rfl
  case setRpcStatus | setPayload respStr =>
      rw [exec, withConn_some hc] at h
      obtain ⟨d, hd, done⟩ := bind_ok.mp h
      obtain ⟨ctx, hctx, rfl⟩ := withContext_ok hd
      obtain rfl := Except.ok.inj done
      obtain rfl := Option.some.inj hc'
      change Stock.withContext c.stock _ = _
      simp only [Stock.withContext, TCPConnection.stock, hctx]
  case packResponse n =>
      rw [exec, withConn_some hc] at h
      obtain ⟨d, hd, done⟩ := bind_ok.mp h
      obtain ⟨ctx, wbuf, hctx, packed, rfl⟩ := packResponse_ok hd
      obtain rfl := Except.ok.inj done
      obtain rfl := Option.some.inj hc'
      change Stock.packResponse c.stock = _
      simp only [Stock.packResponse, TCPConnection.stock, hctx, packed]
      rfl

theorem responseCallback_parts (srv : PbServer) (n : Nat) (respStr : Bytes) :
    srv.responseCallback n respStr = [.unpack, .setRpcStatus, .setPayload respStr] ++
      .packResponse n :: ([.setEvent .epollout, .addFunc] ++
        PbServer.armTimer srv.writeTimeoutMs (.write n)) := by
  simp [PbServer.responseCallback]

theorem armTimer_inert {ms : Int} {kind : TimerKind} : ∀ s ∈ PbServer.armTimer ms kind, s.inert = true := by
  intro s hs
  unfold PbServer.armTimer at hs
  split_ifs at hs
  · simp only [List.mem_cons, List.not_mem_nil, or_false] at hs
    rcases hs with rfl | rfl <;> rfl
  · cases hs

/-- What is left of a `response_callback` once the response is packed. -/
theorem minor_inert (h : todo <:+ srv.responseCallback n respStr) (minor : AllMinor todo) :
    ∀ s ∈ todo, s.inert = true := by
  rw [responseCallback_parts] at h
  generalize htail : [Stmt.setEvent .epollout, .addFunc] ++
    PbServer.armTimer srv.writeTimeoutMs (.write n) = tail at h
  have inert : ∀ s ∈ tail, s.inert = true := by
    subst htail
    simp only [List.cons_append, List.nil_append, List.forall_mem_cons]
    exact ⟨rfl, rfl, armTimer_inert⟩
  have whole : Stmt.packResponse n :: tail <:+
      [.unpack, .setRpcStatus, .setPayload respStr] ++ .packResponse n :: tail := List.suffix_append _ _
  have short : todo.length ≤ tail.length := by
    by_contra long
    have packs := List.suffix_of_suffix_length_le whole h (by rw [List.length_cons]; omega)
    cases minor _ (packs.subset List.mem_cons_self)
  have behind : todo <:+ tail :=
    List.suffix_of_suffix_length_le h ((List.suffix_cons _ _).trans whole) short
  exact fun s hs => inert s (behind.subset hs)

theorem step_effect (step : Step srv l m l') :
    l.effect srv m = .ok l' ∨ ∃ f, l' = { l with fault := some f } := by
  obtain ⟨_, _, rfl⟩ := step
  unfold next
  cases l.effect srv m with
  | ok l' => exact .inl rfl
  | error f => exact .inr ⟨f, rfl⟩

theorem worked_same (same : l'.conn = l.conn) : Worked .unpack l l' :=
  fun c' hc' => ⟨by simp, c', same ▸ hc', rfl, rfl, rfl⟩

theorem sourced_step (h : Sourced srv l) (step : Step srv l m l') : Sourced srv l' := by
  cases step_moved step with
  | @setup s rest _ hs run =>
      refine ⟨fun t ht => ?_, by rw [run.packs]; exact h.todo⟩
      rw [run.setup] at ht
      exact h.setup t (by rw [hs]; exact List.mem_cons_of_mem _ ht)
  | stmt _ run => exact ⟨by rw [run.setup]; exact h.setup, by rw [run.packs]; exact h.todo⟩
  | @respond n pack s rest _ hp hs run =>
      refine ⟨by rw [run.setup]; exact h.setup, fun p hm => ?_⟩
      rw [run.packs] at hm
      rcases List.mem_or_eq_of_mem_set hm with old | rfl
      · exact h.todo p old
      · obtain ⟨n, respStr, suffix⟩ := h.todo pack (List.mem_of_getElem? hp)
        rw [hs] at suffix
        exact ⟨n, respStr, (List.suffix_cons _ _).trans suffix⟩
  | event _ _ _ _ _ outcome =>
      cases outcome with
      | @dispatches _ _ _ request _ _ _ _ _ _ =>
          refine ⟨h.setup, fun p hm => ?_⟩
          rcases List.mem_append.mp hm with old | new
          · exact h.todo p old
          · rw [List.mem_singleton.mp new]
            exact ⟨_, _, List.suffix_rfl⟩
      | _ => exact ⟨h.setup, h.todo⟩
  | func _ _ run => exact ⟨by rw [run.setup]; exact h.setup, by rw [run.packs]; exact h.todo⟩
  | _ => exact ⟨h.setup, h.todo⟩

theorem step_did (h : Sourced srv l) (step : Step srv l m l')
    (noEvent : ∀ events io answer, m ≠ .event events io answer) : Did l l' := by
  rcases step_effect step with done | ⟨f, rfl⟩
  swap
  · exact .gone (.inl (Option.some_ne_none _)) rfl
  cases m with
  | event events io answer => exact absurd rfl (noEvent events io answer)
  | setup =>
      cases hs : l.setup with
      | nil => exact absurd hs step.2.1
      | cons s rest =>
          simp only [effect, hs] at done
          have run := exec_ok done
          have work := exec_worked done
          have mem : s ∈ l.setup := by
            rw [hs]
            exact List.mem_cons_self
          exact .kept (h.setup s mem) (.inr (.inr mem)) work run.agenda run.packs run.written
  | stmt =>
      cases hs : l.agenda with
      | nil => exact absurd hs step.2.1
      | cons s rest =>
          simp only [effect, hs] at done
          have run := exec_ok done
          have work := exec_worked done
          exact .stmt hs work run.agenda run.packs run.written
  | respond n =>
      obtain ⟨pack, hp, ht⟩ := step.2.1
      rw [Option.mem_def] at hp
      cases hs : pack.todo with
      | nil => exact absurd hs ht
      | cons s rest =>
          simp only [effect, hp, hs] at done
          have run := exec_ok done
          have work := exec_worked done
          exact .respond hp hs work run.agenda run.packs run.written
  | func =>
      cases hp : l.phase with
      | funcs n =>
          cases n with
          | zero =>
              have left := step.2.1.2
              rw [hp] at left
              exact absurd rfl left
          | succ n =>
              simp only [effect, hp] at done
              have run := exec_ok done
              have work := exec_worked done
              have inert : Stmt.updateChannel.inert = true := rfl
              exact .kept inert (.inl rfl) work run.agenda run.packs run.written
      | _ =>
          have left := step.2.1.2
          rw [hp] at left
          exact absurd rfl left
  | timer =>
      have inert : Stmt.unpack.inert = true := rfl
      cases step_moved step with
      | expire _ _ _ _ _ => exact .gone (.inr (.inr closeCallback_deletes)) rfl
      | stale _ _ => exact .kept inert (.inr (.inl rfl)) (worked_same rfl) rfl rfl rfl
      | fault _ => exact .gone (.inl (Option.some_ne_none _)) rfl
  | _ =>
      have inert : Stmt.unpack.inert = true := rfl
      obtain rfl := Except.ok.inj done
      exact .kept inert (.inr (.inl rfl)) (worked_same rfl) rfl rfl rfl

theorem Did.length (h : Did l l') : l'.packs.length = l.packs.length := by
  cases h with
  | gone _ packs => rw [packs]
  | kept _ _ _ _ packs _ => rw [packs]
  | stmt _ _ _ packs _ => rw [packs]
  | respond _ _ _ _ packs _ => rw [packs, List.length_set]

/-- Once gone, a connection is not heard of any more. -/
theorem gone_step (h : Gone l) (sourced : Sourced srv l) (step : Step srv l m l') :
    Gone l' ∧ l'.packs.length = l.packs.length ∧ (∀ events io answer, m ≠ .event events io answer) := by
  have noEvent : ∀ events io answer, m ≠ .event events io answer := by
    rintro events io answer rfl
    obtain ⟨fine, ⟨rest, _, _, c, hc, _⟩, _⟩ := step
    rcases h with fault | none | delete
    · exact fault fine
    · rw [none] at hc
      cases hc
    · rw [rest.1] at delete
      cases delete
  have did := step_did sourced step noEvent
  refine ⟨?_, did.length, noEvent⟩
  have worked : ∀ {s}, Worked s l l' → l.conn = none → Gone l' := by
    intro s worked none
    cases hc : l'.conn with
    | none => exact .inr (.inl hc)
    | some c' =>
        obtain ⟨_, c, hc, _⟩ := worked c' hc
        rw [none] at hc
        cases hc
  rcases h with fault | none | delete
  · exact absurd step.1 fault
  · cases did with
    | gone gone _ => exact gone
    | kept _ _ work _ _ _ => exact worked work none
    | stmt _ work _ _ _ => exact worked work none
    | respond _ _ work _ _ _ => exact worked work none
  · cases did with
    | gone gone _ => exact gone
    | kept _ _ _ agenda _ _ => exact .inr (.inr (agenda ▸ delete))
    | respond _ _ _ agenda _ _ => exact .inr (.inr (agenda ▸ delete))
    | stmt hs work agenda _ _ =>
        rw [hs] at delete
        rcases List.mem_cons.mp delete with rfl | later
        · cases hc : l'.conn with
          | none => exact .inr (.inl hc)
          | some c' => exact absurd rfl (work c' hc).1
        · exact .inr (.inr (agenda ▸ later))

end

end Lifetime

end SmallRpc
