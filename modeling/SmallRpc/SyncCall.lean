import SmallRpc.Loops
import SmallRpc.PbClient

/-! The synchronous branch of `CallMethod`: one loop writes the request, the next reads
until the response has been parsed. Neither looks at what `write_fd`, `read_fd` or the
parser returns. -/
namespace SmallRpc
open Loops
open Buffer (ReadResult WriteResult)

/-- `el` is what epoll has for the client, if there is an event loop; `parseError` tells
that `parse_response` has returned `Error`. -/
structure SyncCall where
  conn : TCPConnection
  el : Option (Option Interest) := none
  readResponseDone : Bool := false
  parseError : Bool := false
  deriving DecidableEq, Repr

namespace SyncCall

/-- `_el->update_channel(this)`; with no loop it gets no further than to the comparison. -/
def updateChannel (w : SyncCall) : Except Fault SyncCall :=
  if w.conn.sevent = w.conn.event then .ok w
  else match w.el with
    | none => .error .nullPointer
    | some registered => do
      let op := if w.conn.sevent = .none then .add else if w.conn.event = .none then .del else .mod
      let registered ← PbClient.epollCtl registered op w.conn.event
      return { w with conn := { w.conn with sevent := w.conn.event }, el := some registered }

def closeCallback (w : SyncCall) : Except Fault SyncCall :=
  { w with conn := { w.conn with event := .none } }.updateChannel

/-- `response_callback` of a session without `done`. -/
def responseCallback (w : SyncCall) (ctx : AnyContext) : Except Fault SyncCall := do
  let _ ← ctx.base.payloadView.str w.conn.rbuf
  w.closeCallback

def dataReadCallback (w : SyncCall) : Except Fault SyncCall :=
  match w.conn.ctx with
  | none => .error .nullPointer
  | some ctx => do
    let (status, s) ← ctx.parseResponse w.conn.rbuf
    let w := { w with conn := { w.conn with ctx := s.ctx, rbuf := s.buf } }
    match status, s.ctx with
    | .error, _ => return { w with parseError := true }
    | .success, some ctx => responseCallback { w with readResponseDone := true } ctx
    | _, _ => return w

/-- `_wbuf.readable() || _wbuf.extraable()`. -/
def unsent (w : SyncCall) : Bool := w.conn.wbuf.readable ≠ 0 || w.conn.wbuf.extraable ≠ 0

def writeFd (w : SyncCall) (r : WriteResult × WriteResult) : Except Fault SyncCall := do
  let (_, wbuf, _) ← w.conn.wbuf.writeFd r.1 r.2
  return { w with conn := { w.conn with wbuf } }

/-- Without what a session holds. -/
def bare (w : SyncCall) : SyncCall := { conn := w.conn, el := w.el }

/-- `!_session->_read_response_done`. -/
def waiting (w : SyncCall) : Bool := !w.readResponseDone

def readFd (w : SyncCall) (r : ReadResult) : Except Fault SyncCall := do
  let (_, rbuf) ← w.conn.rbuf.readFd r
  dataReadCallback { w with conn := { w.conn with rbuf } }

/-- The new session, up to the serialized request. -/
def newSession (w : SyncCall) (protocol : Protocol) (call : Call) : SyncCall :=
  let ctx := protocol.newContext.modify fun c =>
    { c with connType := call.connType, method := call.method, service := call.service,
             payload := call.payload }
  { w with
    conn := { w.conn with rbuf := w.conn.rbuf.clear, wbuf := w.conn.wbuf.clear, ctx := some ctx }
    readResponseDone := false
    parseError := false }

def packRequest (w : SyncCall) : Except Fault SyncCall :=
  match w.conn.ctx with
  | none => .error .nullPointer
  | some ctx => do return { w with conn := { w.conn with wbuf := ← ctx.packRequest w.conn.wbuf } }

/-- `CallMethod`, on what its socket calls report, two `::write`s to an iteration of the
first loop and a `::read` to one of the second. -/
def callMethod (w : SyncCall) (protocol : Protocol) (call : Call)
    (writes : List (WriteResult × WriteResult)) (reads : List ReadResult) :
    Except Fault (Loop SyncCall) := do
  let w := w.newSession protocol call
  if PbClient.maxPayload < call.payload.length then return .left w
  let w ← w.packRequest
  match ← run unsent writeFd w writes with
  | .inside w => return .inside w
  | .left w =>
    match ← run waiting readFd w reads with
    | .inside w => return .inside w
    | .left w => return .left { w with conn := { w.conn with ctx := none } }

/-- What some `write_fd` calls leave. -/
def written (b : Buffer) (writes : List (WriteResult × WriteResult)) : Except Fault Buffer :=
  writes.foldlM (fun b r => (fun x => x.2.1) <$> b.writeFd r.1 r.2) b

variable {w w' : SyncCall} {b : Buffer} {f : Fault} {writes more : List (WriteResult × WriteResult)} {n : Nat}

theorem writeFd_done (hr : b.readable = 0) (hx : b.extraable = 0) (r₁ r₂ : WriteResult) :
    b.writeFd r₁ r₂ = .ok (0, b, []) := by
  simp only [Buffer.writeFd, Buffer.writeExtra, hr, hx, if_true]

theorem writeFd_epipe : (·.2.1) <$> b.writeFd .epipe .epipe = .ok b := by
  simp only [Buffer.writeFd, Buffer.writeExtra]
  split_ifs <;> rfl

theorem written_append : written b (writes ++ more) = written b writes >>= (written · more) :=
  List.foldlM_append

theorem written_error {r : WriteResult × WriteResult} (h : b.writeFd r.1 r.2 = .error f) :
    written b (r :: writes) = .error f := by
  simp only [written, List.foldlM_cons, h]
  rfl

theorem written_cons {r : WriteResult × WriteResult} {t : Int} {b' : Buffer}
    {sent : List Buffer.Piece} (h : b.writeFd r.1 r.2 = .ok (t, b', sent)) :
    written b (r :: writes) = written b' writes := by
  simp only [written, List.foldlM_cons, h]
  rfl

theorem written_done (hr : b.readable = 0) (hx : b.extraable = 0) : written b writes = .ok b := by
  induction writes with
  | nil => rfl
  | cons r writes ih => rw [written_cons (writeFd_done hr hx r.1 r.2), ih]

theorem written_epipe : written b (List.replicate n (.epipe, .epipe)) = .ok b := by
  induction n with
  | zero => rfl
  | succ n ih =>
      have stays : written b ((.epipe, .epipe) :: List.replicate n (.epipe, .epipe)) =
          ((·.2.1) <$> b.writeFd .epipe .epipe) >>= (written · _) := rfl
      rw [List.replicate_succ, stays, writeFd_epipe]
      exact ih

theorem unsent_iff : w.unsent = false ↔ w.conn.wbuf.readable = 0 ∧ w.conn.wbuf.extraable = 0 := by
  simp [unsent]

/-- The first loop does what its writes do. -/
theorem run_writes_error (h : written w.conn.wbuf writes = .error f) :
    run unsent writeFd w writes = .error f := by
  induction writes generalizing w with
  | nil => cases h
  | cons r writes ih =>
      cases goes : w.unsent with
      | false =>
          obtain ⟨hr, hx⟩ := unsent_iff.mp goes
          rw [written_done hr hx] at h
          cases h
      | true =>
          cases hw : w.conn.wbuf.writeFd r.1 r.2 with
          | error g =>
              rw [written_error hw] at h
              cases h
              exact run_error goes (by simp only [writeFd, hw]; rfl)
          | ok result =>
              obtain ⟨t, b, sent⟩ := result
              rw [written_cons hw] at h
              rw [run_step goes (t := { w with conn := { w.conn with wbuf := b } })
                (by simp only [writeFd, hw]; rfl)]
              exact ih h

theorem run_writes (h : written w.conn.wbuf writes = .ok b) : run unsent writeFd w writes =
    .ok (if b.readable = 0 ∧ b.extraable = 0 then .left { w with conn := { w.conn with wbuf := b } }
      else .inside { w with conn := { w.conn with wbuf := b } }) := by
  induction writes generalizing w with
  | nil =>
      cases h
      cases goes : w.unsent with
      | false => rw [run_done goes, if_pos (unsent_iff.mp goes)]
      | true =>
          have more : ¬ (w.conn.wbuf.readable = 0 ∧ w.conn.wbuf.extraable = 0) := fun done => by
            rw [unsent_iff.mpr done] at goes
            cases goes
          rw [run, if_pos goes, if_neg more]
  | cons r writes ih =>
      cases goes : w.unsent with
      | false =>
          obtain ⟨hr, hx⟩ := unsent_iff.mp goes
          rw [written_done hr hx] at h
          cases h
          rw [run_done goes, if_pos ⟨hr, hx⟩]
      | true =>
          cases hw : w.conn.wbuf.writeFd r.1 r.2 with
          | error g =>
              rw [written_error hw] at h
              cases h
          | ok result =>
              obtain ⟨t, b', sent⟩ := result
              rw [written_cons hw] at h
              rw [run_step goes (t := { w with conn := { w.conn with wbuf := b' } })
                (by simp only [writeFd, hw]; rfl)]
              exact ih h

theorem packRequest_ok (h : w.packRequest = .ok w') : w'.conn.ctx = w.conn.ctx ∧
    w'.conn.rbuf = w.conn.rbuf ∧ w'.readResponseDone = w.readResponseDone := by
  unfold packRequest at h
  cases hctx : w.conn.ctx with
  | none =>
      rw [hctx] at h
      cases h
  | some ctx =>
      rw [hctx] at h
      obtain ⟨wbuf, _, h⟩ := bind_ok.mp h
      cases h
      exact ⟨hctx.symm ▸ rfl, rfl, rfl⟩

/-- A client without an event loop, connected. -/
def client : SyncCall := { conn := { fd := 3 } }

def echo : Call :=
  { connType := .short, service := ascii "Echo", method := ascii "echo", payload := ascii "hi" }

end SyncCall
end SmallRpc
