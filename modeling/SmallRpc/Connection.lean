import SmallRpc.Protocols
import SmallRpc.SocketWrites

/-! A TCP connection: the channel it is to its event loop, the callbacks its owner has
installed, the two buffers. An event leads to one read or write and at most one
callback, the last thing `handleEvents` does. -/
namespace SmallRpc
open Runs
open Buffer (ReadResult WriteResult Piece Progress HeadFirst wireOffsets)

/-- The event masks the code asks epoll for. -/
inductive Interest where
  | none
  | epollin
  | epollout
  deriving DecidableEq, Repr

/-- The two bits `handle_events` tests. -/
structure Events where
  epollin : Bool := false
  epollout : Bool := false
  deriving DecidableEq, Repr

inductive Callback where
  | clientConn
  | dataRead
  | writeComplete
  | close
  deriving DecidableEq, Repr

/-- `timerId` counts without bound; the `atomic<int>` of the source is its residue
modulo 2^32. -/
structure TCPConnection where
  fd : Nat
  event : Interest := .none
  sevent : Interest := .none
  protoIdx : Nat := 0
  timerId : Nat := 0
  connected : Bool := true
  ctx : Option AnyContext := none
  callbacks : List Callback := []
  rbuf : Buffer := .ofSize Buffer.initialBufferSize
  wbuf : Buffer := .ofSize Buffer.initialBufferSize
  deriving DecidableEq, Repr

/-- What the system calls of one event report. -/
structure SocketResults where
  read : ReadResult := .again
  head : WriteResult := .again
  extra : WriteResult := .again
  deriving DecidableEq, Repr

/-- Where `handle_events` ends: the connection, the callback called on it, and the
pieces the socket accepted. -/
structure Handled where
  conn : TCPConnection
  call : Option Callback := none
  sent : List Piece := []
  deriving DecidableEq, Repr

namespace TCPConnection

/-- A `std::function` is called only if it has been set. -/
def installed (conn : TCPConnection) (callback : Callback) : Option Callback :=
  if callback ∈ conn.callbacks then some callback else none

def handleEvents (conn : TCPConnection) (events : Events) (io : SocketResults) :
    Except Fault Handled :=
  if events.epollin then do
    let (n, rbuf) ← conn.rbuf.readFd io.read
    let conn := { conn with rbuf }
    return { conn, call := conn.installed (if n = 0 then .close else .dataRead) }
  else if events.epollout then
    if conn.connected then do
      let (_, wbuf, sent) ← conn.wbuf.writeFd io.head io.extra
      let conn := { conn with wbuf }
      return { conn, call := if wbuf.readable = 0 then conn.installed .writeComplete else none, sent }
    else .ok { conn, call := conn.installed .clientConn }
  else .ok { conn }

/-- A message on its way out: what the socket has accepted of it, and whether the
write-complete callback has been called. -/
structure Writing where
  conn : TCPConnection
  sent : List Piece := []
  complete : Bool := false
  deriving DecidableEq, Repr

/-- `EPOLLOUT` events until the first completion. A connection attempt may be found
to have succeeded on the way. -/
def writing (conn : TCPConnection) : System Writing SocketResults where
  start s := s = { conn }
  step s io s' := s.complete = false ∧
    io.head.Possible s.conn.wbuf.readable ∧ io.extra.Possible s.conn.wbuf.extraable ∧
    ∃ out, s.conn.handleEvents { epollout := true } io = .ok out ∧
      s'.conn = { out.conn with connected := s'.conn.connected } ∧
      (out.call ≠ some .clientConn → s'.conn.connected = out.conn.connected) ∧
      s'.sent = s.sent ++ out.sent ∧ s'.complete = decide (out.call = some .writeComplete)

/-- Every byte of the message has been accepted. -/
def AllSent (b₀ : Buffer) (sent : List Piece) : Prop :=
  ∀ k < b₀.message.length, k ∈ wireOffsets b₀ sent

/-- The first `::write` leaves nothing of the head. -/
def HeadLeaves (b : Buffer) (r₁ : WriteResult) : Prop := b.readable = 0 ∨ r₁ = .wrote b.readable

/-- The second leaves nothing of the extra segment. -/
def ExtraLeaves (b : Buffer) (r₂ : WriteResult) : Prop :=
  b.extraable = 0 ∨ r₂ = .wrote b.extraable

/-- With the last byte of the head goes the last byte of the payload. -/
def Coupled (s : Writing) (io : SocketResults) : Prop :=
  s.conn.connected = true → .writeComplete ∈ s.conn.callbacks →
    HeadLeaves s.conn.wbuf io.head → ExtraLeaves s.conn.wbuf io.extra

variable {conn : TCPConnection} {s s' : Writing} {io : SocketResults} {b b₀ : Buffer}
  {es : List (Writing × SocketResults)} {r₁ r₂ : WriteResult}

theorem headLeaves_iff : HeadLeaves b r₁ ↔ Buffer.headTaken b r₁ = b.readable := by
  unfold HeadLeaves Buffer.headTaken
  split_ifs with hr
  · simp only [hr, true_or]
  · cases r₁ with
    | wrote n => simp [hr, Buffer.WriteResult.taken]
    | again => simp [hr, Buffer.WriteResult.taken, Ne.symm hr]
    | epipe => simp [hr, Buffer.WriteResult.taken, Ne.symm hr]
    | failed => simp [hr, Buffer.WriteResult.taken, Ne.symm hr]

theorem HeadLeaves.extraLeaves_iff (head : HeadLeaves b r₁) :
    ExtraLeaves b r₂ ↔ Buffer.extraTaken b r₁ r₂ = b.extraable := by
  have quiet : ¬ (b.readable ≠ 0 ∧ r₁.isError = true) := by
    rintro ⟨hr, herr⟩
    rw [head.resolve_left hr] at herr
    cases herr
  unfold ExtraLeaves Buffer.extraTaken
  simp only [quiet, or_false]
  split_ifs with hx
  · simp only [hx, true_or]
  · cases r₂ with
    | wrote n => simp [hx, Buffer.WriteResult.taken]
    | again => simp [hx, Buffer.WriteResult.taken, Ne.symm hx]
    | epipe => simp [hx, Buffer.WriteResult.taken, Ne.symm hx]
    | failed => simp [hx, Buffer.WriteResult.taken, Ne.symm hx]

/-- With the indices in their segments, everything is sent when both segments are empty. -/
theorem allSent_iff (hb : b₀.Wf) (hx : b₀.extraIndex ≤ b₀.extraData.length) {s : Buffer.Sender}
    (h : Progress b₀ s) : AllSent b₀ s.sent ↔ s.buf.readable = 0 ∧ s.buf.extraable = 0 := by
  have hlen : b₀.message.length = b₀.unread.length + (b₀.extraData.length - b₀.extraIndex) := by
    rw [Buffer.message, List.length_append, Buffer.unsent, List.length_drop]
  have hu := hb.unread_length
  have hl := h.head_le
  have hh := h.head_bound
  have xl := h.extra_le
  have xb := h.extra_bound
  rw [h.readable_eq, h.extraable_eq]
  unfold AllSent
  simp only [h.covered, Buffer.headDone, Buffer.extraDone]
  constructor
  · intro all
    have hw : ¬ s.buf.rindex < b₀.windex := fun hlt => by
      have := all (s.buf.rindex - b₀.rindex) (by omega)
      omega
    have hd : ¬ s.buf.extraIndex < b₀.extraData.length := fun hlt => by
      have := all (b₀.unread.length + (s.buf.extraIndex - b₀.extraIndex)) (by omega)
      omega
    omega
  · rintro ⟨hr, he⟩ k hk
    omega

/-- One event, seen from the message: nothing on a connection still being made,
otherwise one `writeFd`; it completes when the head is gone. -/
theorem writing_step (b₀ : Buffer) (h : (writing conn).step s io s') :
    ((Buffer.sending b₀).step ⟨s.conn.wbuf, s.sent⟩ (io.head, io.extra) ⟨s'.conn.wbuf, s'.sent⟩ ∧
      s.conn.connected = true ∧ (s'.complete = true ↔ s'.conn.wbuf.readable = 0 ∧
        .writeComplete ∈ s.conn.callbacks)) ∨
    (s'.conn.wbuf = s.conn.wbuf ∧ s'.sent = s.sent ∧ s.conn.connected = false ∧
      s'.complete = false) := by
  obtain ⟨_, head, extra, out, call, same, _, grown, ends⟩ := h
  have buf : s'.conn.wbuf = out.conn.wbuf := by rw [same]
  simp only [handleEvents, Bool.false_eq_true, if_false, if_true] at call
  cases hc : s.conn.connected with
  | false =>
      simp only [hc, Bool.false_eq_true, if_false, Except.ok.injEq] at call
      subst call
      refine .inr ⟨buf, by simpa using grown, rfl, ?_⟩
      rw [ends, decide_eq_false_iff_not, installed]
      split_ifs <;> simp
  | true =>
      simp only [hc, if_true] at call
      cases hw : s.conn.wbuf.writeFd io.head io.extra with
      | error f =>
          rw [hw] at call
          cases call
      | ok result =>
          obtain ⟨t, wbuf, ps⟩ := result
          rw [hw] at call
          obtain rfl := Except.ok.inj call
          refine .inl ⟨⟨head, extra, t, ps, ?_, grown⟩, rfl, ?_⟩
          · rw [hw, buf]
          · rw [ends, decide_eq_true_eq, buf, installed]
            by_cases hr : wbuf.readable = 0
            · by_cases hi : .writeComplete ∈ s.conn.callbacks
              · simp [hr, hi]
              · simp [hr, hi]
            · simp [hr]

theorem writing_progress (hb : conn.wbuf.Wf) (hx : conn.wbuf.extraIndex ≤ conn.wbuf.extraData.length)
    (run : Run (writing conn) es s) : Progress conn.wbuf ⟨s.conn.wbuf, s.sent⟩ := by
  apply run.invariant guarded_true
  · rintro _ rfl
    exact Buffer.progress_start hb hx
  · intro t io u before _ step
    rcases writing_step conn.wbuf step with ⟨call, _⟩ | ⟨hbuf, hsent, _⟩
    · exact Buffer.progress_step before call
    · rw [hbuf, hsent]
      exact before

/-- What a step leaves of the two segments. -/
theorem sending_leaves {s s' : Buffer.Sender} {w : WriteResult × WriteResult}
    (h : Progress b₀ s) (h' : Progress b₀ s') (step : (Buffer.sending b₀).step s w s') :
    (s'.buf.readable = 0 ↔ HeadLeaves s.buf w.1) ∧
      (HeadLeaves s.buf w.1 → (s'.buf.extraable = 0 ↔ ExtraLeaves s.buf w.2)) := by
  obtain ⟨moved, _⟩ := Buffer.sending_step step
  have hr : s'.buf.rindex = s.buf.rindex + Buffer.headTaken s.buf w.1 := by rw [moved]
  have he : s'.buf.extraIndex = s.buf.extraIndex + Buffer.extraTaken s.buf w.1 w.2 := by rw [moved]
  have r₀ := h.readable_eq
  have r₁ := h'.readable_eq
  have x₀ := h.extraable_eq
  have x₁ := h'.extraable_eq
  have hh := h.head_bound
  have hh' := h'.head_bound
  have xh := h.extra_bound
  have xh' := h'.extra_bound
  refine ⟨?_, fun head => ?_⟩
  · rw [headLeaves_iff]
    omega
  · rw [head.extraLeaves_iff]
    omega

/-- A step completes exactly if it takes the rest of the head off a connected socket. -/
theorem completes_iff (h : Progress b₀ ⟨s.conn.wbuf, s.sent⟩)
    (h' : Progress b₀ ⟨s'.conn.wbuf, s'.sent⟩) (step : (writing conn).step s io s') :
    s'.complete = true ↔ s.conn.connected = true ∧ .writeComplete ∈ s.conn.callbacks ∧
      HeadLeaves s.conn.wbuf io.head := by
  rcases writing_step b₀ step with ⟨call, hc, done⟩ | ⟨_, _, hc, done⟩
  · have leaves := (sending_leaves h h' call).1
    rw [done, leaves]
    simp [hc, and_comm]
  · simp [hc, done]

/-- Steps that do not complete cannot break the coupling. -/
theorem coupled_of_incomplete (hb : conn.wbuf.Wf)
    (hx : conn.wbuf.extraIndex ≤ conn.wbuf.extraData.length) (run : Run (writing conn) es s)
    (incomplete : s.complete = false) : Guarded Coupled es := by
  obtain ⟨s₀, rfl, path⟩ := run
  induction path with
  | nil => exact guarded_nil
  | @snoc es t io u path step ih =>
      have before := writing_progress hb hx ⟨_, rfl, path⟩
      have after := writing_progress hb hx ⟨_, rfl, path.snoc step⟩
      refine guarded_snoc.mpr ⟨ih step.1, fun hc hi head => ?_⟩
      have := (completes_iff before after step).mpr ⟨hc, hi, head⟩
      rw [incomplete] at this
      cases this

/-- The write-complete callback finds the whole message sent exactly if, at the event
that takes the last of the head, the payload goes with it. -/
theorem complete_allSent_iff (hb : conn.wbuf.Wf)
    (hx : conn.wbuf.extraIndex ≤ conn.wbuf.extraData.length) (run : Run (writing conn) es s) :
    (s.complete = true → AllSent conn.wbuf s.sent) ↔ Guarded Coupled es := by
  cases hdone : s.complete with
  | false => exact iff_of_true nofun (coupled_of_incomplete hb hx run hdone)
  | true =>
      have after := writing_progress hb hx run
      obtain ⟨s₀, rfl, path⟩ := run
      cases path with
      | nil => cases hdone
      | @snoc es t io _ path step =>
          have before := writing_progress hb hx ⟨_, rfl, path⟩
          have earlier := coupled_of_incomplete hb hx ⟨_, rfl, path⟩ step.1
          obtain ⟨hc, hi, head⟩ := (completes_iff before after step).mp hdone
          rcases writing_step conn.wbuf step with ⟨call, _⟩ | ⟨_, _, hc', _⟩
          · obtain ⟨gone, rest⟩ := sending_leaves before after call
            rw [guarded_snoc, allSent_iff hb hx after, gone, rest head]
            constructor
            · exact fun all => ⟨earlier, fun _ _ _ => (all rfl).2⟩
            · exact fun coupled _ => ⟨head, coupled.2 hc hi head⟩
          · rw [hc] at hc'
            cases hc'

/-- A server connection with a packed response, sixteen bytes of head and five of payload. -/
def responding : TCPConnection :=
  { fd := 7, event := .epollout, sevent := .epollout
    callbacks := [.dataRead, .close, .writeComplete], wbuf := Buffer.packedResponse }

theorem responding_complete_iff :
    (true = true → AllSent responding.wbuf [⟨false, 0, 16⟩, ⟨true, 0, 5⟩]) ↔
      Guarded Coupled [({ conn := responding }, { head := .wrote 16, extra := .wrote 5 })] := by
  have run : Run (writing responding)
      [({ conn := responding }, { head := .wrote 16, extra := .wrote 5 })]
      { conn := { responding with wbuf := { Buffer.packedResponse with rindex := 16, extraIndex := 5 } }
        sent := [⟨false, 0, 16⟩, ⟨true, 0, 5⟩], complete := true } :=
    ⟨_, rfl, .snoc .nil ⟨rfl, le_rfl, le_rfl, _, rfl, rfl, fun _ => rfl, rfl, rfl⟩⟩
  exact complete_allSent_iff Buffer.packedResponse_wf (by decide) run

/-- The head is taken whole, the payload meets a full socket, and the message counts as sent. -/
theorem complete_without_payload :
    ¬ ∀ conn es s, conn.wbuf.Wf → conn.wbuf.extraIndex ≤ conn.wbuf.extraData.length →
      Run (writing conn) es s → s.complete = true → AllSent conn.wbuf s.sent := by
  intro claim
  have run : Run (writing responding)
      [({ conn := responding }, { head := .wrote 16, extra := .again })]
      { conn := { responding with wbuf := { Buffer.packedResponse with rindex := 16 } }
        sent := [⟨false, 0, 16⟩], complete := true } :=
    ⟨_, rfl, .snoc .nil ⟨rfl, le_rfl, trivial, _, rfl, rfl, fun _ => rfl, rfl, rfl⟩⟩
  have all := claim _ _ _ Buffer.packedResponse_wf (by decide) run rfl
  exact absurd (all 16 (by decide)) (by decide)

end TCPConnection
end SmallRpc
