import SmallRpc.Faults
import SmallRpc.Replies
import SmallRpc.SyncCall

/-! The session of a synchronous call. `response_callback` is shared with the asynchronous
calls, where the session ends with `done`; here the read loop and the statements behind it
use the session and the context once more. -/
namespace SmallRpc
open Loops
open Buffer (ReadResult WriteResult)

/-- `done` tells whether a closure was given. -/
structure PbSession where
  done : Bool
  readResponseDone : Bool := false
  deriving DecidableEq, Repr

/-- A client on its way through `CallMethod`, with the contexts deleted and the closures
run so far; `parseError` is the one of `SyncCall`. -/
structure SyncSession where
  conn : TCPConnection
  el : Option (Option Interest) := none
  session : Option PbSession := none
  deleted : Nat := 0
  ran : Nat := 0
  parseError : Bool := false
  deriving DecidableEq, Repr

namespace SyncSession

/-- Behind the loop: the session is not looked at. -/
def base (w : SyncSession) : SyncCall := { conn := w.conn, el := w.el }

/-- Inside the loop: a session without `done` is one flag. -/
def plain (w : SyncSession) : SyncCall :=
  { conn := w.conn, el := w.el, readResponseDone := w.session.any (·.readResponseDone),
    parseError := w.parseError }

def closeCallback (w : SyncSession) : Except Fault SyncSession := do
  let c ← w.base.closeCallback
  return { w with conn := c.conn, el := c.el }

/-- `delete _ctx; _ctx = nullptr; _session = nullptr;`. -/
def clearSession (w : SyncSession) : SyncSession :=
  { w with
    conn := { w.conn with ctx := none }
    session := none
    deleted := w.deleted + if w.conn.ctx = none then 0 else 1 }

def responseCallback (w : SyncSession) : Except Fault SyncSession :=
  match w.conn.ctx with
  | none => .error .nullPointer
  | some ctx => do
    let _ ← ctx.base.payloadView.str w.conn.rbuf
    match w.session with
    | none => .error .nullPointer
    | some session =>
      if session.done then clearSession { w with ran := w.ran + 1 } |>.closeCallback
      else w.closeCallback

def dataReadCallback (w : SyncSession) : Except Fault SyncSession :=
  match w.conn.ctx with
  | none => .error .nullPointer
  | some ctx => do
    let (status, s) ← ctx.parseResponse w.conn.rbuf
    let w := { w with conn := { w.conn with ctx := s.ctx, rbuf := s.buf } }
    if status = .success then
      match w.session with
      | none => .error .nullPointer
      | some session =>
        responseCallback { w with session := some { session with readResponseDone := true } }
    else return { w with parseError := w.parseError || status = .error }

def readFd (w : SyncSession) (r : ReadResult) : Except Fault SyncSession := do
  let (_, rbuf) ← w.conn.rbuf.readFd r
  dataReadCallback { w with conn := { w.conn with rbuf } }

/-- `!_session->_read_response_done`. -/
def waiting (w : SyncSession) : Except Fault Bool :=
  match w.session with
  | none => .error .nullPointer
  | some session => .ok !session.readResponseDone

def readLoop : SyncSession → List ReadResult → Except Fault (Loop SyncSession)
  | w, [] => do if ← w.waiting then return .inside w else return .left w
  | w, r :: reads => do
    if ← w.waiting then
      let w ← w.readFd r
      readLoop w reads
    else return .left w

def newSession (w : SyncSession) (protocol : Protocol) (call : Call) (done : Bool) : SyncSession :=
  { w with
    conn := (w.base.newSession protocol call).conn
    session := some { done }
    parseError := false }

/-- `CallMethod`, as far as its synchronous branch. -/
def callMethod (w : SyncSession) (protocol : Protocol) (call : Call) (done : Bool)
    (writes : List (WriteResult × WriteResult)) (reads : List ReadResult) :
    Except Fault (Loop SyncSession) := do
  let w := w.newSession protocol call done
  if PbClient.maxPayload < call.payload.length then return .left w
  let c ← w.base.packRequest
  match ← run SyncCall.unsent SyncCall.writeFd c writes with
  | .inside c => return .inside { w with conn := c.conn }
  | .left c =>
    match ← readLoop { w with conn := c.conn } reads with
    | .inside w => return .inside w
    | .left w => return .left w.clearSession

/-- With no event loop nothing has ever been registered for the connection. -/
def Quiet (w : SyncSession) : Prop := w.el = none → w.conn.sevent = .none

/-- No pointer of the call is null where it is followed, and a call that returns has deleted
its context once and run `done` once. -/
structure Sound (w : SyncSession) (done : Bool) (out : Except Fault (Loop SyncSession)) : Prop where
  pointers : out ≠ .error .nullPointer
  ended : ∀ w', out = .ok (.left w') →
    w'.deleted = w.deleted + 1 ∧ w'.ran = w.ran + if done then 1 else 0

end SyncSession

/-- One of the reads completes a response, and its payload is inside the buffer. -/
def Session.replied (s : Session) : List ReadResult → Bool
  | [] => false
  | r :: rs =>
    match s.read r with
    | .error _ => false
    | .ok (.success, s) => s.ctx.any fun ctx => (ctx.base.payloadView.str s.buf).isOk
    | .ok (_, s) => s.replied rs

namespace SyncSession

/-- The request is packed and taken, and a response comes. -/
def Replied (w : SyncSession) (protocol : Protocol) (call : Call)
    (writes : List (WriteResult × WriteResult)) (reads : List ReadResult) : Prop :=
  match (w.base.newSession protocol call).packRequest with
  | .error _ => False
  | .ok c =>
    match SyncCall.written c.conn.wbuf writes with
    | .error _ => False
    | .ok b => b.readable = 0 ∧ b.extraable = 0 ∧
        Session.replied ⟨c.conn.ctx, c.conn.rbuf⟩ reads = true

variable {w w' : SyncSession} {protocol : Protocol} {call : Call} {done : Bool} {f : Fault}
  {r : ReadResult} {reads : List ReadResult} {writes : List (WriteResult × WriteResult)}
  {s s' : Session} {status : ParseProtocolStatus} {ctx : AnyContext} {session : PbSession}

theorem epollCtl_faults {registered : Option Interest} {op : CtlOp} {events : Interest} :
    Faults (· = .aborted) (PbClient.epollCtl registered op events) := by
  unfold PbClient.epollCtl
  split
  · exact faults_ok
  · exact faults_ok
  · exact faults_ok
  · exact faults_error rfl

theorem updateChannel_faults {c : SyncCall} (quiet : c.el = none → c.conn.sevent = c.conn.event) :
    Faults (· = .aborted) c.updateChannel := by
  by_cases same : c.conn.sevent = c.conn.event
  · rw [SyncCall.updateChannel, if_pos same]
    exact faults_ok
  · rw [SyncCall.updateChannel, if_neg same]
    cases hel : c.el with
    | none => exact absurd (quiet hel) same
    | some registered => exact epollCtl_faults.bind fun _ => faults_pure

theorem updateChannel_ok {c d : SyncCall} (h : c.updateChannel = .ok d) :
    d.conn.ctx = c.conn.ctx ∧ (d.el = none → c.el = none ∧ d.conn.sevent = c.conn.sevent) := by
  by_cases same : c.conn.sevent = c.conn.event
  · rw [SyncCall.updateChannel, if_pos same] at h
    cases h
    exact ⟨rfl, fun alone => ⟨alone, rfl⟩⟩
  · rw [SyncCall.updateChannel, if_neg same] at h
    cases hel : c.el with
    | none =>
        rw [hel] at h
        cases h
    | some registered =>
        rw [hel] at h
        obtain ⟨registered, _, h⟩ := bind_ok.mp h
        cases h
        exact ⟨rfl, fun alone => by cases alone⟩

/-- The channel is updated if there is a loop to update it in. -/
theorem closeCallback_faults (quiet : w.Quiet) : Faults (· = .aborted) w.closeCallback :=
  Faults.bind (updateChannel_faults (c := { w.base with conn := { w.conn with event := .none } })
    quiet) fun _ => faults_pure

theorem closeCallback_ok (h : w.closeCallback = .ok w') : w'.conn.ctx = w.conn.ctx ∧
    w'.session = w.session ∧ w'.deleted = w.deleted ∧ w'.ran = w.ran := by
  obtain ⟨c, updated, h⟩ := bind_ok.mp h
  cases h
  exact ⟨(updateChannel_ok updated).1, rfl, rfl, rfl⟩

theorem stageStatus_faults {p : SimpleParser} : Faults (· = .outOfStorage) p.stageStatus := by
  refine .ite faults_ok (peekInt32_faults.bind fun connType => ?_)
  dsimp only
  split
  · exact faults_pure
  · refine peekInt32_faults.bind fun status => ?_
    split
    · exact faults_pure
    · exact faults_pure

theorem simple_response_faults {p : SimpleParser} : Faults (· = .outOfStorage) p.responseStage := by
  unfold SimpleParser.responseStage
  split
  · exact stageMagic_faults
  · exact stageStatus_faults
  · exact stagePayload_faults
  · exact faults_ok

theorem http_response_faults {p : HTTPParser} : Faults ParseFault p.responseStage := by
  unfold HTTPParser.responseStage
  split
  · refine Faults.map (nextLine_faults.parse.bind fun found => ?_)
    cases found with
    | inl status => exact faults_pure
    | inr n => exact faults_pure
  · exact headerLines_faults.map
  · exact faults_ok
  · exact faults_ok

theorem parseResponse_faults {buf : Buffer} : Faults ParseFault (ctx.parseResponse buf) := by
  cases ctx with
  | simple ctx =>
      exact Faults.bind (runStages_faults fun _ => simple_response_faults.parse) fun _ => faults_pure
  | http ctx =>
      exact Faults.bind (runStages_faults fun _ => http_response_faults) fun _ => faults_pure

theorem packRequest_faults {b : Buffer} : Faults (· = .outOfStorage) (ctx.packRequest b) := by
  cases ctx with
  | simple ctx =>
      exact appendInt32_faults.bind fun _ => appendInt32_faults.bind fun _ =>
        appendInt32_faults.bind fun _ => append_faults.bind fun _ => append_faults.bind fun _ =>
        append_faults.bind fun _ => appendInt32_faults.bind fun _ => faults_pure
  | http ctx =>
      exact append_faults.bind fun _ => append_faults.bind fun _ => append_faults.bind fun _ =>
        append_faults.bind fun _ => append_faults.bind fun _ => append_faults.bind fun _ =>
        append_faults.bind fun _ => append_faults.bind fun _ => append_faults.bind fun _ =>
        append_faults.bind fun _ => faults_pure

theorem parseFault_pointer (h : ParseFault f) : f ≠ .nullPointer := by
  rintro rfl
  rcases h with h | h
  · cases h
  · cases h

theorem read_faults (some : s.ctx ≠ none) : Faults (· ≠ .nullPointer) (s.read r) := by
  refine (readFd_faults.mono fun f h => ?_).bind fun _ => ?_
  · rw [h]
    exact Fault.noConfusion
  · cases hctx : s.ctx with
    | none => exact absurd hctx some
    | some ctx => exact parseResponse_faults.mono fun _ => parseFault_pointer

theorem readFd_fault (h : Session.read ⟨w.conn.ctx, w.conn.rbuf⟩ r = .error f) :
    w.readFd r = .error f := by
  unfold readFd
  cases hread : w.conn.rbuf.readFd r with
  | error g =>
      simp only [Session.read, hread, bind, Except.bind] at h ⊢
      cases h
      rfl
  | ok result =>
      simp only [Session.read, hread, bind, Except.bind, dataReadCallback] at h ⊢
      cases hctx : w.conn.ctx with
      | none =>
          simp only [hctx] at h
          cases h
          rfl
      | some ctx =>
          simp only [hctx] at h
          simp only [h]

/-- A read that does not complete the response, and one that does. -/
theorem readFd_ok (h : Session.read ⟨w.conn.ctx, w.conn.rbuf⟩ r = .ok (status, s)) :
    w.readFd r = if status = .success then
        match w.session with
        | none => .error .nullPointer
        | some session => responseCallback { w with
            conn := { w.conn with ctx := s.ctx, rbuf := s.buf }
            session := some { session with readResponseDone := true } }
      else .ok { w with
        conn := { w.conn with ctx := s.ctx, rbuf := s.buf }
        parseError := w.parseError || status = .error } := by
  obtain ⟨⟨t, buf⟩, hread, parse⟩ := bind_ok.mp h
  simp only [readFd, hread, bind, Except.bind, dataReadCallback]
  cases hctx : w.conn.ctx with
  | none =>
      rw [hctx] at parse
      cases parse
  | some ctx =>
      rw [hctx] at parse
      simp only at parse
      simp only [parse]
      rfl

theorem read_ctx (h : s.read r = .ok (status, s')) : s'.ctx ≠ none := by
  obtain ⟨result, _, parse⟩ := bind_ok.mp h
  cases hctx : s.ctx with
  | none =>
      rw [hctx] at parse
      cases parse
  | some ctx =>
      rw [hctx] at parse
      exact AnyContext.parseResponse_ctx parse

theorem readLoop_step (hs : w.session = some session) (waits : session.readResponseDone = false) :
    w.readLoop (r :: reads) = w.readFd r >>= fun w => w.readLoop reads := by
  simp [readLoop, waiting, hs, waits, bind, Except.bind]

theorem readLoop_nil (hs : w.session = some session) (waits : session.readResponseDone = false) :
    w.readLoop [] = .ok (.inside w) := by
  simp [readLoop, waiting, hs, waits, bind, Except.bind, pure, Except.pure]

theorem readLoop_done (hs : w.session = some session) (done : session.readResponseDone = true) :
    w.readLoop reads = .ok (.left w) := by
  cases reads <;> simp [readLoop, waiting, hs, done, bind, Except.bind, pure, Except.pure]

theorem readLoop_null (hs : w.session = none) : w.readLoop reads = .error .nullPointer := by
  cases reads <;> simp [readLoop, waiting, hs, bind, Except.bind]

/-- With no event loop `close_callback` sets a mask. -/
theorem closeCallback_alone (quiet : w.Quiet) (alone : w.el = none) :
    ∃ w', w.closeCallback = .ok w' := by
  have same : w.conn.sevent = Interest.none := quiet alone
  refine ⟨{ w with conn := { w.conn with event := .none } }, ?_⟩
  simp only [closeCallback, SyncCall.closeCallback, SyncCall.updateChannel, base, same, if_true,
    bind, Except.bind]
  rfl

/-- The read loop of a call with `done` never ends: it waits, or it looks for the session
that `response_callback` has put away. -/
theorem readLoop_closure (hs : w.session = some ⟨true, false⟩) (some : w.conn.ctx ≠ none)
    (quiet : w.Quiet) (alone : w.el = none) :
    if Session.replied ⟨w.conn.ctx, w.conn.rbuf⟩ reads = true then
      w.readLoop reads = .error .nullPointer
    else w.readLoop reads ≠ .error .nullPointer ∧ ∀ w', w.readLoop reads ≠ .ok (.left w') := by
  induction reads generalizing w with
  | nil =>
      rw [readLoop_nil hs rfl]
      simp [Session.replied]
  | cons r reads ih =>
      rw [readLoop_step hs rfl]
      cases read : Session.read ⟨w.conn.ctx, w.conn.rbuf⟩ r with
      | error f =>
          have pointer := read_faults (s := ⟨w.conn.ctx, w.conn.rbuf⟩) some f read
          rw [readFd_fault read]
          simp [Session.replied, read, bind, Except.bind, pointer]
      | ok result =>
          obtain ⟨status, s⟩ := result
          have held := read_ctx read
          rw [readFd_ok read]
          by_cases success : status = .success
          · subst success
            obtain ⟨ctx, hctx⟩ := Option.ne_none_iff_exists'.mp held
            cases hstr : ctx.base.payloadView.str s.buf with
            | error f =>
                have pointer := parseFault_pointer (str_faults f hstr)
                simp [Session.replied, read, hs, responseCallback, hctx, hstr, bind, Except.bind,
                  Except.isOk, Except.toBool, pointer]
            | ok str =>
                simp only [Session.replied, read, hs, responseCallback, hctx, hstr, bind, Except.bind]
                obtain ⟨w', closed⟩ := closeCallback_alone (w := clearSession { w with
                  conn := { w.conn with ctx := Option.some ctx, rbuf := s.buf }
                  session := Option.some ⟨true, true⟩, ran := w.ran + 1 }) quiet alone
                have gone := (closeCallback_ok closed).2.1
                simp only [if_true, closed]
                rw [readLoop_null gone]
                simp [Except.isOk, Except.toBool, hstr]
          · rw [if_neg success]
            have other : Session.replied ⟨w.conn.ctx, w.conn.rbuf⟩ (r :: reads) = s.replied reads := by
              simp only [Session.replied, read]
            rw [other]
            exact ih (w := { w with
              conn := { w.conn with ctx := s.ctx, rbuf := s.buf }
              parseError := w.parseError || status = .error }) hs held quiet alone

/-- The read loop of a call without one keeps the context and the session. -/
theorem readLoop_plain (hs : w.session = some ⟨false, false⟩) (some : w.conn.ctx ≠ none)
    (quiet : w.Quiet) : w.readLoop reads ≠ .error .nullPointer ∧
      ∀ w', w.readLoop reads = .ok (.left w') →
        w'.conn.ctx ≠ none ∧ w'.deleted = w.deleted ∧ w'.ran = w.ran := by
  induction reads generalizing w with
  | nil =>
      rw [readLoop_nil hs rfl]
      simp
  | cons r reads ih =>
      rw [readLoop_step hs rfl]
      cases read : Session.read ⟨w.conn.ctx, w.conn.rbuf⟩ r with
      | error f =>
          have pointer := read_faults (s := ⟨w.conn.ctx, w.conn.rbuf⟩) some f read
          rw [readFd_fault read]
          simp [bind, Except.bind, pointer]
      | ok result =>
          obtain ⟨status, s⟩ := result
          have held := read_ctx read
          rw [readFd_ok read]
          by_cases success : status = .success
          · subst success
            obtain ⟨ctx, hctx⟩ := Option.ne_none_iff_exists'.mp held
            cases hstr : ctx.base.payloadView.str s.buf with
            | error f =>
                have pointer := parseFault_pointer (str_faults f hstr)
                simp [hs, responseCallback, hctx, hstr, bind, Except.bind, pointer]
            | ok str =>
                have fails := closeCallback_faults (w := { w with
                  conn := { w.conn with ctx := Option.some ctx, rbuf := s.buf }
                  session := Option.some ⟨false, true⟩ }) quiet
                simp only [hs, if_true, responseCallback, hctx, hstr, bind, Except.bind,
                  Bool.false_eq_true, if_false]
                cases closed : closeCallback { w with
                    conn := { w.conn with ctx := Option.some ctx, rbuf := s.buf }
                    session := Option.some ⟨false, true⟩ } with
                | error f =>
                    rw [fails f closed]
                    simp
                | ok w' =>
                    obtain ⟨ctx', session', deleted, ran⟩ := closeCallback_ok closed
                    simp only [readLoop_done session' rfl]
                    refine ⟨by simp, fun w'' left => ?_⟩
                    cases left
                    exact ⟨by rw [ctx']; exact Option.some_ne_none _, deleted, ran⟩
          · rw [if_neg success]
            exact ih (w := { w with
              conn := { w.conn with ctx := s.ctx, rbuf := s.buf }
              parseError := w.parseError || status = .error }) hs held quiet

theorem closeCallback_plain : w.plain.closeCallback = plain <$> w.closeCallback := by
  unfold closeCallback SyncCall.closeCallback SyncCall.updateChannel
  simp only [plain, base]
  split_ifs with same
  · rfl
  · cases w.el with
    | none => rfl
    | some registered =>
        simp only [bind, Except.bind]
        cases PbClient.epollCtl registered _ _ <;> rfl

theorem responseCallback_plain {waits : Bool} (hs : w.session = some ⟨false, waits⟩)
    (hctx : w.conn.ctx = some ctx) : w.plain.responseCallback ctx = plain <$> w.responseCallback := by
  unfold responseCallback SyncCall.responseCallback
  rw [hctx]
  change (ctx.base.payloadView.str w.conn.rbuf >>= _) = _
  cases str : ctx.base.payloadView.str w.conn.rbuf with
  | error f => simp only [str]; rfl
  | ok bytes =>
      simp only [str, hs]
      exact closeCallback_plain

/-- Without `done` an iteration of the read loop is the one of `SyncCall`. -/
theorem readFd_plain {waits : Bool} (hs : w.session = some ⟨false, waits⟩) :
    w.plain.readFd r = plain <$> w.readFd r := by
  unfold SyncCall.readFd readFd
  change (w.conn.rbuf.readFd r >>= _) = _
  cases w.conn.rbuf.readFd r with
  | error f => rfl
  | ok result =>
      obtain ⟨t, buf⟩ := result
      change SyncCall.dataReadCallback { w.plain with conn := { w.conn with rbuf := buf } } =
        plain <$> dataReadCallback { w with conn := { w.conn with rbuf := buf } }
      unfold SyncCall.dataReadCallback dataReadCallback
      simp only
      cases hctx : w.conn.ctx with
      | none => rfl
      | some ctx =>
          simp only
          cases parse : ctx.parseResponse buf with
          | error f => rfl
          | ok result =>
              obtain ⟨status, s⟩ := result
              simp only [bind, Except.bind]
              cases status with
              | success =>
                  obtain ⟨ctx', held⟩ := Option.ne_none_iff_exists'.mp (AnyContext.parseResponse_ctx parse)
                  simp only [held, hs, if_true]
                  exact responseCallback_plain (w := { w with
                    conn := { w.conn with ctx := some ctx', rbuf := s.buf }
                    session := some ⟨false, true⟩ }) rfl rfl
              | error =>
                  simp only [reduceCtorEq, if_false]
                  simp [plain, pure, Except.pure]
              | _ =>
                  simp only [reduceCtorEq, if_false]
                  simp [plain, pure, Except.pure]

theorem readFd_session {waits : Bool} (hs : w.session = some ⟨false, waits⟩)
    (h : w.readFd r = .ok w') : ∃ waits, w'.session = some ⟨false, waits⟩ := by
  cases read : Session.read ⟨w.conn.ctx, w.conn.rbuf⟩ r with
  | error f =>
      rw [readFd_fault read] at h
      cases h
  | ok result =>
      obtain ⟨status, s⟩ := result
      rw [readFd_ok read] at h
      split_ifs at h with success
      · obtain ⟨ctx, hctx⟩ := Option.ne_none_iff_exists'.mp (read_ctx read)
        simp only [hs, responseCallback, hctx] at h
        obtain ⟨str, _, h⟩ := bind_ok.mp h
        exact ⟨true, (closeCallback_ok h).2.1⟩
      · cases h
        exact ⟨waits, hs⟩

/-- The two read loops run alike, from the same results to the same client. -/
theorem run_plain {waits : Bool} (hs : w.session = some ⟨false, waits⟩) :
    run SyncCall.waiting SyncCall.readFd w.plain reads = Loop.map plain <$> w.readLoop reads := by
  have flag : w.plain.waiting = !waits := by simp [SyncCall.waiting, plain, hs]
  cases waits with
  | true =>
      rw [run_done flag, readLoop_done hs rfl]
      rfl
  | false =>
      induction reads generalizing w with
      | nil =>
          rw [run, if_pos (show w.plain.waiting = true from flag), readLoop_nil hs rfl]
          rfl
      | cons r reads ih =>
          rw [readLoop_step hs rfl]
          have step := readFd_plain (r := r) hs
          cases read : w.readFd r with
          | error f =>
              rw [read] at step
              rw [run_error flag step]
              rfl
          | ok w' =>
              rw [read] at step
              rw [run_step flag step]
              obtain ⟨waits, session⟩ := readFd_session hs read
              have flag' : w'.plain.waiting = !waits := by simp [SyncCall.waiting, plain, session]
              cases waits with
              | true =>
                  rw [run_done flag']
                  change _ = Loop.map plain <$> w'.readLoop reads
                  rw [readLoop_done session rfl]
                  rfl
              | false => exact ih session flag'

theorem newRequest_faults {c : SyncCall} (held : c.conn.ctx ≠ none) :
    Faults ParseFault c.packRequest := by
  unfold SyncCall.packRequest
  cases hctx : c.conn.ctx with
  | none => exact absurd hctx held
  | some ctx => exact packRequest_faults.parse.bind fun _ => faults_pure

theorem newRequest_conn {c c' : SyncCall} (h : c.packRequest = .ok c') :
    c'.conn.ctx = c.conn.ctx ∧ c'.conn.sevent = c.conn.sevent := by
  unfold SyncCall.packRequest at h
  cases hctx : c.conn.ctx with
  | none =>
      rw [hctx] at h
      cases h
  | some ctx =>
      rw [hctx] at h
      obtain ⟨wbuf, _, h⟩ := bind_ok.mp h
      cases h
      exact ⟨hctx, rfl⟩

theorem newRequest_wbuf {c c' : SyncCall} (h : c.packRequest = .ok c') :
    ∃ wbuf, c' = { c with conn := { c.conn with wbuf } } := by
  unfold SyncCall.packRequest at h
  split at h
  · cases h
  · obtain ⟨wbuf, _, h⟩ := bind_ok.mp h
    exact ⟨wbuf, (Except.ok.inj h).symm⟩

/-- A call without `done` does what `SyncCall` does. -/
theorem callMethod_plain : Loop.map base <$> w.callMethod protocol call false writes reads =
    Loop.map SyncCall.bare <$> w.base.callMethod protocol call writes reads := by
  have same : (w.newSession protocol call false).base = w.base.newSession protocol call := rfl
  unfold callMethod SyncCall.callMethod
  simp only [same]
  split_ifs with long
  · rfl
  cases pack : (w.base.newSession protocol call).packRequest with
  | error f => rfl
  | ok c =>
      obtain ⟨wbuf, rfl⟩ := newRequest_wbuf pack
      simp only [bind, Except.bind]
      cases wrote : SyncCall.written wbuf writes with
      | error f =>
          rw [SyncCall.run_writes_error wrote]
          rfl
      | ok b =>
          rw [SyncCall.run_writes wrote]
          by_cases taken : b.readable = 0 ∧ b.extraable = 0
          · simp only [taken, and_self, if_true]
            have loop := @run_plain { w.newSession protocol call false with
              conn := { (w.base.newSession protocol call).conn with wbuf := b } } reads false rfl
            change (run _ _ { w.base.newSession protocol call with
              conn := { (w.base.newSession protocol call).conn with wbuf := b } } reads) = _ at loop
            simp only [loop]
            cases readLoop _ reads with
            | error f => rfl
            | ok l => cases l <;> rfl
          · rw [if_neg taken]
            rfl

theorem written_faults {b : Buffer} : Faults (· = .aborted) (SyncCall.written b writes) := by
  induction writes generalizing b with
  | nil => exact faults_ok
  | cons r writes ih => exact Faults.bind writeFd_faults.map fun _ => ih

theorem sound_error (pointer : f ≠ .nullPointer) : Sound w done (.error f) where
  pointers h := pointer (Except.error.inj h)
  ended w' h := by cases h

theorem sound_inside : Sound w done (.ok (.inside w')) where
  pointers h := by cases h
  ended w'' h := by cases h

/-- A call in the synchronous branch keeps to its session exactly if it was given no `done`,
or the response does not come. -/
theorem syncBranch_sound_iff (w : SyncSession) (protocol : Protocol) (call : Call) (done : Bool)
    (writes : List (WriteResult × WriteResult)) (reads : List ReadResult) (quiet : w.Quiet)
    (branch : done = true → w.el = none) (fits : call.payload.length ≤ PbClient.maxPayload) :
    Sound w done (w.callMethod protocol call done writes reads) ↔
      done = false ∨ ¬ w.Replied protocol call writes reads := by
  have short : ¬ PbClient.maxPayload < call.payload.length := Nat.not_lt.mpr fits
  have made : (w.base.newSession protocol call).conn.ctx ≠ none := Option.some_ne_none _
  have same : (w.newSession protocol call done).base = w.base.newSession protocol call := rfl
  unfold callMethod Replied
  simp only [short, if_false, same, bind, Except.bind]
  cases pack : (w.base.newSession protocol call).packRequest with
  | error f =>
      exact iff_of_true (sound_error (parseFault_pointer (newRequest_faults made f pack)))
        (.inr not_false)
  | ok c =>
      obtain ⟨ctx, sevent⟩ := newRequest_conn pack
      simp only
      cases wrote : SyncCall.written c.conn.wbuf writes with
      | error f =>
          rw [SyncCall.run_writes_error wrote]
          refine iff_of_true (sound_error ?_) (.inr not_false)
          rw [written_faults f wrote]
          exact Fault.noConfusion
      | ok b =>
          rw [SyncCall.run_writes wrote]
          by_cases taken : b.readable = 0 ∧ b.extraable = 0
          · simp only [taken, and_self, if_true, true_and]
            have held : c.conn.ctx ≠ none := by rw [ctx]; exact made
            have still : w.el = none → c.conn.sevent = .none := fun alone => sevent.trans (quiet alone)
            cases done with
            | true =>
                have loop := @readLoop_closure
                  { w.newSession protocol call true with conn := { c.conn with wbuf := b } } reads rfl
                  held still (branch rfl)
                generalize readLoop _ reads = out at loop ⊢
                split_ifs at loop with replied
                · rw [loop]
                  refine iff_of_false (fun sound => sound.pointers rfl) ?_
                  rintro (h | h)
                  · cases h
                  · exact h replied
                · refine iff_of_true ?_ (.inr replied)
                  rcases out with f | w' | w'
                  · exact sound_error fun null => loop.1 (congrArg Except.error null)
                  · exact absurd rfl (loop.2 w')
                  · exact sound_inside
            | false =>
                have loop := @readLoop_plain
                  { w.newSession protocol call false with conn := { c.conn with wbuf := b } } reads rfl
                  held still
                refine iff_of_true ?_ (.inl rfl)
                generalize readLoop _ reads = out at loop ⊢
                rcases out with f | w' | w'
                · exact sound_error fun null => loop.1 (congrArg Except.error null)
                · obtain ⟨kept, deleted, ran⟩ := loop.2 w' rfl
                  refine ⟨fun h => (by cases h), fun w'' h => ?_⟩
                  cases h
                  refine ⟨?_, ran⟩
                  change w'.deleted + (if w'.conn.ctx = none then 0 else 1) = _
                  rw [if_neg kept, deleted]
                  rfl
                · exact sound_inside
          · rw [if_neg taken]
            exact iff_of_true sound_inside (.inr fun all => taken ⟨all.1, all.2.1⟩)

theorem closeCallback_quiet (quiet : w.Quiet) (h : w.closeCallback = .ok w') : w'.Quiet := by
  obtain ⟨c, updated, h⟩ := bind_ok.mp h
  cases h
  intro alone
  obtain ⟨before, sevent⟩ := (updateChannel_ok updated).2 alone
  exact sevent.trans (quiet before)

theorem readFd_quiet (quiet : w.Quiet) (h : w.readFd r = .ok w') : w'.Quiet := by
  cases read : Session.read ⟨w.conn.ctx, w.conn.rbuf⟩ r with
  | error f =>
      rw [readFd_fault read] at h
      cases h
  | ok result =>
      obtain ⟨status, s⟩ := result
      rw [readFd_ok read] at h
      split_ifs at h with success
      · cases hs : w.session with
        | none =>
            rw [hs] at h
            cases h
        | some session =>
            obtain ⟨ctx, hctx⟩ := Option.ne_none_iff_exists'.mp (read_ctx read)
            simp only [hs, responseCallback, hctx] at h
            obtain ⟨str, _, h⟩ := bind_ok.mp h
            split_ifs at h
            · exact closeCallback_quiet (w := clearSession { w with
                conn := { w.conn with ctx := some ctx, rbuf := s.buf }
                session := some { session with readResponseDone := true }, ran := w.ran + 1 }) quiet h
            · exact closeCallback_quiet (w := { w with
                conn := { w.conn with ctx := some ctx, rbuf := s.buf }
                session := some { session with readResponseDone := true } }) quiet h
      · cases h
        exact quiet

theorem readLoop_quiet {l : Loop SyncSession} (quiet : w.Quiet) (h : w.readLoop reads = .ok l)
    (left : l = .left w') : w'.Quiet := by
  induction reads generalizing w with
  | nil =>
      obtain ⟨waits, _, h⟩ := bind_ok.mp h
      subst left
      split_ifs at h
      · cases h
      · cases h
        exact quiet
  | cons r reads ih =>
      obtain ⟨waits, _, h⟩ := bind_ok.mp h
      split_ifs at h
      · obtain ⟨w₁, read, h⟩ := bind_ok.mp h
        exact ih (readFd_quiet quiet read) h
      · subst left
        cases h
        exact quiet

/-- A call that returns leaves the registration as it has to be for the next one. -/
theorem callMethod_quiet (quiet : w.Quiet)
    (h : w.callMethod protocol call done writes reads = .ok (.left w')) : w'.Quiet := by
  unfold callMethod at h
  split_ifs at h
  · cases h
    exact quiet
  obtain ⟨c, pack, h⟩ := bind_ok.mp h
  have sevent := (newRequest_conn pack).2
  obtain ⟨wrote, writing, h⟩ := bind_ok.mp h
  cases taken : SyncCall.written c.conn.wbuf writes with
  | error f =>
      rw [SyncCall.run_writes_error taken] at writing
      cases writing
  | ok b =>
      rw [SyncCall.run_writes taken] at writing
      split_ifs at writing
      · cases writing
        obtain ⟨l, loop, h⟩ := bind_ok.mp h
        cases l with
        | inside w₂ => cases h
        | left w₂ =>
            cases h
            have rest : w₂.Quiet := readLoop_quiet (w := { w.newSession protocol call done with
              conn := { c.conn with wbuf := b } }) (fun alone => sevent.trans (quiet alone)) loop rfl
            exact rest
      · cases writing
        cases h

/-- A client without an event loop, connected. -/
def client : SyncSession := { conn := { fd := 3 } }

/-- A response of two bytes that comes in two reads, the first of which ends in its status. -/
def twoReads : List ReadResult := [.data [0x19, 0x95, 0x10, 0x28, 0, 0, 0, 0, 0, 0],
  .data [0, 0, 0, 0, 0, 2, 104, 105]]

/-- Without `done` the response comes back; with it the call would go on with a session of
nobody. -/
theorem client_sound_iff :
    (Sound client false (client.callMethod .simple SyncCall.echo false [(.wrote 25, .wrote 2)] twoReads) ↔
      false = false ∨ ¬ client.Replied .simple SyncCall.echo [(.wrote 25, .wrote 2)] twoReads) ∧
    (Sound client true (client.callMethod .simple SyncCall.echo true [(.wrote 25, .wrote 2)] twoReads) ↔
      true = false ∨ ¬ client.Replied .simple SyncCall.echo [(.wrote 25, .wrote 2)] twoReads) :=
  ⟨syncBranch_sound_iff client .simple SyncCall.echo false _ _ (fun _ => rfl) (fun _ => rfl) (by decide +kernel),
    syncBranch_sound_iff client .simple SyncCall.echo true _ _ (fun _ => rfl) (fun _ => rfl) (by decide +kernel)⟩

/-- The response to a call without an event loop, given a `done`. -/
theorem closure_not_sound : ¬ ∀ (w : SyncSession) (protocol : Protocol) (call : Call) (done : Bool)
    (writes : List (WriteResult × WriteResult)) (reads : List ReadResult), w.Quiet →
    (done = true → w.el = none) → call.payload.length ≤ PbClient.maxPayload →
    Sound w done (w.callMethod protocol call done writes reads) := by
  intro claim
  have sound := claim client .simple SyncCall.echo true [(.wrote 25, .wrote 2)]
    [.data [0x19, 0x95, 0x10, 0x28, 0, 0, 0, 0, 0, 0, 0, 0, 0, 0, 0, 2, 104, 105]] (fun _ => rfl)
    (fun _ => rfl) (by decide +kernel)
  exact sound.pointers (by decide +kernel)

end SyncSession
end SmallRpc
