import SmallRpc.Exchanges

/-! Calls over a connection that is kept open return what the services compute, one after
the other: every move of either side keeps the two in step. -/
namespace SmallRpc
open Runs Lifetime
open Buffer (ReadResult WriteResult HeadFirst wireBytes)

namespace SyncCall
variable {w w' : SyncCall} {protocol : Protocol} {call : Call} {r : ReadResult} {n : Int} {rbuf : Buffer}
  {s : Session} {ctx : AnyContext} {bytes : Bytes}

theorem newSession_packRequest (h : (w.newSession protocol call).packRequest = .ok w') :
    ∃ wbuf, (protocol.calling call).packRequest w.conn.wbuf.clear = .ok wbuf ∧
      w' = { w with
        conn := { w.conn with rbuf := w.conn.rbuf.clear, wbuf, ctx := some (protocol.calling call) }
        readResponseDone := false
        parseError := false } := by
  obtain ⟨wbuf, packed, made⟩ := bind_ok.mp h
  exact ⟨wbuf, packed, (Except.ok.inj made).symm⟩

theorem writeFd_sent {r : WriteResult × WriteResult} (h : w.writeFd r = .ok w') :
    ∃ t wbuf pieces, w.conn.wbuf.writeFd r.1 r.2 = .ok (t, wbuf, pieces) ∧
      w' = { w with conn := { w.conn with wbuf } } ∧ w.sent r = wireBytes w.conn.wbuf pieces := by
  obtain ⟨⟨t, wbuf, pieces⟩, write, made⟩ := bind_ok.mp h
  refine ⟨t, wbuf, pieces, write, (Except.ok.inj made).symm, ?_⟩
  simp only [sent, write]

theorem readFd_waits (read : w.conn.rbuf.readFd r = .ok (n, rbuf))
    (parse : Session.parseResponse ⟨w.conn.ctx, rbuf⟩ = .ok (.noEnoughData, s)) :
    w.readFd r = .ok { w with conn := { w.conn with ctx := s.ctx, rbuf := s.buf } } := by
  unfold readFd
  rw [read]
  change dataReadCallback _ = _
  unfold dataReadCallback
  cases hctx : w.conn.ctx with
  | none =>
      rw [hctx] at parse
      cases parse
  | some ctx =>
      rw [hctx] at parse
      change ctx.parseResponse rbuf = _ at parse
      simp only [parse]
      rfl

/-- With the response the flag is set; a client without a loop has nothing to unregister. -/
theorem readFd_takes (read : w.conn.rbuf.readFd r = .ok (n, rbuf))
    (parse : Session.parseResponse ⟨w.conn.ctx, rbuf⟩ = .ok (.success, s)) (hctx : s.ctx = some ctx)
    (str : ctx.base.payloadView.str s.buf = .ok bytes) (sevent : w.conn.sevent = .none) :
    w.readFd r = .ok { w with
      conn := { w.conn with ctx := s.ctx, rbuf := s.buf, event := .none }
      readResponseDone := true } := by
  unfold readFd
  rw [read]
  change dataReadCallback _ = _
  unfold dataReadCallback
  cases hctx' : w.conn.ctx with
  | none =>
      rw [hctx'] at parse
      cases parse
  | some ctx' =>
      rw [hctx'] at parse
      change ctx'.parseResponse rbuf = _ at parse
      simp only [parse, bind, Except.bind, hctx, responseCallback, str, closeCallback, updateChannel, sevent,
        if_true]

end SyncCall

/-- A response has bytes. -/
theorem responseBytes_ne_nil (answer : AnyContext) : answer.responseBytes ≠ [] := by
  cases answer with
  | simple ctx => simp [AnyContext.responseBytes, SimpleContext.responsePieces, ← List.length_eq_zero_iff]
  | http ctx =>
      intro none
      have first := congrArg List.length none
      have line : (ascii "HTTP/1.1 200 OK\r\n").length = 17 := by decide
      simp only [AnyContext.responseBytes, HTTPContext.responsePieces, List.flatten_cons,
        List.length_append, line, List.length_nil] at first
      omega

namespace Dialogue
section
variable {σ : Type} (srv : PbServer) (service : Service σ) (protocol : Protocol)

/-- The server is ready for a request, of which `w` has been received; or its last response
is written, and the completion is to come. -/
def Ready (w : Bytes) (l : Lifetime) : Prop :=
  Between srv protocol w l ∨ w = [] ∧ During srv protocol [] l ∧ Registered l

/-- Where the two sides stand: no call; a call of which `w` has been received and `m` is to be
written; or a call that has been dispatched, of whose response `v` has been received and
`left` is to be written. -/
inductive Joint (d : Dialogue σ) : Prop
  | idle : d.call = none → d.up = [] → d.down = [] → 0 < d.client.conn.rbuf.data.length →
      0 < d.client.conn.wbuf.data.length → (Gone d.server ∨ Ready srv protocol [] d.server) →
      d.server.served = d.returned.map (·.1.request) → d.answers = d.returned.map Prod.snd → Joint d
  | asking {call : Call} {w m : Bytes} : d.call = some call → protocol.Carries call →
      Hears call [] protocol ⟨d.client.conn.ctx, d.client.conn.rbuf⟩ → d.client.conn.wbuf.Outgoing m →
      d.down = [] → (Gone d.server ∨ Ready srv protocol w d.server ∧
        w ++ d.up ++ m = (protocol.calling call).requestBytes) →
      d.server.served = d.returned.map (·.1.request) → d.answers = d.returned.map Prod.snd → Joint d
  | answered {call : Call} {answer : AnyContext} {v left payload : Bytes} : d.call = some call →
      Answers protocol payload answer → payload.length < 2 ^ 31 →
      Hears call v protocol ⟨d.client.conn.ctx, d.client.conn.rbuf⟩ → d.client.conn.wbuf.Outgoing [] →
      d.up = [] → v ++ d.down ++ left = answer.responseBytes → d.down ++ left ≠ [] →
      (Gone d.server ∨ (During srv protocol left d.server ∧
        (left = answer.responseBytes ∨ Registered d.server)) ∨ left = [] ∧ Between srv protocol [] d.server) →
      d.server.served = d.returned.map (·.1.request) ++ [call.request] →
      d.answers = d.returned.map Prod.snd ++ [payload] → Joint d

/-- What holds between a client and a server all along. -/
structure Conversing (object : σ) (d : Dialogue σ) : Prop where
  alone : d.client.conn.sevent = .none
  turn : ∀ c, d.server.conn = some c → Turn srv d.server c
  sourced : Sourced srv d.server
  kept : d.object = service.after object d.server.served
  answers : d.answers = service.replies object d.server.served
  joint : Joint srv protocol d

end

variable {σ : Type} {srv : PbServer} {service : Service σ} {protocol : Protocol} {d d' : Dialogue σ}
  {object : σ} {call : Call} {r : WriteResult × WriteResult} {m : SmallRpc.Move} {fd fd' : Nat}

/-- Between the client and the wire only these fields matter. -/
theorem Joint.congr (h : Joint srv protocol d) (client : d'.client = d.client) (call : d'.call = d.call)
    (returned : d'.returned = d.returned) (up : d'.up = d.up) (down : d'.down = d.down)
    (server : d'.server = d.server) (answers : d'.answers = d.answers) : Joint srv protocol d' := by
  cases h with
  | idle none noUp noDown read write side served same =>
      exact .idle (call.trans none) (up.trans noUp) (down.trans noDown) (client ▸ read) (client ▸ write)
        (server ▸ side) (by rw [server, served, returned]) (by rw [answers, same, returned])
  | asking some carries hears out noDown side served same =>
      exact .asking (call.trans some) carries (client ▸ hears) (client ▸ out) (down.trans noDown)
        (by rw [server, up]; exact side) (by rw [server, served, returned]) (by rw [answers, same, returned])
  | answered some answer small hears out noUp whole more side served same =>
      exact .answered (call.trans some) answer small (client ▸ hears) (client ▸ out) (up.trans noUp)
        (by rw [down]; exact whole) (by rw [down]; exact more) (server ▸ side) (by rw [server, served, returned])
        (by rw [answers, same, returned])

theorem Conversing.failed (h : Conversing srv service protocol object d) (f : Fault) :
    Conversing srv service protocol object { d with failed := some f } :=
  ⟨h.alone, h.turn, h.sourced, h.kept, h.answers, h.joint.congr rfl rfl rfl rfl rfl rfl rfl⟩

/-- A move of the client that does not fail leaves the server alone. -/
theorem Conversing.client {x : Except Fault (Dialogue σ)} (h : Conversing srv service protocol object d)
    (moves : ∀ d', x = .ok d' → d'.client.conn.sevent = .none ∧ d'.server = d.server ∧
      d'.object = d.object ∧ d'.answers = d.answers ∧ Joint srv protocol d') :
    Conversing srv service protocol object (d.fail x) := by
  cases x with
  | error f => exact h.failed f
  | ok d' =>
      obtain ⟨alone, server, same, answers, joint⟩ := moves d' rfl
      refine ⟨alone, ?_, ?_, ?_, ?_, joint⟩
      · change ∀ c, d'.server.conn = some c → Turn srv d'.server c
        rw [server]
        exact h.turn
      · change Sourced srv d'.server
        rw [server]
        exact h.sourced
      · change d'.object = service.after object d'.server.served
        rw [same, server]
        exact h.kept
      · change d'.answers = service.replies object d'.server.served
        rw [answers, server]
        exact h.answers

theorem conversing_call (h : Conversing srv service protocol object d)
    (enabled : d.Enabled srv service protocol (.call call)) :
    Conversing srv service protocol object (d.fail (d.begin protocol call)) := by
  obtain ⟨_, free, carries⟩ := enabled
  refine h.client fun d' begun => ?_
  obtain ⟨client, began, made⟩ := bind_ok.mp begun
  obtain rfl := Except.ok.inj made
  obtain ⟨wbuf, packed, rfl⟩ := SyncCall.newSession_packRequest began
  refine ⟨h.alone, rfl, rfl, rfl, ?_⟩
  cases h.joint with
  | idle _ up down read write side served same =>
      have empty := Buffer.cleared_clear read
      have out := packRequest_outgoing (Buffer.cleared_clear write) carries packed
      refine .asking (w := []) rfl carries (.start empty.wf empty.storage rfl) out down
        (side.imp_right fun ready => ⟨ready, ?_⟩) served same
      change [] ++ d.up ++ _ = _
      rw [up]
      rfl
  | asking some _ _ _ _ _ _ _ =>
      rw [free] at some
      cases some
  | answered some _ _ _ _ _ _ _ _ _ _ =>
      rw [free] at some
      cases some

theorem conversing_write (h : Conversing srv service protocol object d)
    (enabled : d.Enabled srv service protocol (.write r)) (guard : HeadFirst ⟨d.client.conn.wbuf, []⟩ r) :
    Conversing srv service protocol object (d.fail (d.write r)) := by
  obtain ⟨_, busy, unsent, possible⟩ := enabled
  refine h.client fun d' wrote => ?_
  obtain ⟨client, went, made⟩ := bind_ok.mp wrote
  obtain rfl := Except.ok.inj made
  obtain ⟨t, wbuf, pieces, write, rfl, sent⟩ := SyncCall.writeFd_sent went
  refine ⟨h.alone, rfl, rfl, rfl, ?_⟩
  cases h.joint with
  | idle none _ _ _ _ _ _ _ => exact absurd none busy
  | @asking call w m some carries hears out down side served same =>
      obtain ⟨m', split, out'⟩ := out.write write possible guard
      refine .asking (w := w) some carries hears out' down (side.imp_right ?_) served same
      rintro ⟨ready, whole⟩
      refine ⟨ready, ?_⟩
      change w ++ (d.up ++ d.client.sent r) ++ m' = _
      rw [sent, ← whole, split]
      simp only [List.append_assoc]
  | answered _ _ _ _ out _ _ _ _ _ _ =>
      have done := SyncCall.unsent_iff.mpr (out.done_iff.mp rfl)
      rw [done] at unsent
      cases unsent

/-- What a read brings to the parser. -/
theorem read_hears {w : SyncCall} {v : Bytes} {r : ReadResult} {n : Int} {rbuf : Buffer}
    (h : Hears call v protocol ⟨w.conn.ctx, w.conn.rbuf⟩) (possible : ReadPossible w.conn.rbuf r)
    (read : w.conn.rbuf.readFd r = .ok (n, rbuf)) :
    Hears call (v ++ r.bytes) protocol ⟨w.conn.ctx, rbuf⟩ := by
  have same : rbuf = w.conn.rbuf.recv r.bytes := by
    apply h.buffer.1.readFd_recv read
    rintro bs rfl
    exact possible.2
  rw [same]
  exact h.recv r.bytes

/-- A read that does not fail has a result to be parsed. -/
theorem read_ok {r : ReadResult} (read : d.read r = .ok d') :
    ∃ n rbuf, d.client.conn.rbuf.readFd r = .ok (n, rbuf) := by
  obtain ⟨_, went, _⟩ := bind_ok.mp read
  obtain ⟨⟨n, rbuf⟩, first, _⟩ := bind_ok.mp went
  exact ⟨n, rbuf, first⟩

theorem read_waits {r : ReadResult} {client : SyncCall} (busy : d.call = some call)
    (readFd : d.client.readFd r = .ok client) (waiting : client.waiting = true) :
    d.read r = .ok { d with client, down := d.down.drop r.bytes.length } := by
  rw [read, readFd]
  change proceed _ = _
  simp only [proceed, busy, waiting, if_true]

theorem read_finishes {r : ReadResult} {client : SyncCall} {ctx : AnyContext} {bytes : Bytes}
    (busy : d.call = some call) (readFd : d.client.readFd r = .ok client) (done : client.waiting = false)
    (hctx : client.conn.ctx = some ctx) (str : ctx.base.payloadView.str client.conn.rbuf = .ok bytes) :
    d.read r = .ok { d with client := { client with conn := { client.conn with ctx := none } }
                            call := none, returned := d.returned ++ [(call, bytes)]
                            down := d.down.drop r.bytes.length } := by
  rw [read, readFd]
  change proceed _ = _
  simp only [proceed, busy, done, Bool.false_eq_true, if_false, finish, hctx, str]
  rfl

/-- A response that has not begun is waited for. -/
theorem hears_nothing {s : Session} (h : Hears call [] protocol s) :
    ∃ s', s.parseResponse = .ok (.noEnoughData, s') ∧ Hears call [] protocol s' := by
  let answer := protocol.newContext.modify fun c => { c with rpcStatus := some .ok }
  have proto : answer.protocol = protocol := by
    cases protocol <;> rfl
  have base : answer.base.rpcStatus = some .ok ∧ answer.base.payload = [] := by
    cases protocol <;> exact ⟨rfl, rfl⟩
  refine h.waits (v := answer.responseBytes) proto base.1 ?_ rfl (responseBytes_ne_nil _) ?_
  · rw [base.2]
    decide
  · cases protocol with
    | simple =>
        rintro ⟨enough, _⟩
        exact absurd enough (by decide)
    | http => exact id

/-- With the last byte of its response a call returns. -/
theorem read_returns {r : ReadResult} {n : Int} {rbuf : Buffer} {answer : AnyContext} {v payload : Bytes}
    (alone : d.client.conn.sevent = .none) (busy : d.call = some call) (answers : Answers protocol payload answer)
    (small : payload.length < 2 ^ 31) (hears : Hears call v protocol ⟨d.client.conn.ctx, d.client.conn.rbuf⟩)
    (possible : ReadPossible d.client.conn.rbuf r) (read : d.client.conn.rbuf.readFd r = .ok (n, rbuf))
    (whole : v ++ r.bytes = answer.responseBytes) :
    ∃ client : SyncCall, client.conn.sevent = .none ∧ client.conn.wbuf = d.client.conn.wbuf ∧
      0 < client.conn.rbuf.data.length ∧ d.read r = .ok { d with
        client, call := none, returned := d.returned ++ [(call, payload)], down := d.down.drop r.bytes.length } := by
  have hears := read_hears hears possible read
  have small' : answer.base.payload.length < 2 ^ 31 := by
    rw [answers.payload]
    exact small
  obtain ⟨s', ctx, parse, hctx, storage, str⟩ := hears.takes answers.protocol answers.rpcStatus small' whole
  have returns := read_finishes busy (SyncCall.readFd_takes read parse hctx str alone) rfl hctx str
  rw [answers.payload] at returns
  refine ⟨_, ?_, ?_, ?_, returns⟩
  · exact alone
  · rfl
  · exact storage

/-- A read of the client that does not fail leaves it waiting or is the last of its call. -/
theorem joint_read {r : ReadResult} {n : Int} {rbuf : Buffer} (h : Conversing srv service protocol object d)
    (enabled : d.Enabled srv service protocol (.read r))
    (guard : ∀ reply ∈ d.answers.getLast?,
      ¬ protocol.CutsResponse reply.length (d.client.conn.rbuf.windex + r.bytes.length))
    (read : d.client.conn.rbuf.readFd r = .ok (n, rbuf)) :
    ∃ d', d.read r = .ok d' ∧ d'.client.conn.sevent = .none ∧ d'.server = d.server ∧ d'.object = d.object ∧
      d'.answers = d.answers ∧ Joint srv protocol d' := by
  obtain ⟨_, busy, _, waiting, possible, arrived⟩ := enabled
  cases h.joint with
  | idle none _ _ _ _ _ _ _ => exact absurd none busy
  | @asking call w m some carries hears out down side served same =>
      rw [down] at arrived
      have none : r.bytes = [] := List.prefix_nil.mp arrived
      have hears := read_hears hears possible read
      rw [none] at hears
      obtain ⟨s', parse, hears⟩ := hears_nothing hears
      refine ⟨_, read_waits some (SyncCall.readFd_waits read parse) waiting, h.alone, rfl, rfl, rfl,
        .asking some carries hears out ?_ side served same⟩
      change d.down.drop _ = []
      rw [down, List.drop_nil]
  | @answered call answer v left payload some answers small hears out up whole more side served same =>
      obtain ⟨down', arrived⟩ := arrived
      have dropped : d.down.drop r.bytes.length = down' := by
        rw [← arrived, List.drop_left]
      rw [← arrived, ← List.append_assoc v, List.append_assoc] at whole
      by_cases more : down' ++ left = []
      · obtain ⟨noDown, noLeft⟩ := List.append_eq_nil_iff.mp more
        rw [more, List.append_nil] at whole
        obtain ⟨client, alone, wbuf, storage, returns⟩ :=
          read_returns h.alone some answers small hears possible read whole
        refine ⟨_, returns, alone, rfl, rfl, rfl, .idle rfl up ?_ storage (wbuf ▸ out.storage) ?_ ?_ ?_⟩
        · change d.down.drop _ = []
          rw [dropped, noDown]
        · refine side.imp_right ?_
          rw [noLeft]
          rintro (⟨during, registered⟩ | ⟨_, between⟩)
          · exact .inr ⟨rfl, during, registered.resolve_left (responseBytes_ne_nil _).symm⟩
          · exact .inl between
        · change d.server.served = (d.returned ++ [(call, payload)]).map (·.1.request)
          rw [served, List.map_append]
          rfl
        · change d.answers = (d.returned ++ [(call, payload)]).map Prod.snd
          rw [same, List.map_append]
          rfl
      · have uncut : ¬ protocol.CutsResponse answer.base.payload.length (v ++ r.bytes).length := by
          have last : payload ∈ d.answers.getLast? := by
            rw [same]
            simp
          have uncut := guard payload last
          rw [hears.buffer.2] at uncut
          rw [answers.payload, List.length_append]
          exact uncut
        have small' : answer.base.payload.length < 2 ^ 31 := by
          rw [answers.payload]
          exact small
        obtain ⟨s', parse, hears'⟩ := (read_hears hears possible read).waits answers.protocol answers.rpcStatus
          small' whole more uncut
        refine ⟨_, read_waits some (SyncCall.readFd_waits read parse) waiting, h.alone, rfl, rfl, rfl,
          .answered some answers small hears' out up ?_ ?_ side served same⟩
        · change v ++ r.bytes ++ d.down.drop _ ++ left = _
          rw [dropped, List.append_assoc, ← whole]
        · change d.down.drop _ ++ left ≠ []
          rwa [dropped]

theorem conversing_read {r : ReadResult} (h : Conversing srv service protocol object d)
    (enabled : d.Enabled srv service protocol (.read r))
    (guard : ∀ reply ∈ d.answers.getLast?,
      ¬ protocol.CutsResponse reply.length (d.client.conn.rbuf.windex + r.bytes.length)) :
    Conversing srv service protocol object (d.fail (d.read r)) := by
  refine h.client fun d' went => ?_
  obtain ⟨n, rbuf, read⟩ := read_ok went
  obtain ⟨_, went', joint⟩ := joint_read h enabled guard read
  obtain rfl := Except.ok.inj (went.symm.trans went')
  exact joint

section
variable {events : Events} {io : SocketResults} {reply : Answer} {l' : Lifetime} {w left : Bytes}

/-- A connection that waits to be written to is not read from. -/
theorem registered_deaf {l : Lifetime} (h : Registered l) (enabled : l.Enabled srv (.event events io reply)) :
    events.epollin = false := by
  obtain ⟨_, _, _, c, hc, reported, _⟩ := enabled
  by_contra hin
  have reading := reported.2.1 (Bool.eq_true_of_not_eq_false hin)
  rw [h c hc] at reading
  cases reading

/-- What a guarded read of the server finds. -/
theorem honest_read (enabled : d.server.Enabled srv (.event events io reply))
    (honest : d.Honest srv service (.event events io reply))
    (guard : d.Whole protocol (.server (.event events io reply))) (hin : events.epollin = true) :
    io.read = .eof ∨ io.read = .failed ∨ ∃ bs, bs ≠ [] ∧ io.read = .data bs ∧ bs <+: d.up := by
  obtain ⟨_, _, _, c, hc, _, possible, _⟩ := enabled
  have offers := honest.1 hin
  cases hr : io.read with
  | eof => exact .inl rfl
  | failed => exact .inr (.inl rfl)
  | again => exact absurd hr ((guard c hc).1 hin).1
  | data bs =>
      rw [hr] at offers possible
      exact .inr (.inr ⟨bs, possible.1, rfl, offers⟩)

theorem honest_taken (honest : d.Honest srv service m) : taken m <+: d.up := by
  cases m with
  | event events io reply =>
      rw [taken_event]
      split_ifs with hin
      · have offers := honest.1 hin
        cases hr : io.read with
        | data bs =>
            rw [hr] at offers
            exact offers
        | _ => exact List.nil_prefix
      · exact List.nil_prefix
  | _ => exact List.nil_prefix

theorem honest_ended (enabled : d.server.Enabled srv (.event events io reply))
    (honest : d.Honest srv service (.event events io reply))
    (guard : d.Whole protocol (.server (.event events io reply))) (up : d.up = [])
    (hin : events.epollin = true) : io.read = .eof ∨ io.read = .failed := by
  rcases honest_read enabled honest guard hin with hr | hr | ⟨bs, some, _, arrived⟩
  · exact .inl hr
  · exact .inr hr
  · rw [up] at arrived
    exact absurd (List.prefix_nil.mp arrived) some

/-- Nothing is read while a request has not been answered. -/
theorem joint_reads (h : Conversing srv service protocol object d) (enabled : d.server.Enabled srv m)
    (honest : d.Honest srv service m) (guard : d.Whole protocol (.server m))
    (step : Step srv d.server m l') (reads : Reads d.server m) : ¬ d.server.Unwritten := by
  cases m with
  | event events io reply =>
      obtain ⟨hin, noEof, noFail, _⟩ := reads
      have nothing : d.up ≠ [] := by
        intro up
        rcases honest_ended enabled honest guard up hin with eof | failed
        · exact noEof eof
        · exact noFail failed
      cases h.joint with
      | idle _ up _ _ _ _ _ _ => exact absurd up nothing
      | answered _ _ _ _ _ up _ _ _ _ _ => exact absurd up nothing
      | asking _ _ _ _ _ side _ _ =>
          rcases side with gone | ⟨between | ⟨_, _, registered⟩, _⟩
          · exact absurd rfl ((gone_step gone h.sourced step).2.2 events io reply)
          · exact between.answered
          · rw [registered_deaf registered enabled] at hin
            cases hin
  | _ => exact reads.elim

/-- The last response is written; all that can come of it is its completion. -/
theorem written_step {l : Lifetime} (during : During srv protocol [] l) (registered : Registered l)
    (turn : ∀ c, l.conn = some c → Turn srv l c) (sourced : Sourced srv l) (step : Step srv l m l')
    (guard : ∀ events io reply c, m = .event events io reply → l.conn = some c →
      events.epollin = false → HeadFirst ⟨c.wbuf, []⟩ (io.head, io.extra) ∧
        TCPConnection.Coupled { conn := c } io) :
    l.sent m = [] ∧ l'.packs.length = l.packs.length ∧ (Gone l' ∨ Ready srv protocol [] l') := by
  have deaf : ∀ events io reply, m = .event events io reply → events.epollin = true →
      io.read = .eof ∨ io.read = .failed := by
    rintro events io reply rfl hin
    rw [registered_deaf registered step.2.1] at hin
    cases hin
  obtain ⟨left', split, packs, after⟩ := during_step [0] during (.inr registered) turn sourced step
    deaf guard
  obtain ⟨none, rfl⟩ := List.append_eq_nil_iff.mp split.symm
  refine ⟨none, packs, after.imp_right ?_⟩
  rintro (⟨during, whole | registered⟩ | ⟨_, between⟩)
  · cases whole
  · exact .inr ⟨rfl, during, registered⟩
  · exact .inl between

/-- A request that is dispatched is the last, and is answered with what the service computes. -/
theorem honest_reply {pack : Pack} (honest : d.Honest srv service (.event events io reply))
    (packs : (d.server.next srv (.event events io reply)).packs = d.server.packs ++ [pack]) :
    d.server.asked srv (.event events io reply) = [pack.request] ∧
      reply.respStr = (service.serve d.object pack.request).1 := by
  have asked : d.server.asked srv (.event events io reply) = [pack.request] := by
    rw [Lifetime.asked, packs, List.drop_left]
    rfl
  refine ⟨asked, honest.2 _ ?_⟩
  rw [asked]
  exact List.mem_singleton_self _

theorem honest_small {pack : Pack} (honest : d.Honest srv service m) (hm : m = .event events io reply)
    (packs : (d.server.next srv m).packs = d.server.packs ++ [pack]) : reply.respStr.length < 2 ^ 31 := by
  subst hm
  rw [(honest_reply honest packs).2]
  exact service.small _ _

theorem whole_writes {c : TCPConnection} (guard : d.Whole protocol (.server m))
    (hm : m = .event events io reply) (hc : d.server.conn = some c) :
    events.epollin = false → HeadFirst ⟨c.wbuf, []⟩ (io.head, io.extra) ∧
      TCPConnection.Coupled { conn := c } io := by
  subst hm
  exact (guard c hc).2

theorem sent_other {l : Lifetime} (noEvent : ∀ events io reply, m ≠ .event events io reply) :
    l.sent m = [] := by
  cases m with
  | event events io reply => exact absurd rfl (noEvent events io reply)
  | _ => rfl

/-- A move by which nothing is dispatched. -/
theorem serve_still (service : Service σ) (step : Step srv d.server m (d.server.next srv m))
    (packs : (d.server.next srv m).packs.length = d.server.packs.length) :
    (d.serve srv service m).server.served = d.server.served ∧ (d.serve srv service m).answers = d.answers := by
  have asked : d.server.asked srv m = [] := by
    rw [Lifetime.asked, ← packs, List.drop_length, List.map_nil]
  constructor
  · have served := served_step step
    change _ = d.server.served ++ d.server.asked srv m at served
    rw [asked, List.append_nil] at served
    exact served
  · change d.answers ++ service.replies d.object (d.server.asked srv m) = _
    rw [asked]
    exact List.append_nil _

/-- With nothing on its way, a server between two requests stays there. -/
theorem idle_step (h : Conversing srv service protocol object d) (between : Between srv protocol [] d.server)
    (enabled : d.server.Enabled srv m) (honest : d.Honest srv service m)
    (guard : d.Whole protocol (.server m)) (up : d.up = [])
    (step : Step srv d.server m (d.server.next srv m)) : d.server.sent m = [] ∧
      (d.server.next srv m).packs.length = d.server.packs.length ∧
        (Gone (d.server.next srv m) ∨ Between srv protocol [] (d.server.next srv m)) := by
  have none : taken m = [] := by
    have arrived := honest_taken honest
    rw [up] at arrived
    exact List.prefix_nil.mp arrived
  obtain ⟨heard, quiet⟩ := between_step ⟨.short, [], [], []⟩ between h.turn h.sourced step
    (by
      rintro events io reply rfl hin
      rcases honest_ended enabled honest guard up hin with hr | hr
      · rw [hr]
        exact ⟨nofun, nofun⟩
      · rw [hr]
        exact ⟨nofun, nofun⟩) fun _ _ _ _ => honest_small honest
  refine ⟨quiet, ?_⟩
  cases heard with
  | gone gone packs => exact ⟨packs, .inl gone⟩
  | more between packs =>
      rw [none] at between
      exact ⟨packs, .inr between⟩
  | dispatched _ whole _ _ _ _ =>
      rw [none] at whole
      have long := protocol.requestBytes_length ⟨.short, [], [], []⟩
      rw [← whole] at long
      cases long

/-- What the server reads while the client is asking belongs to the request, and a guarded read
cuts it nowhere. -/
theorem asking_meant {m' : Bytes} (between : Between srv protocol w d.server)
    (enabled : d.server.Enabled srv (.event events io reply))
    (honest : d.Honest srv service (.event events io reply))
    (guard : d.Whole protocol (.server (.event events io reply))) (hin : events.epollin = true)
    (some : d.call = some call) (carries : protocol.Carries call)
    (whole : w ++ d.up ++ m' = (protocol.calling call).requestBytes) :
    io.read ≠ .again ∧ ∀ bs, io.read = .data bs → protocol.Carries call ∧
      (∃ v, w ++ bs ++ v = (protocol.calling call).requestBytes) ∧
      ¬ protocol.CutsRequest call (w ++ bs).length := by
  obtain ⟨rest, _, _, c, hc, _, _⟩ := id enabled
  have uncut := ((guard c hc).1 hin).2 call some
  rw [between.windex rest.1 hc] at uncut
  rcases honest_read enabled honest guard hin with hr | hr | ⟨bs, _, hr, more, arrived⟩
  · rw [hr]
    exact ⟨nofun, nofun⟩
  · rw [hr]
    exact ⟨nofun, nofun⟩
  · rw [hr] at uncut ⊢
    refine ⟨nofun, ?_⟩
    rintro bs' hbs
    obtain rfl := Buffer.ReadResult.data.inj hbs
    refine ⟨carries, ⟨more ++ m', ?_⟩, ?_⟩
    · rw [← whole, ← arrived]
      simp only [List.append_assoc]
    · rw [List.length_append]
      exact uncut

/-- A server that has all of a call behind it, or has not heard of one. -/
theorem joint_idle (h : Conversing srv service protocol object d) (enabled : d.server.Enabled srv m)
    (honest : d.Honest srv service m) (guard : d.Whole protocol (.server m))
    (step : Step srv d.server m (d.server.next srv m)) (free : d.call = none) (up : d.up = [])
    (down : d.down = []) (read : 0 < d.client.conn.rbuf.data.length)
    (write : 0 < d.client.conn.wbuf.data.length) (side : Gone d.server ∨ Ready srv protocol [] d.server)
    (same : d.server.served = d.returned.map (·.1.request)) (got : d.answers = d.returned.map Prod.snd) :
    Joint srv protocol (d.serve srv service m) := by
  have after : d.server.sent m = [] ∧ (d.server.next srv m).packs.length = d.server.packs.length ∧
      (Gone (d.server.next srv m) ∨ Ready srv protocol [] (d.server.next srv m)) := by
    rcases side with gone | between | ⟨_, during, registered⟩
    · obtain ⟨gone', packs, noEvent⟩ := gone_step gone h.sourced step
      exact ⟨sent_other noEvent, packs, .inl gone'⟩
    · obtain ⟨quiet, packs, after⟩ := idle_step h between enabled honest guard up step
      exact ⟨quiet, packs, after.imp_right .inl⟩
    · exact written_step during registered h.turn h.sourced step fun _ _ _ _ => whole_writes guard
  obtain ⟨quiet, packs, after⟩ := after
  obtain ⟨served', answers'⟩ := serve_still service step packs
  refine .idle free ?_ ?_ read write after (served'.trans same) (answers'.trans got)
  · change d.up.drop _ = []
    rw [up, List.drop_nil]
  · change d.down ++ d.server.sent m = []
    rw [down, quiet]
    rfl

theorem joint_asking {m' : Bytes} (h : Conversing srv service protocol object d)
    (enabled : d.server.Enabled srv m) (honest : d.Honest srv service m)
    (guard : d.Whole protocol (.server m)) (step : Step srv d.server m (d.server.next srv m))
    (some : d.call = some call) (carries : protocol.Carries call)
    (hears : Hears call [] protocol ⟨d.client.conn.ctx, d.client.conn.rbuf⟩)
    (out : d.client.conn.wbuf.Outgoing m') (down : d.down = [])
    (side : Gone d.server ∨ Ready srv protocol w d.server ∧
      w ++ d.up ++ m' = (protocol.calling call).requestBytes)
    (same : d.server.served = d.returned.map (·.1.request)) (got : d.answers = d.returned.map Prod.snd) :
    Joint srv protocol (d.serve srv service m) := by
  -- whatever dispatches nothing leaves the client asking
  have stays : ∀ {x : Bytes}, (d.server.next srv m).packs.length = d.server.packs.length →
      d.server.sent m = [] → (Gone (d.server.next srv m) ∨ Ready srv protocol x (d.server.next srv m) ∧
        x ++ (d.serve srv service m).up ++ m' = (protocol.calling call).requestBytes) →
      Joint srv protocol (d.serve srv service m) := by
    intro x packs quiet side
    obtain ⟨served', answers'⟩ := serve_still service step packs
    refine .asking some carries hears out ?_ side (served'.trans same) (answers'.trans got)
    change d.down ++ d.server.sent m = []
    rw [down, quiet]
    rfl
  obtain ⟨up', arrived⟩ := honest_taken honest
  have dropped : (d.serve srv service m).up = up' := by
    change d.up.drop (taken m).length = up'
    rw [← arrived, List.drop_left]
  rcases side with gone | ⟨between | ⟨rfl, during, registered⟩, whole⟩
  · obtain ⟨gone', packs, noEvent⟩ := gone_step gone h.sourced step
    exact stays (x := []) packs (sent_other noEvent) (.inl gone')
  · have meant : ∀ events io reply, m = .event events io reply → events.epollin = true →
        io.read ≠ .again ∧ ∀ bs, io.read = .data bs → protocol.Carries call ∧
          (∃ v, w ++ bs ++ v = (protocol.calling call).requestBytes) ∧
          ¬ protocol.CutsRequest call (w ++ bs).length := by
      rintro events io reply rfl hin
      exact asking_meant between enabled honest guard hin some carries whole
    obtain ⟨heard, quiet⟩ := between_step call between h.turn h.sourced step meant fun _ _ _ _ => honest_small honest
    rw [← arrived, ← List.append_assoc, List.append_assoc] at whole
    cases heard with
    | gone gone packs => exact stays (x := []) packs quiet (.inl gone)
    | more between packs =>
        refine stays packs quiet (.inr ⟨.inl between, ?_⟩)
        rw [dropped, List.append_assoc]
        exact whole
    | @dispatched pack events io reply answer hm all packs request answers during =>
        have small := honest_small honest hm packs
        subst hm
        obtain ⟨asked, replied⟩ := honest_reply honest packs
        have served := served_step step
        change _ = d.server.served ++ d.server.asked srv _ at served
        rw [← all] at whole
        obtain ⟨noUp, noMore⟩ := List.append_eq_nil_iff.mp (List.self_eq_append_right.mp whole.symm)
        rw [noMore] at out
        refine .answered some answers small hears out (dropped.trans noUp) ?_ ?_ (.inr (.inl ⟨during, .inl rfl⟩))
          ?_ ?_
        · change [] ++ (d.down ++ d.server.sent _) ++ _ = _
          rw [down, quiet]
          rfl
        · exact fun none => responseBytes_ne_nil answer (List.append_eq_nil_iff.mp none).2
        · change (d.server.next srv _).served = _
          rw [served, asked, same, request]
          rfl
        · change d.answers ++ service.replies d.object (d.server.asked srv _) = _
          rw [asked, got, replied]
          rfl
  · obtain ⟨quiet, packs, after⟩ := written_step during registered h.turn h.sourced step
      fun _ _ _ _ => whole_writes guard
    refine stays (x := []) packs quiet (after.imp_right fun ready => ⟨ready, ?_⟩)
    have none : taken m = [] := by
      cases m with
      | event events io reply =>
          rw [taken_event, registered_deaf registered enabled]
          rfl
      | _ => rfl
    rw [none] at arrived
    rw [dropped, ← whole, ← arrived]
    rfl

theorem joint_answered {answer : AnyContext} {v payload : Bytes}
    (h : Conversing srv service protocol object d) (enabled : d.server.Enabled srv m)
    (honest : d.Honest srv service m) (guard : d.Whole protocol (.server m))
    (step : Step srv d.server m (d.server.next srv m)) (some : d.call = some call)
    (answers : Answers protocol payload answer) (small : payload.length < 2 ^ 31)
    (hears : Hears call v protocol ⟨d.client.conn.ctx, d.client.conn.rbuf⟩)
    (out : d.client.conn.wbuf.Outgoing []) (up : d.up = [])
    (whole : v ++ d.down ++ left = answer.responseBytes) (more : d.down ++ left ≠ [])
    (side : Gone d.server ∨ (During srv protocol left d.server ∧
      (left = answer.responseBytes ∨ Registered d.server)) ∨ left = [] ∧ Between srv protocol [] d.server)
    (same : d.server.served = d.returned.map (·.1.request) ++ [call.request])
    (got : d.answers = d.returned.map Prod.snd ++ [payload]) :
    Joint srv protocol (d.serve srv service m) := by
  have after : ∃ left', left = d.server.sent m ++ left' ∧
      (d.server.next srv m).packs.length = d.server.packs.length ∧
      (Gone (d.server.next srv m) ∨ (During srv protocol left' (d.server.next srv m) ∧
        (left' = answer.responseBytes ∨ Registered (d.server.next srv m))) ∨
        left' = [] ∧ Between srv protocol [] (d.server.next srv m)) := by
    rcases side with gone | ⟨during, started⟩ | ⟨rfl, between⟩
    · obtain ⟨gone', packs, noEvent⟩ := gone_step gone h.sourced step
      exact ⟨left, by rw [sent_other noEvent]; rfl, packs, .inl gone'⟩
    · have ended : ∀ events io reply, m = .event events io reply → events.epollin = true →
          io.read = .eof ∨ io.read = .failed := by
        rintro events io reply rfl hin
        exact honest_ended enabled honest guard up hin
      exact during_step _ during started h.turn h.sourced step ended fun _ _ _ _ => whole_writes guard
    · obtain ⟨quiet, packs, after⟩ := idle_step h between enabled honest guard up step
      exact ⟨[], by rw [quiet]; rfl, packs, after.imp_right fun between => .inr ⟨rfl, between⟩⟩
  obtain ⟨left', split, packs, after⟩ := after
  obtain ⟨served', answers'⟩ := serve_still service step packs
  refine .answered some answers small hears out ?_ ?_ ?_ after (served'.trans same) (answers'.trans got)
  · change d.up.drop _ = []
    rw [up, List.drop_nil]
  · change v ++ (d.down ++ d.server.sent m) ++ left' = _
    rw [← whole, split]
    simp only [List.append_assoc]
  · change d.down ++ d.server.sent m ++ left' ≠ []
    rwa [List.append_assoc, ← split]

/-- What a move of the server makes of the two sides. -/
theorem conversing_serve (h : Conversing srv service protocol object d)
    (enabled : d.Enabled srv service protocol (.server m)) (guard : d.Whole protocol (.server m)) :
    Conversing srv service protocol object (d.serve srv service m) := by
  obtain ⟨fine, enabled, honest⟩ := enabled
  have step : Step srv d.server m (d.server.next srv m) := ⟨fine, enabled, rfl⟩
  have served := served_step step
  change _ = d.server.served ++ d.server.asked srv m at served
  refine ⟨h.alone, turn_step h.turn (joint_reads h enabled honest guard step) step, sourced_step h.sourced step,
    ?_, ?_, ?_⟩
  · change service.after d.object (d.server.asked srv m) = service.after object (d.server.next srv m).served
    rw [served, Service.after_append, h.kept]
  · change d.answers ++ service.replies d.object (d.server.asked srv m) =
      service.replies object (d.server.next srv m).served
    rw [served, Service.replies_append, h.answers, h.kept]
  · cases h.joint with
    | idle free up down read write side same got =>
        exact joint_idle h enabled honest guard step free up down read write side same got
    | asking some carries hears out down side same got =>
        exact joint_asking h enabled honest guard step some carries hears out down side same got
    | answered some answers small hears out up whole more side same got =>
        exact joint_answered h enabled honest guard step some answers small hears out up whole more side same got

end

theorem conversing_start {o : σ} (offered : protocol ∈ srv.protocols) :
    Conversing srv service protocol o (connected srv fd fd' o) := by
  refine ⟨rfl, turn_start, sourced_start, rfl, rfl, ?_⟩
  exact .idle rfl rfl rfl initial_storage initial_storage (.inr (.inl (between_accepted offered)))
    rfl rfl

theorem conversing_step {a : Action} (h : Conversing srv service protocol object d)
    (guard : d.Whole protocol a) (step : (dialogue srv service protocol fd fd' object).step d a d') :
    Conversing srv service protocol object d' := by
  obtain ⟨enabled, rfl⟩ := step
  cases a with
  | call call => exact conversing_call h enabled
  | write r => exact conversing_write h enabled guard
  | read r => exact conversing_read h enabled guard
  | server m => exact conversing_serve h enabled guard

theorem conversing_run {es : List (Dialogue σ × Action)}
    (run : Run (dialogue srv service protocol fd fd' object) es d) (offered : protocol ∈ srv.protocols)
    (guarded : Guarded (Whole protocol) es) : Conversing srv service protocol object d := by
  apply run.invariant guarded
  · rintro _ rfl
    exact conversing_start offered
  · exact conversing_step

/-- Services that number their answers. -/
def numbering : Service Nat where
  serve n request := (request.payload.take 3 ++ [UInt8.ofNat n], n + 1)
  small n request := by
    simp only [List.length_append, List.length_take, List.length_singleton]
    omega

/-- A server of both protocols. -/
def eitherServer : PbServer :=
  { protocols := [.http, .simple], services := [(ascii "Echo", [ascii "echo"])], parses := fun _ => true
    async := true }

def echo (payload : Bytes) : Call :=
  { connType := .single, service := ascii "Echo", method := ascii "echo", payload }

/-- Call number `n` on the connection, from its first byte to its return. The completion of the
server is over only after the client has returned. -/
def exchange (n : Nat) (payload reply : Bytes) : List Action :=
  let bytes := (Protocol.simple.calling (echo payload)).requestBytes
  let back := ((Protocol.simple.calling (echo payload)).modify fun c =>
    { c with rpcStatus := some .ok, payload := reply }).responseBytes
  let turn : List Action := [.server .swap, .server (.drain [] []), .server .poll]
  [.call (echo payload), .write (.wrote 25, .wrote payload.length),
    .server (.event { epollin := true } { read := .data (bytes.take 10) } {})] ++ turn ++
  .server (.event { epollin := true } { read := .data (bytes.drop 10) } { respStr := reply, later := true }) ::
    List.replicate 6 (.server (.respond n)) ++
  [.server .swap, .server .func, .server (.drain [] []), .server .poll,
    .server (.event { epollout := true } { head := .wrote 16, extra := .wrote reply.length } {}),
    .read (.data (back.take 9)), .server .stmt, .read (.data (back.drop 9)),
    .server .stmt, .server .stmt, .server .stmt] ++ turn

/-- Two calls on one connection. -/
def talk : List Action :=
  List.replicate 6 (.server .setup) ++ exchange 0 [1, 2] [1, 2, 7] ++ exchange 1 [3] [3, 8]

abbrev talking : Dialogue Nat → Action → Dialogue Nat := next eitherServer numbering .simple

def opened : Dialogue Nat := connected eitherServer 3 5 7

theorem talk_run : Run (dialogue eitherServer numbering .simple 3 5 7) (visits talking opened talk)
    (replay talking opened talk) :=
  ⟨opened, rfl, path_replay (E := fun d a => d.Enabled eitherServer numbering .simple a)
    (by intro d a enabled; exact ⟨enabled, rfl⟩) (by decide +kernel)⟩

theorem talk_whole : Guarded (Whole .simple) (visits talking opened talk) := by
  decide +kernel

/-- The calls of a client come back with what the services compute for them, one after the
other, whatever the threads of the server do in between. -/
theorem calls_served {es : List (Dialogue σ × Action)}
    (run : Run (dialogue srv service protocol fd fd' object) es d) (offered : protocol ∈ srv.protocols)
    (guarded : Guarded (Whole protocol) es) :
    d.returned.map Prod.snd = service.replies object (d.returned.map (·.1.request)) := by
  have h := conversing_run run offered guarded
  have answers := h.answers
  cases h.joint with
  | idle _ _ _ _ _ _ served got => rw [← got, ← served, answers]
  | asking _ _ _ _ _ _ served got => rw [← got, ← served, answers]
  | answered _ _ _ _ _ _ _ _ _ served got =>
      rw [served, got, Service.replies_append] at answers
      exact (List.append_inj' answers rfl).1

theorem talk_served : (replay talking opened talk).returned.map Prod.snd = [[1, 2, 7], [3, 8]] := by
  rw [calls_served talk_run (by decide) talk_whole]
  decide +kernel

/-- Every call reaches the services once, in the order in which the client makes them. -/
theorem calls_reach_once {es : List (Dialogue σ × Action)}
    (run : Run (dialogue srv service protocol fd fd' object) es d) (offered : protocol ∈ srv.protocols)
    (guarded : Guarded (Whole protocol) es) :
    d.server.served = d.returned.map (·.1.request) ∨ ∃ call, d.call = some call ∧
      d.server.served = d.returned.map (·.1.request) ++ [call.request] := by
  cases (conversing_run run offered guarded).joint with
  | idle _ _ _ _ _ _ served _ => exact .inl served
  | asking _ _ _ _ _ _ served _ => exact .inl served
  | answered some _ _ _ _ _ _ _ _ served _ => exact .inr ⟨_, some, served⟩

theorem talk_reached_once :
    let d := replay talking opened talk
    d.server.served = d.returned.map (·.1.request) ∨ ∃ call, d.call = some call ∧
      d.server.served = d.returned.map (·.1.request) ++ [call.request] :=
  calls_reach_once talk_run (by decide) talk_whole

end Dialogue
end SmallRpc
