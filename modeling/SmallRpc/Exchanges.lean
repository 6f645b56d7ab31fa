import SmallRpc.Dialogue

/-! The server's side of a call: between two requests it takes in the next one, and during
one it gives out the response, byte for byte, whatever else its threads and its loop do. -/
namespace SmallRpc.Lifetime
open Runs
open Buffer (HeadFirst wireBytes)

/-- Of the next request `w` has been received, once the callback that runs is through. -/
structure Between (srv : PbServer) (protocol : Protocol) (w : Bytes) (l : Lifetime) : Prop where
  answered : ¬ l.Unwritten
  listens : ∀ c, l.conn = some c → ∀ k, handled l.agenda c.stock = .ok k →
    srv.Listens protocol w c.protoIdx ⟨k.ctx, k.rbuf⟩ ∧ k.wbuf.Cleared

/-- This is left to be written of the response, once it is packed. -/
structure During (srv : PbServer) (protocol : Protocol) (left : Bytes) (l : Lifetime) : Prop where
  unwritten : l.Unwritten
  settled : ∀ c, l.conn = some c → protocol ∈ srv.protocols.drop c.protoIdx
  outgoing : ∃ earlier pack, l.packs = earlier ++ [pack] ∧ ∀ c, l.conn = some c →
    ∀ k, handled pack.todo c.stock = .ok k → k.wbuf.Outgoing left ∧ 0 < k.rbuf.data.length

/-- The connection is registered for writing. -/
def Registered (l : Lifetime) : Prop := ∀ c, l.conn = some c → c.sevent = .epollout

/-- A response with this payload. -/
structure Answers (protocol : Protocol) (payload : Bytes) (answer : AnyContext) : Prop where
  protocol : answer.protocol = protocol
  rpcStatus : answer.base.rpcStatus = some .ok
  payload : answer.base.payload = payload

/-- What a move makes of a server that has received `w`. -/
inductive Heard (srv : PbServer) (protocol : Protocol) (call : Call) (w : Bytes) (l : Lifetime)
    (m : SmallRpc.Move) (l' : Lifetime) : Prop
  | gone : Gone l' → l'.packs.length = l.packs.length → Heard srv protocol call w l m l'
  | more : Between srv protocol (w ++ taken m) l' → l'.packs.length = l.packs.length →
      Heard srv protocol call w l m l'
  | dispatched {pack : Pack} {events : Events} {io : SocketResults} {reply : Answer}
      {answer : AnyContext} : m = .event events io reply →
      w ++ taken m = (protocol.calling call).requestBytes → l'.packs = l.packs ++ [pack] →
      pack.request = call.request → Answers protocol reply.respStr answer →
      During srv protocol answer.responseBytes l' → Heard srv protocol call w l m l'

variable {srv : PbServer} {protocol : Protocol} {l l' : Lifetime} {c c' d : TCPConnection} {s : Stmt}
  {m : SmallRpc.Move} {w left : Bytes} {call : Call} {events : Events} {io : SocketResults}
  {reply : Answer} {k j : Stock} {b : Buffer} {todo : List Stmt} {earlier : List Pack} {pack : Pack} {fd : Nat}

theorem unwritten_congr (packs : l'.packs.length = l.packs.length) (written : l'.written = l.written) :
    l'.Unwritten ↔ l.Unwritten := by
  unfold Unwritten
  rw [packs, written]

theorem Idle.answered_all (h : Idle l) : ¬ l.Unwritten := by
  rintro ⟨n, inside, missing⟩
  exact missing ((h.answered n).mp inside)

theorem step_ok {t : Lifetime} (step : Step srv l m l') (h : l.effect srv m = .ok t) : l' = t := by
  obtain ⟨_, _, rfl⟩ := step
  simp only [next, h]

theorem step_error {f : Fault} (step : Step srv l m l') (h : l.effect srv m = .error f) :
    l' = { l with fault := some f } := by
  obtain ⟨_, _, rfl⟩ := step
  simp only [next, h]

/-- Nothing is read only at the end of the file. -/
theorem readFd_zero {r : Buffer.ReadResult} {n : Int} {rbuf : Buffer} (possible : ReadPossible b r)
    (read : b.readFd r = .ok (n, rbuf)) (hn : n = 0) : r = .eof := by
  by_contra noEof
  have noFail : r ≠ .failed := by
    rintro rfl
    cases read
  obtain ⟨k, rbuf', read', some⟩ := readFd_of_reads possible noEof noFail
  obtain ⟨rfl, _⟩ := Prod.mk.inj (Except.ok.inj (read.symm.trans read'))
  exact some hn

theorem not_gone (fine : l.fault = none) (hc : l.conn = some c) (rest : l.agenda = []) : ¬ Gone l := by
  rintro (fault | none | delete)
  · exact fault fine
  · cases hc.symm.trans none
  · rw [rest] at delete
    cases delete

/-- What has just been dispatched is not written. -/
theorem Idle.unwritten_push (h : Idle l) (packs : l'.packs = l.packs ++ [pack])
    (written : l'.written = l.written) : l'.Unwritten := by
  refine ⟨l.packs.length, ?_, fun missing => ?_⟩
  · rw [packs, List.length_append]
    exact Nat.lt_add_one _
  · rw [written] at missing
    exact absurd ((h.answered _).mpr missing) (Nat.lt_irrefl _)

/-- A connection that is there and stays has its turn. -/
theorem turn_of (turn : ∀ c, l.conn = some c → Turn srv l c) (here : ¬ Gone l) :
    ∃ c, l.conn = some c ∧ ((Idle l ∧ Quiet (settleAll l.agenda (c.event, c.sevent))) ∨
      ∃ earlier pack, Serving srv l c earlier pack) := by
  cases hc : l.conn with
  | none => exact absurd (.inr (.inl hc)) here
  | some c =>
      refine ⟨c, rfl, ?_⟩
      cases turn c hc with
      | leaving delete => exact absurd (.inr (.inr delete)) here
      | free idle quiet _ => exact .inl ⟨idle, quiet⟩
      | serving earlier serving => exact .inr ⟨_, _, serving⟩

/-- A statement does the same to the rest whatever is in the read buffer. -/
theorem on_rbuf (h : s.on { k with rbuf := b } = .ok j) : ∃ i, s.on k = .ok i ∧
    j = { i with rbuf := j.rbuf } ∧
      (k.rbuf.data.length ≤ b.data.length → i.rbuf.data.length ≤ j.rbuf.data.length) := by
  cases s
  case setRpcStatus | setPayload respStr =>
      change Stock.withContext _ _ = _ at h
      unfold Stock.withContext at h
      cases hctx : k.ctx with
      | none =>
          simp only [hctx] at h
          cases h
      | some ctx =>
          simp only [hctx] at h
          obtain rfl := Except.ok.inj h
          refine ⟨{ k with ctx := some _ }, ?_, rfl, id⟩
          change Stock.withContext _ _ = _
          simp only [Stock.withContext, hctx]
  case packResponse n =>
      change Stock.packResponse _ = _ at h
      unfold Stock.packResponse at h
      cases hctx : k.ctx with
      | none =>
          simp only [hctx] at h
          cases h
      | some ctx =>
          simp only [hctx] at h
          obtain ⟨wbuf, packed, done⟩ := bind_ok.mp h
          obtain rfl := Except.ok.inj done
          refine ⟨{ k with wbuf }, ?_, ?_, id⟩
          · change Stock.packResponse _ = _
            simp only [Stock.packResponse, hctx, packed]
            rfl
          · simp only [hctx]
  all_goals
    obtain rfl := Except.ok.inj h
    exact ⟨_, rfl, rfl, id⟩

theorem handled_rbuf (h : handled todo { k with rbuf := b } = .ok j) : ∃ i, handled todo k = .ok i ∧
    j = { i with rbuf := j.rbuf } ∧
      (k.rbuf.data.length ≤ b.data.length → i.rbuf.data.length ≤ j.rbuf.data.length) := by
  induction todo generalizing k b with
  | nil =>
      obtain rfl := Except.ok.inj h
      exact ⟨k, rfl, rfl, id⟩
  | cons s todo ih =>
      rw [handled, List.foldlM_cons] at h
      obtain ⟨j₁, first, others⟩ := bind_ok.mp h
      obtain ⟨i₁, same, rfl', storage⟩ := on_rbuf first
      rw [rfl'] at others
      obtain ⟨i, done, same', storage'⟩ := ih others
      exact ⟨i, (handled_cons same).trans done, same', fun bytes => storage' (storage bytes)⟩

/-- What the last pack still has to do is settled by each of its statements. -/
theorem between_did (h : Between srv protocol w l) (idle : Idle l) (sourced : Sourced srv l)
    (did : Did l l') : Gone l' ∨ Between srv protocol w l' := by
  have quiet : ∀ {s}, s.inert = true → Worked s l l' → l'.agenda = l.agenda →
      l'.packs.length = l.packs.length → l'.written = l.written → Between srv protocol w l' := by
    intro s inert work agenda packs written
    refine ⟨(unwritten_congr packs written).not.mpr h.answered, fun c' hc' k hk => ?_⟩
    obtain ⟨_, c, hc, on, protoIdx, _⟩ := work c' hc'
    rw [Stmt.on_inert inert] at on
    rw [agenda, ← Except.ok.inj on] at hk
    rw [protoIdx]
    exact h.listens c hc k hk
  cases did with
  | gone gone _ => exact .inl gone
  | kept inert _ work agenda packs written => exact .inr (quiet inert work agenda (by rw [packs]) written)
  | stmt hs work agenda packs written =>
      refine .inr ⟨(unwritten_congr (by rw [packs]) written).not.mpr h.answered, fun c' hc' k hk => ?_⟩
      obtain ⟨_, c, hc, on, protoIdx, _⟩ := work c' hc'
      rw [agenda, ← handled_cons on, ← hs] at hk
      rw [protoIdx]
      exact h.listens c hc k hk
  | @respond n pack s rest hp hs work agenda packs written =>
      have mem := List.mem_of_getElem? hp
      obtain ⟨_, _, suffix⟩ := sourced.todo pack mem
      have inert := minor_inert suffix (idle.todo pack mem) s (by rw [hs]; exact List.mem_cons_self)
      exact .inr (quiet inert work agenda (by rw [packs, List.length_set]) written)

theorem during_did (h : During srv protocol left l) (serving : Serving srv l c earlier pack)
    (sourced : Sourced srv l) (did : Did l l') : Gone l' ∨ During srv protocol left l' := by
  have outgoing : ∀ c, l.conn = some c → ∀ k, handled pack.todo c.stock = .ok k →
      k.wbuf.Outgoing left ∧ 0 < k.rbuf.data.length := by
    obtain ⟨_, last, packs, outgoing⟩ := h.outgoing
    obtain ⟨_, same⟩ := List.append_inj' (packs.symm.trans serving.packs) rfl
    obtain rfl := (List.cons.inj same).1
    exact outgoing
  have settled : ∀ {s}, Worked s l l' → ∀ c', l'.conn = some c' →
      protocol ∈ srv.protocols.drop c'.protoIdx := by
    intro s work c' hc'
    obtain ⟨_, c, hc, _, protoIdx, _⟩ := work c' hc'
    rw [protoIdx]
    exact h.settled c hc
  have quiet : ∀ {s}, s.inert = true → Worked s l l' → ∀ c', l'.conn = some c' →
      ∀ k, handled pack.todo c'.stock = .ok k → k.wbuf.Outgoing left ∧ 0 < k.rbuf.data.length := by
    intro s inert work c' hc' k hk
    obtain ⟨_, c, hc, on, _⟩ := work c' hc'
    rw [Stmt.on_inert inert] at on
    rw [← Except.ok.inj on] at hk
    exact outgoing c hc k hk
  cases did with
  | gone gone _ => exact .inl gone
  | kept inert _ work _ packs written =>
      exact .inr ⟨(unwritten_congr (by rw [packs]) written).mpr h.unwritten, settled work,
        earlier, pack, packs.trans serving.packs, quiet inert work⟩
  | stmt hs _ _ _ _ =>
      rw [serving.agenda] at hs
      cases hs
  | @respond n p s rest hp hs work _ packs written =>
      have unwritten : l'.Unwritten :=
        (unwritten_congr (by rw [packs, List.length_set]) written).mpr h.unwritten
      rw [serving.packs] at hp packs
      by_cases hn : n < earlier.length
      · rw [List.getElem?_append_left hn] at hp
        rw [List.set_append_left _ _ hn] at packs
        have mem := List.mem_of_getElem? hp
        obtain ⟨_, _, suffix⟩ := sourced.todo p (by rw [serving.packs]; exact List.mem_append_left _ mem)
        have inert := minor_inert suffix (serving.todo p mem) s (by rw [hs]; exact List.mem_cons_self)
        exact .inr ⟨unwritten, settled work, _, pack, packs, quiet inert work⟩
      · obtain rfl : n = earlier.length := by
          have hlt := (List.getElem?_eq_some_iff.mp hp).1
          rw [List.length_append, List.length_singleton] at hlt
          omega
        rw [List.getElem?_concat_length] at hp
        obtain rfl := Option.some.inj hp
        rw [List.set_append_right _ _ le_rfl, Nat.sub_self] at packs
        refine .inr ⟨unwritten, settled work, _, _, packs, fun c' hc' k hk => ?_⟩
        obtain ⟨_, c, hc, on, _⟩ := work c' hc'
        rw [← handled_cons on, ← hs] at hk
        exact outgoing c hc k hk

theorem modify_protocol {f : Context → Context} {ctx : AnyContext} :
    (ctx.modify f).protocol = ctx.protocol ∧ (ctx.modify f).base = f ctx.base := by
  cases ctx <;> exact ⟨rfl, rfl⟩

/-- With the dispatch it is settled what the response will be. -/
theorem during_start {ctx : AnyContext} {respStr : Bytes} {n : Nat} (hc : l'.conn = some c)
    (hctx : c.ctx = some ctx) (asks : Asks protocol call ctx c.rbuf) (cleared : c.wbuf.Cleared)
    (there : protocol ∈ srv.protocols.drop c.protoIdx) (small : respStr.length < 2 ^ 31)
    (unwritten : l'.Unwritten) (dispatched : l'.packs = earlier ++ [pack])
    (todo : pack.todo = srv.responseCallback n respStr) :
    ∃ answer, Answers protocol respStr answer ∧ During srv protocol answer.responseBytes l' := by
  let status (c : Context) : Context := { c with rpcStatus := some .ok }
  let payload (c : Context) : Context := { c with payload := respStr }
  have proto : ((ctx.modify status).modify payload).protocol = protocol := by
    rw [modify_protocol.1, modify_protocol.1]
    exact asks.protocol
  have base : ((ctx.modify status).modify payload).base = payload (status ctx.base) := by
    rw [modify_protocol.2, modify_protocol.2]
  generalize hanswer : (ctx.modify status).modify payload = answer at proto base
  refine ⟨answer, ⟨proto, by rw [base], by rw [base]⟩, unwritten, ?_, earlier, pack, dispatched, ?_⟩
  · intro d hd
    obtain rfl := Option.some.inj (hc.symm.trans hd)
    exact there
  · intro d hd k hk
    obtain rfl := Option.some.inj (hc.symm.trans hd)
    have status' : Stmt.setRpcStatus.on c.stock = .ok { c.stock with ctx := some (ctx.modify status) } := by
      change Stock.withContext _ _ = _
      simp only [Stock.withContext, TCPConnection.stock, hctx]
      rfl
    have payload' : (Stmt.setPayload respStr).on { c.stock with ctx := some (ctx.modify status) } =
        .ok { c.stock with ctx := some answer } := by
      subst hanswer
      rfl
    rw [todo, responseCallback_parts, List.cons_append, handled_cons (Stmt.on_inert rfl), List.cons_append,
      handled_cons status', List.cons_append, handled_cons payload', List.nil_append, handled,
      List.foldlM_cons] at hk
    obtain ⟨k', packs, rest⟩ := bind_ok.mp hk
    obtain ⟨wbuf, packed, done⟩ := bind_ok.mp packs
    obtain rfl := Except.ok.inj done
    have inert : ∀ s ∈ [Stmt.setEvent .epollout, .addFunc] ++
        PbServer.armTimer srv.writeTimeoutMs (.write n), s.inert = true := by
      simp only [List.cons_append, List.nil_append, List.forall_mem_cons]
      exact ⟨rfl, rfl, armTimer_inert⟩
    obtain rfl := Except.ok.inj ((handled_inert inert).symm.trans rest)
    refine ⟨packResponse_outgoing cleared ?_ packed, asks.storage⟩
    rw [base]
    exact small

theorem taken_event : taken (.event events io reply) = if events.epollin then io.read.bytes else [] := rfl

/-- A connection on which nothing is to be written handles a read or nothing. -/
theorem quiet_handles (quiet : Quiet (c.event, c.sevent)) (reported : Reported c events) :
    c.handleEvents events io = if events.epollin then do
      let (n, rbuf) ← c.rbuf.readFd io.read
      let conn := { c with rbuf }
      return { conn, call := conn.installed (if n = 0 then .close else .dataRead) }
    else .ok { conn := c } := by
  unfold TCPConnection.handleEvents
  split_ifs with hin hout
  · rfl
  · exact absurd (reported.2.2 hout) quiet.2
  · exact absurd (reported.2.2 hout) quiet.2
  · rfl

/-- A connection at rest between two requests has the next one in its hands. -/
theorem between_at (rest : l.agenda = []) (answered : ¬ l.Unwritten) (hc : l.conn = some c)
    (cleared : c.wbuf.Cleared) (listens : srv.Listens protocol w c.protoIdx ⟨c.ctx, c.rbuf⟩) :
    Between srv protocol w l := by
  refine ⟨answered, fun c' hc' k hk => ?_⟩
  obtain rfl := Option.some.inj (hc.symm.trans hc')
  rw [rest] at hk
  obtain rfl := Except.ok.inj hk
  exact ⟨listens, cleared⟩

/-- What has been received of the next request ends at the write index. -/
theorem Between.windex (h : Between srv protocol w l) (rest : l.agenda = []) (hc : l.conn = some c) :
    c.rbuf.windex = w.length := by
  have settled : handled l.agenda c.stock = .ok c.stock := by
    rw [rest]
    rfl
  exact (h.listens c hc c.stock settled).1.buffer.2.2

theorem dataRead_waits {m v : Bytes} (answered : ¬ l.Unwritten) (rest : l.agenda = [])
    (cleared : c.wbuf.Cleared) (listens : srv.Listens protocol w c.protoIdx ⟨c.ctx, c.rbuf⟩)
    (req : Requests call m protocol) (whole : w ++ v = m) (more : v ≠ [])
    (uncut : ¬ protocol.CutsRequest call w.length) :
    ∃ d, l.dataRead srv c reply = .ok (l.setConn d) ∧ Between srv protocol w (l.setConn d) := by
  obtain ⟨d, waits, listens'⟩ := listens.waits req whole more uncut
  have wbuf : d.wbuf = c.wbuf := by rw [dataReadCallback_parsed waits]
  refine ⟨d, ?_, between_at rest answered rfl (wbuf ▸ cleared) listens'⟩
  rw [dataRead, waits]
  rfl

/-- What becomes of the bytes of a read. -/
theorem dataRead_heard (idle : Idle l) (rest : l.agenda = []) (cleared : c.wbuf.Cleared)
    (listens : srv.Listens protocol w c.protoIdx ⟨c.ctx, c.rbuf⟩) (carries : protocol.Carries call)
    {v : Bytes} (whole : w ++ v = (protocol.calling call).requestBytes)
    (uncut : ¬ protocol.CutsRequest call w.length) (called : l.dataRead srv c reply = .ok l')
    (small : ∀ pack, l'.packs = l.packs ++ [pack] → reply.respStr.length < 2 ^ 31) :
    (Gone l' ∨ Between srv protocol w l') ∧ l'.packs.length = l.packs.length ∨
      ∃ pack answer, w = (protocol.calling call).requestBytes ∧ l'.packs = l.packs ++ [pack] ∧
        pack.request = call.request ∧ Answers protocol reply.respStr answer ∧
        During srv protocol answer.responseBytes l' := by
  by_cases hv : v = []
  · obtain ⟨⟨next, d⟩, parse, called⟩ := bind_ok.mp called
    have wbuf : d.wbuf = c.wbuf := by rw [dataReadCallback_parsed parse]
    rw [hv, List.append_nil] at whole
    obtain ⟨d', ctx, takes, hctx, asks, there⟩ := listens.takes (whole ▸ carries.requests)
    obtain ⟨rfl, rfl⟩ := Prod.mk.inj (Except.ok.inj (takes.symm.trans parse))
    obtain ⟨result, requested, called⟩ := bind_ok.mp called
    rw [PbServer.requestCallback, hctx] at requested
    obtain ⟨pbData, str, decided⟩ := bind_ok.mp requested
    obtain rfl := Except.ok.inj (asks.payload.symm.trans str)
    obtain rfl := Except.ok.inj decided
    split_ifs at called
    · obtain rfl := Except.ok.inj called
      have unwritten : Unwritten { l.setConn d' with packs := l.packs ++
          [⟨⟨ctx.base.service, ctx.base.method, call.payload⟩, reply.later,
            srv.responseCallback l.packs.length reply.respStr⟩] } := idle.unwritten_push rfl rfl
      obtain ⟨answer, answers, during⟩ := during_start rfl hctx asks (wbuf ▸ cleared) there
        (small _ rfl) unwritten rfl rfl
      refine .inr ⟨_, answer, whole, rfl, ?_, answers, during⟩
      rw [Call.request, ← asks.service, ← asks.method]
    · obtain rfl := Except.ok.inj called
      exact .inl ⟨.inl (.inr (.inr closeCallback_deletes)), rfl⟩
  · obtain ⟨d, waits, between⟩ :=
      dataRead_waits idle.answered_all rest cleared listens carries.requests whole hv uncut
    obtain rfl := Except.ok.inj (waits.symm.trans called)
    exact .inl ⟨.inr between, rfl⟩

/-- How an event between two requests is handled: it ends the connection, or what is read stays
in the buffer, or `data_read_callback` looks at it. -/
inductive Met (srv : PbServer) (protocol : Protocol) (w : Bytes) (c : TCPConnection) (events : Events)
    (io : SocketResults) (reply : Answer) (l l' : Lifetime) : Prop
  | ended : taken (.event events io reply) = [] → l'.packs.length = l.packs.length → Gone l' →
      events.epollin = true ∧ (io.read = .eof ∨ io.read = .failed) →
      Met srv protocol w c events io reply l l'
  | unseen : taken (.event events io reply) = [] ∨ .dataRead ∉ c.callbacks →
      l'.packs.length = l.packs.length → Between srv protocol (w ++ taken (.event events io reply)) l' →
      ¬ Gone l' → Met srv protocol w c events io reply l l'
  | seen {t : Lifetime} {d : TCPConnection} : events.epollin = true → io.read ≠ .eof → io.read ≠ .failed →
      .dataRead ∈ c.callbacks → Idle t → t.fault = none → t.agenda = [] → t.packs = l.packs → d.wbuf.Cleared →
      srv.Listens protocol (w ++ taken (.event events io reply)) d.protoIdx ⟨d.ctx, d.rbuf⟩ →
      l.effect srv (.event events io reply) = t.dataRead srv d reply →
      Met srv protocol w c events io reply l l'

theorem between_met (h : Between srv protocol w l) (idle : Idle l) (hc : l.conn = some c)
    (quiet : Quiet (settleAll l.agenda (c.event, c.sevent)))
    (step : Step srv l (.event events io reply) l') :
    Met srv protocol w c events io reply l l' ∧ l.sent (.event events io reply) = [] := by
  obtain ⟨rest, hphase, _, c', found, reported, possible⟩ := step.2.1
  have stays : ∀ d, ¬ Gone ({ l with phase := .handled }.setConn d) :=
    fun d => not_gone step.1 rfl rest.1
  obtain rfl := Option.some.inj (hc.symm.trans found)
  rw [rest.1] at quiet
  obtain ⟨listens, cleared⟩ := h.listens c hc c.stock (by rw [rest.1]; rfl)
  have handles : c.handleEvents events io = _ := quiet_handles quiet reported
  have quietly : l.sent (.event events io reply) = [] := by
    simp only [sent, hc]
    rw [handles]
    split_ifs
    · cases c.rbuf.readFd io.read with
      | error f => rfl
      | ok result => rfl
    · rfl
  refine ⟨?_, quietly⟩
  have done : l.effect srv (.event events io reply) = c.handleEvents events io >>= fun out =>
      Lifetime.call srv ({ l with phase := .handled }.setConn out.conn) out.conn reply out.call := by
    change handle srv { l with phase := .handled } events io reply = _
    have here : ({ l with phase := .handled } : Lifetime).conn = some c := hc
    rw [handle, withConn_some here]
  have take := @taken_event events io reply
  rw [handles] at done
  split_ifs at done take with hin
  swap
  · obtain rfl := step_ok step done
    refine .unseen (.inl take) rfl ?_ (stays c)
    rw [take, List.append_nil]
    exact between_at rest.1 h.answered rfl cleared listens
  cases read : c.rbuf.readFd io.read with
  | error f =>
      have failed : io.read = .failed := by
        cases hr : io.read with
        | failed => rfl
        | _ =>
            rw [hr] at read
            cases read
      rw [read] at done
      obtain rfl := step_error step done
      refine .ended ?_ rfl (.inl (Option.some_ne_none _)) ⟨hin, .inr failed⟩
      rw [take, failed]
      rfl
  | ok result =>
      obtain ⟨n, rbuf⟩ := result
      have same : rbuf = c.rbuf.recv io.read.bytes := by
        apply listens.buffer.1.readFd_recv read
        rintro bs hbs
        have room := possible.1
        rw [hbs] at room
        exact room.2
      have heard := listens.recv io.read.bytes
      change srv.Listens protocol _ c.protoIdx ⟨c.ctx, c.rbuf.recv io.read.bytes⟩ at heard
      rw [← same, ← take] at heard
      have more : Between srv protocol (w ++ taken (.event events io reply))
          ({ l with phase := .handled }.setConn { c with rbuf }) :=
        between_at rest.1 h.answered rfl cleared heard
      have called : l.effect srv (.event events io reply) =
          Lifetime.call srv ({ l with phase := .handled }.setConn { c with rbuf }) { c with rbuf } reply
            (({ c with rbuf } : TCPConnection).installed (if n = 0 then .close else .dataRead)) := by
        rw [done, read]
        rfl
      by_cases hn : n = 0
      · have eof := readFd_zero possible.1 read hn
        have none : taken (.event events io reply) = [] := by
          rw [take, eof]
          rfl
        simp only [hn, if_true] at called
        rcases installed_cases { c with rbuf } .close with ⟨hi, _⟩ | ⟨hi, _⟩
        · rw [hi] at called
          obtain rfl := step_ok step called
          exact .unseen (.inl none) rfl more (stays _)
        · rw [hi] at called
          obtain rfl := step_ok step called
          exact .ended none rfl (.inr (.inr closeCallback_deletes)) ⟨hin, .inl eof⟩
      · simp only [hn, if_false] at called
        rcases installed_cases { c with rbuf } .dataRead with ⟨hi, absent⟩ | ⟨hi, installed⟩
        · rw [hi] at called
          obtain rfl := step_ok step called
          exact .unseen (.inr absent) rfl more (stays _)
        · rw [hi] at called
          obtain ⟨noEof, noFail⟩ := readFd_bytes read hn
          have idle' : Idle ({ l with phase := .handled }.setConn { c with rbuf }) := by
            refine ⟨idle.answered, idle.packed, ?_, idle.agenda, idle.todo⟩
            have funcs := idle.funcs
            rw [funcsPending, hphase] at funcs
            exact funcs
          exact @Met.seen _ _ _ _ _ _ _ _ _ _ { c with rbuf } hin noEof noFail installed idle' step.1 rest.1 rfl
            cleared heard called

/-- An event between two requests: at most a piece of the next one. -/
theorem between_event (h : Between srv protocol w l) (idle : Idle l) (hc : l.conn = some c)
    (quiet : Quiet (settleAll l.agenda (c.event, c.sevent)))
    (step : Step srv l (.event events io reply) l')
    (ready : events.epollin = true → io.read ≠ .again)
    (meant : ∀ bs, events.epollin = true → io.read = .data bs → protocol.Carries call ∧
      (∃ v, w ++ bs ++ v = (protocol.calling call).requestBytes) ∧
      ¬ protocol.CutsRequest call (w ++ bs).length)
    (small : ∀ pack, l'.packs = l.packs ++ [pack] → reply.respStr.length < 2 ^ 31) :
    Heard srv protocol call w l (.event events io reply) l' ∧ l.sent (.event events io reply) = [] := by
  obtain ⟨met, quietly⟩ := between_met h idle hc quiet step
  refine ⟨?_, quietly⟩
  cases met with
  | ended _ packs gone _ => exact .gone gone packs
  | unseen _ packs between _ => exact .more between packs
  | @seen t d hin noEof noFail _ idle _ rest packs cleared heard called =>
      rcases step_effect step with done | ⟨f, rfl⟩
      swap
      · exact .gone (.inl (Option.some_ne_none _)) rfl
      rw [called] at done
      obtain ⟨bs, hbs⟩ : ∃ bs, io.read = .data bs := by
        cases hr : io.read with
        | data bs => exact ⟨bs, rfl⟩
        | eof => exact absurd hr noEof
        | again => exact absurd hr (ready hin)
        | failed => exact absurd hr noFail
      obtain ⟨carries, ⟨v, whole⟩, uncut⟩ := meant bs hin hbs
      have bytes : taken (.event events io reply) = bs := by
        rw [taken_event, if_pos hin, hbs]
        rfl
      rw [← bytes] at whole uncut
      rcases dataRead_heard idle rest cleared heard carries whole uncut done (packs ▸ small) with
        ⟨gone | between, same⟩ | ⟨pack, answer, all, pushed, request, answers, during⟩
      · exact .gone gone (same.trans (by rw [packs]))
      · exact .more between (same.trans (by rw [packs]))
      · exact .dispatched rfl all (packs ▸ pushed) request answers during

/-- A connection that waits to be written to has its response packed. -/
theorem Serving.writing (h : Serving srv l c earlier pack) (registered : c.sevent = .epollout) :
    AllMinor pack.todo ∧ l.packed = [earlier.length] ∧ c.event = .epollout := by
  have stage := h.stage
  generalize pack.todo = todo at stage
  generalize l.funcsPending = n at stage
  generalize he : (c.event, c.sevent) = e at stage
  generalize l.packed = packed at stage
  have waiting : e.2 = .epollout := by rw [← he]; exact registered
  cases stage with
  | computing _ _ quiet => exact absurd waiting quiet.2
  | packed _ quiet => exact absurd waiting quiet.2
  | wanted _ other => exact absurd waiting other
  | queued _ other => exact absurd waiting other
  | writing minor => exact ⟨minor, rfl, congrArg Prod.fst he⟩

/-- With the last byte of a response nothing is left to be written. -/
theorem Serving.written {t : Lifetime} (h : Serving srv l c earlier pack) (registered : c.sevent = .epollout)
    (packs : t.packs = l.packs) (written : t.written = l.written ++ l.packed) : ¬ t.Unwritten := by
  rintro ⟨n, inside, missing⟩
  rw [written, (h.writing registered).2.1, List.mem_append, List.mem_singleton, ← h.answered n] at missing
  rw [packs, h.packs, List.length_append, List.length_singleton] at inside
  omega

/-- On a connection that is kept, the write of the last byte leads to the next request. -/
theorem between_kept {t : Lifetime} {connType : ConnType} (kept : connType ≠ .short)
    (answered : ¬ t.Unwritten) (agenda : t.agenda = srv.writeCompleteCallback connType)
    (hc : t.conn = some c) (there : protocol ∈ srv.protocols.drop c.protoIdx)
    (read : 0 < c.rbuf.data.length) (write : 0 < c.wbuf.data.length) : Between srv protocol [] t := by
  rw [PbServer.writeCompleteCallback, if_neg kept] at agenda
  refine ⟨answered, fun d hd k hk => ?_⟩
  obtain rfl := Option.some.inj (hc.symm.trans hd)
  have inert : ∀ s ∈ [Stmt.setEvent .epollin, .updateChannel] ++
      PbServer.armTimer srv.readTimeoutMs .read, s.inert = true := by
    simp only [List.cons_append, List.nil_append, List.forall_mem_cons]
    exact ⟨rfl, rfl, armTimer_inert⟩
  have forgets : Stmt.deleteContext.on c.stock = .ok ⟨none, c.rbuf, c.wbuf⟩ := rfl
  have clears : Stmt.clearBuffers.on ⟨none, c.rbuf, c.wbuf⟩ =
      .ok ⟨none, c.rbuf.clear, c.wbuf.clear⟩ := rfl
  rw [agenda, List.cons_append, handled_cons forgets, List.cons_append, handled_cons clears,
    List.nil_append, handled_inert inert] at hk
  obtain rfl := Except.ok.inj hk
  have empty := Buffer.cleared_clear read
  exact ⟨.undecided there ⟨rfl, empty.wf, empty.storage, empty.unread, rfl⟩, Buffer.cleared_clear write⟩

/-- What the write of the last byte leads to. -/
theorem between_start {t : Lifetime} {connType : ConnType} (answered : ¬ t.Unwritten)
    (agenda : t.agenda = srv.writeCompleteCallback connType) (hc : t.conn = some c)
    (there : protocol ∈ srv.protocols.drop c.protoIdx) (read : 0 < c.rbuf.data.length)
    (write : 0 < c.wbuf.data.length) : Gone t ∨ Between srv protocol [] t := by
  by_cases kept : connType = .short
  · rw [PbServer.writeCompleteCallback, if_pos kept] at agenda
    refine .inl (.inr (.inr ?_))
    rw [agenda]
    exact List.mem_append_right _ closeCallback_deletes
  · exact .inr (between_kept kept answered agenda hc there read write)

/-- How the handling of an event during a request ends: there is nothing to read, and what
is written is the next part of the response. -/
inductive Sends (c : TCPConnection) (events : Events) (left : Bytes) : Handled → Prop
  | read (rbuf : Buffer) {call : Option Callback} : (call = none ∨ call = some .close) →
      c.rbuf.data.length ≤ rbuf.data.length → Sends c events left { conn := { c with rbuf }, call }
  | write {wbuf : Buffer} {sent : List Buffer.Piece} {left' : Bytes} {call : Option Callback} :
      events.epollout = true → left = wireBytes c.wbuf sent ++ left' → wbuf.Outgoing left' →
      (call = none ∨ call = some .writeComplete ∧ left' = []) →
      Sends c events left { conn := { c with wbuf }, call, sent }
  | other {call : Option Callback} : (call = none ∨ call = some .clientConn) →
      Sends c events left { conn := c, call }

theorem handleEvents_sends {out : Handled} (h : c.handleEvents events io = .ok out)
    (ended : events.epollin = true → io.read = .eof ∨ io.read = .failed)
    (outgoing : events.epollin = false → events.epollout = true → c.wbuf.Outgoing left)
    (possible : Possible c io)
    (guard : events.epollin = false → HeadFirst ⟨c.wbuf, []⟩ (io.head, io.extra) ∧
      TCPConnection.Coupled { conn := c } io) : Sends c events left out := by
  unfold TCPConnection.handleEvents at h
  split_ifs at h with hin hout connected
  · obtain ⟨⟨n, rbuf⟩, read, made⟩ := bind_ok.mp h
    obtain rfl := Except.ok.inj made
    rcases ended hin with eof | failed
    · rw [eof] at read
      obtain ⟨rfl, rfl⟩ := Prod.mk.inj (Except.ok.inj read)
      refine .read _ ?_ (Buffer.makeRoom_storage _)
      rw [if_pos rfl]
      rcases installed_cases { c with rbuf := c.rbuf.makeRoom } .close with ⟨hi, _⟩ | ⟨hi, _⟩
      · exact .inl hi
      · exact .inr hi
    · rw [failed] at read
      cases read
  · obtain ⟨⟨t, wbuf, sent⟩, write, made⟩ := bind_ok.mp h
    obtain rfl := Except.ok.inj made
    have out := outgoing (Bool.eq_false_iff.mpr hin) hout
    obtain ⟨first, coupled⟩ := guard (Bool.eq_false_iff.mpr hin)
    obtain ⟨left', same, out'⟩ := out.write write possible.2 first
    refine .write hout same out' ?_
    rcases installed_cases { c with wbuf } .writeComplete with ⟨hi, _⟩ | ⟨hi, installed⟩
    · rw [hi, ite_self]
      exact .inl rfl
    · rw [hi]
      split_ifs with empty
      · refine .inr ⟨rfl, out'.done_iff.mpr ⟨empty, ?_⟩⟩
        obtain ⟨readable, extraable⟩ := Buffer.writeFd_left write possible.2.1 possible.2.2
        have head : Buffer.headTaken c.wbuf io.head ≤ c.wbuf.readable := by
          unfold Buffer.headTaken
          split_ifs
          · exact Nat.zero_le _
          · exact possible.2.1
        have leaves : TCPConnection.HeadLeaves c.wbuf io.head := TCPConnection.headLeaves_iff.mpr (by omega)
        have all := leaves.extraLeaves_iff.mp (coupled connected installed leaves)
        omega
      · exact .inl rfl
  · obtain rfl := Except.ok.inj h
    refine .other ?_
    rcases installed_cases c .clientConn with ⟨hi, _⟩ | ⟨hi, _⟩
    · exact .inl hi
    · exact .inr hi
  · obtain rfl := Except.ok.inj h
    exact .other (.inl rfl)

/-- An event during a request: at most some more of the response goes out. -/
theorem during_event (h : During srv protocol left l) (serving : Serving srv l c earlier pack)
    (hc : l.conn = some c) (sourced : Sourced srv l) (step : Step srv l (.event events io reply) l')
    (ended : events.epollin = true → io.read = .eof ∨ io.read = .failed)
    (guard : events.epollin = false → HeadFirst ⟨c.wbuf, []⟩ (io.head, io.extra) ∧
      TCPConnection.Coupled { conn := c } io) :
    ∃ left', left = l.sent (.event events io reply) ++ left' ∧ l'.packs.length = l.packs.length ∧
      (Gone l' ∨ (During srv protocol left' l' ∧ (left' = left ∨ Registered l') ∧
        (Registered l → Registered l')) ∨ left' = [] ∧ Between srv protocol [] l') := by
  obtain ⟨rest, hphase, _, c', found, reported, possible⟩ := step.2.1
  obtain rfl := Option.some.inj (hc.symm.trans found)
  have outgoing : ∀ k, handled pack.todo c.stock = .ok k →
      k.wbuf.Outgoing left ∧ 0 < k.rbuf.data.length := by
    obtain ⟨_, last, packs, outgoing⟩ := h.outgoing
    obtain ⟨_, same⟩ := List.append_inj' (packs.symm.trans serving.packs) rfl
    obtain rfl := (List.cons.inj same).1
    exact outgoing c hc
  have stays : ∀ {d : TCPConnection} {left' : Bytes}, d.protoIdx = c.protoIdx →
      d.sevent = c.sevent → (left' = left ∨ c.sevent = .epollout) →
      (∀ k, handled pack.todo d.stock = .ok k → k.wbuf.Outgoing left' ∧ 0 < k.rbuf.data.length) →
      During srv protocol left' ({ l with phase := .handled }.setConn d) ∧
        (left' = left ∨ Registered ({ l with phase := .handled }.setConn d)) ∧
        (Registered l → Registered ({ l with phase := .handled }.setConn d)) := by
    intro d left' protoIdx sevent moved outgoing
    have registered : c.sevent = .epollout → Registered ({ l with phase := .handled }.setConn d) := by
      intro registered c' hc'
      obtain rfl := Option.some.inj hc'
      exact sevent.trans registered
    refine ⟨⟨h.unwritten, fun c' hc' => ?_, earlier, pack, serving.packs, fun c' hc' => ?_⟩,
      moved.imp_right registered, fun before => registered (before c hc)⟩
    · obtain rfl := Option.some.inj hc'
      rw [protoIdx]
      exact h.settled c hc
    · obtain rfl := Option.some.inj hc'
      exact outgoing
  have inert : c.sevent = .epollout → ∀ s ∈ pack.todo, s.inert = true := by
    intro registered
    obtain ⟨_, _, suffix⟩ := sourced.todo pack (by rw [serving.packs]; exact List.mem_append_right _ (by simp))
    exact minor_inert suffix (serving.writing registered).1
  have done : l.effect srv (.event events io reply) = c.handleEvents events io >>= fun out =>
      Lifetime.call srv ({ l with phase := .handled }.setConn out.conn) out.conn reply out.call := by
    change handle srv { l with phase := .handled } events io reply = _
    have here : ({ l with phase := .handled } : Lifetime).conn = some c := hc
    rw [handle, withConn_some here]
  have outcome := step_effect step
  rw [done] at outcome
  have quietly : ∀ {out}, c.handleEvents events io = .ok out → out.sent = [] →
      l.sent (.event events io reply) = [] := by
    intro out hout none
    simp only [sent, hc, hout, none]
    rfl
  cases hout : c.handleEvents events io with
  | error f =>
      rw [hout] at outcome
      rcases outcome with ok | ⟨f, rfl⟩
      · cases ok
      · refine ⟨left, ?_, rfl, .inl (.inl (Option.some_ne_none _))⟩
        simp only [sent, hc, hout]
        rfl
  | ok out =>
      rw [hout] at outcome
      change Lifetime.call srv _ _ reply out.call = .ok l' ∨ _ at outcome
      have packed : events.epollin = false → events.epollout = true → c.wbuf.Outgoing left := by
        intro _ epollout
        have inert := inert (reported.2.2 epollout)
        exact (outgoing _ (handled_inert inert)).1
      cases handleEvents_sends hout ended packed possible guard with
      | read rbuf callback longer =>
          have none := quietly hout rfl
          rcases outcome with called | ⟨f, rfl⟩
          · rcases callback with callback | callback
            · rw [callback] at called
              obtain rfl := Except.ok.inj called
              refine ⟨left, by rw [none]; rfl, rfl, .inr (.inl (stays rfl rfl (.inl rfl) fun k hk => ?_))⟩
              have hk : handled pack.todo { c.stock with rbuf } = .ok k := hk
              obtain ⟨i, before, same, storage⟩ := handled_rbuf hk
              obtain ⟨wbuf, read⟩ := outgoing i before
              rw [same]
              exact ⟨wbuf, read.trans_le (storage longer)⟩
            · rw [callback] at called
              obtain rfl := Except.ok.inj called
              exact ⟨left, by rw [none]; rfl, rfl, .inl (.inr (.inr closeCallback_deletes))⟩
          · exact ⟨left, by rw [none]; rfl, rfl, .inl (.inl (Option.some_ne_none _))⟩
      | @write wbuf pieces left' _ epollout split out' callback =>
          have inert := inert (reported.2.2 epollout)
          have some' : l.sent (.event events io reply) = wireBytes c.wbuf pieces := by
            simp only [sent, hc, hout]
          rw [some']
          refine ⟨left', split, ?_⟩
          rcases outcome with called | ⟨f, rfl⟩
          swap
          · exact ⟨rfl, .inl (.inl (Option.some_ne_none _))⟩
          rcases callback with callback | ⟨callback, none⟩
          · rw [callback] at called
            obtain rfl := Except.ok.inj called
            have registered := reported.2.2 epollout
            refine ⟨rfl, .inr (.inl (stays rfl rfl (.inr registered) fun k hk => ?_))⟩
            rw [handled_inert inert] at hk
            obtain rfl := Except.ok.inj hk
            exact ⟨out', (outgoing _ (handled_inert inert)).2⟩
          · rw [callback] at called
            obtain ⟨ctx, _, rfl⟩ := writeComplete_ok called
            refine ⟨rfl, ?_⟩
            have answered : ¬ Unwritten { l.setConn { c with wbuf } with
                phase := .handled, agenda := srv.writeCompleteCallback ctx.base.connType, packed := []
                written := l.written ++ l.packed } := serving.written (reported.2.2 epollout) rfl rfl
            rcases between_start answered rfl rfl (h.settled c hc) (outgoing _ (handled_inert inert)).2
              out'.storage with gone | between
            · exact .inl gone
            · exact .inr (.inr ⟨none, between⟩)
      | other callback =>
          have none := quietly hout rfl
          rcases outcome with called | ⟨f, rfl⟩
          · rcases callback with callback | callback
            · rw [callback] at called
              obtain rfl := Except.ok.inj called
              exact ⟨left, by rw [none]; rfl, rfl, .inr (.inl (stays rfl rfl (.inl rfl) outgoing))⟩
            · rw [callback] at called
              obtain rfl := Except.ok.inj called
              exact ⟨left, by rw [none]; rfl, rfl, .inr (.inl (stays rfl rfl (.inl rfl) outgoing))⟩
          · exact ⟨left, by rw [none]; rfl, rfl, .inl (.inl (Option.some_ne_none _))⟩

/-- Nothing but the completion ends the waiting for the socket to become writable. -/
theorem registered_did (h : Registered l) (serving : Serving srv l c earlier pack)
    (hc : l.conn = some c) (did : Did l l') : Gone l' ∨ Registered l' := by
  obtain ⟨minor, _, event⟩ := serving.writing (h c hc)
  have kept : ∀ {s}, Worked s l l' → (s = .updateChannel ∨ s.minor = true) → Registered l' := by
    intro s work what c' hc'
    obtain ⟨_, d, hd, _, _, settled⟩ := work c' hc'
    obtain rfl := Option.some.inj (hc.symm.trans hd)
    rcases what with rfl | minor
    · exact (congrArg Prod.snd settled).trans event
    · rw [minor_settle minor] at settled
      exact (congrArg Prod.snd settled).trans (h c hc)
  cases did with
  | gone gone _ => exact .inl gone
  | @kept s _ what work _ _ _ =>
      refine .inr (kept work ?_)
      rcases what with update | rfl | setup
      · exact .inl update
      · exact .inr rfl
      · exact .inr (serving.setup s setup)
  | stmt hs _ _ _ _ =>
      rw [serving.agenda] at hs
      cases hs
  | @respond n p s rest hp hs work _ _ _ =>
      have mem := List.mem_of_getElem? hp
      have here : s ∈ p.todo := by
        rw [hs]
        exact List.mem_cons_self
      rw [serving.packs, List.mem_append, List.mem_singleton] at mem
      refine .inr (kept work (.inr ?_))
      rcases mem with old | rfl
      · exact serving.todo p old s here
      · exact minor s here

/-- A move between two requests. -/
theorem between_step (call : Call) (h : Between srv protocol w l) (turn : ∀ c, l.conn = some c → Turn srv l c)
    (sourced : Sourced srv l) (step : Step srv l m l')
    (meant : ∀ events io reply, m = .event events io reply → events.epollin = true →
      io.read ≠ .again ∧ ∀ bs, io.read = .data bs → protocol.Carries call ∧
        (∃ v, w ++ bs ++ v = (protocol.calling call).requestBytes) ∧
        ¬ protocol.CutsRequest call (w ++ bs).length)
    (small : ∀ events io reply pack, m = .event events io reply → l'.packs = l.packs ++ [pack] →
      reply.respStr.length < 2 ^ 31) :
    Heard srv protocol call w l m l' ∧ l.sent m = [] := by
  by_cases gone : Gone l
  · obtain ⟨gone', packs, noEvent⟩ := gone_step gone sourced step
    refine ⟨.gone gone' packs, ?_⟩
    cases m with
    | event events io reply => exact absurd rfl (noEvent events io reply)
    | _ => rfl
  · obtain ⟨c, hc, ⟨idle, quiet⟩ | ⟨_, _, serving⟩⟩ := turn_of turn gone
    swap
    · exact absurd serving.unwritten h.answered
    have other : (∀ events io reply, m ≠ .event events io reply) → taken m = [] →
        Heard srv protocol call w l m l' := by
      intro noEvent none
      have did := step_did sourced step noEvent
      rcases between_did h idle sourced did with gone | between
      · exact .gone gone did.length
      · exact .more (by rw [none, List.append_nil]; exact between) did.length
    cases m with
    | event events io reply =>
        exact between_event h idle hc quiet step (fun hin => (meant _ _ _ rfl hin).1)
          (fun bs hin => (meant _ _ _ rfl hin).2 bs) fun pack => small _ _ _ pack rfl
    | _ => exact ⟨other (by simp) rfl, rfl⟩

/-- A move during a request. -/
theorem during_step (whole : Bytes) (h : During srv protocol left l)
    (started : left = whole ∨ Registered l) (turn : ∀ c, l.conn = some c → Turn srv l c)
    (sourced : Sourced srv l) (step : Step srv l m l')
    (ended : ∀ events io reply, m = .event events io reply → events.epollin = true →
      io.read = .eof ∨ io.read = .failed)
    (guard : ∀ events io reply c, m = .event events io reply → l.conn = some c →
      events.epollin = false → HeadFirst ⟨c.wbuf, []⟩ (io.head, io.extra) ∧
        TCPConnection.Coupled { conn := c } io) :
    ∃ left', left = l.sent m ++ left' ∧ l'.packs.length = l.packs.length ∧
      (Gone l' ∨ (During srv protocol left' l' ∧ (left' = whole ∨ Registered l')) ∨
        left' = [] ∧ Between srv protocol [] l') := by
  by_cases gone : Gone l
  · obtain ⟨gone', packs, noEvent⟩ := gone_step gone sourced step
    refine ⟨left, ?_, packs, .inl gone'⟩
    cases m with
    | event events io reply => exact absurd rfl (noEvent events io reply)
    | _ => rfl
  · obtain ⟨c, hc, ⟨idle, _⟩ | ⟨_, _, serving⟩⟩ := turn_of turn gone
    · exact absurd h.unwritten idle.answered_all
    have other : (∀ events io reply, m ≠ .event events io reply) → l'.packs.length = l.packs.length ∧
        (Gone l' ∨ (During srv protocol left l' ∧ (left = whole ∨ Registered l')) ∨
          left = [] ∧ Between srv protocol [] l') := by
      intro noEvent
      have did := step_did sourced step noEvent
      refine ⟨did.length, ?_⟩
      rcases during_did h serving sourced did with gone | during
      · exact .inl gone
      rcases started with all | registered
      · exact .inr (.inl ⟨during, .inl all⟩)
      · rcases registered_did registered serving hc did with gone | registered
        · exact .inl gone
        · exact .inr (.inl ⟨during, .inr registered⟩)
    cases m with
    | event events io reply =>
        obtain ⟨left', split, packs, after⟩ := during_event h serving hc sourced step
          (ended _ _ _ rfl) (guard _ _ _ c rfl hc)
        refine ⟨left', split, packs, after.imp_right (.imp_left ?_)⟩
        rintro ⟨during, moved, kept⟩
        refine ⟨during, ?_⟩
        rcases started with all | registered
        · exact moved.imp_left (·.trans all)
        · exact .inr (kept registered)
    | _ => exact ⟨left, rfl, other (by simp)⟩

theorem initial_storage : 0 < (Buffer.ofSize Buffer.initialBufferSize).data.length := by
  rw [Buffer.ofSize, List.length_replicate]
  decide

theorem sourced_start : Sourced srv (accepted srv fd) := by
  refine ⟨fun s hs => ?_, nofun⟩
  change s ∈ srv.newConnectionCallback at hs
  unfold PbServer.newConnectionCallback at hs
  simp only [List.mem_append, List.mem_cons, List.not_mem_nil, or_false] at hs
  rcases hs with ((rfl | rfl | rfl) | armed) | rfl | rfl | rfl
  case inl.inr => exact armTimer_inert s armed
  all_goals rfl

/-- A connection that is new waits for the first byte. -/
theorem between_accepted (offered : protocol ∈ srv.protocols) : Between srv protocol [] (accepted srv fd) := by
  refine ⟨?_, fun c hc k hk => ?_⟩
  · rintro ⟨n, inside, _⟩
    exact absurd inside (Nat.not_lt_zero n)
  · obtain rfl := Option.some.inj hc
    obtain rfl := Except.ok.inj hk
    have storage := initial_storage
    exact ⟨.undecided offered ⟨rfl, Buffer.ofSize_wf _, storage, rfl, rfl⟩, rfl, rfl, rfl, storage⟩

/-- A step leaves the requests that were dispatched before. -/
theorem served_step (step : Step srv l m l') :
    l'.served = l.served ++ (l'.packs.drop l.packs.length).map Pack.request := by
  have same : l'.packs = l.packs → l'.served = l.served ++ (l'.packs.drop l.packs.length).map Pack.request := by
    intro packs
    rw [served, served, packs, List.drop_length, List.map_nil, List.append_nil]
  cases step_moved step with
  | setup _ run => exact same run.packs
  | stmt _ run => exact same run.packs
  | func _ _ run => exact same run.packs
  | @respond n pack s rest _ hp _ run =>
      have packs : l'.packs = l.packs.set n { pack with todo := rest } := run.packs
      have none : l'.packs.drop l.packs.length = [] := by
        rw [packs, List.drop_eq_nil_iff, List.length_set]
      rw [none, List.map_nil, List.append_nil, served, served, packs, List.map_set]
      apply List.ext_getElem?
      intro i
      by_cases hi : n = i
      · subst hi
        have inside := (List.getElem?_eq_some_iff.mp hp).1
        rw [List.getElem?_set_self (by rw [List.length_map]; exact inside), List.getElem?_map, hp]
        rfl
      · rw [List.getElem?_set_ne hi]
  | event _ _ _ _ _ outcome =>
      cases outcome with
      | dispatches _ _ _ _ _ _ =>
          change (l.packs ++ _).map Pack.request = _
          rw [List.map_append]
          change _ = l.served ++ ((l.packs ++ _).drop l.packs.length).map Pack.request
          rw [List.drop_left]
          rfl
      | _ => exact same rfl
  | _ => exact same rfl

end SmallRpc.Lifetime
