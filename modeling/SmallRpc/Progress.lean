import SmallRpc.Sessions

/-! A call that is pending in a session can be finished. Every state in which it is pending has
a move that lowers a rank: the client writes, the server's threads and loop come to rest, and
then the one event that the connection waits for is handled. -/
namespace SmallRpc
open Runs Lifetime
open Buffer (ReadResult WriteResult)

/-- A write that is accepted in full leaves nothing to be written. -/
theorem Buffer.Outgoing.write_all {b : Buffer} {m : Bytes} (h : b.Outgoing m) : ∃ t wbuf ps,
    b.writeFd (.wrote b.readable) (.wrote b.extraable) = .ok (t, wbuf, ps) ∧ wbuf.Outgoing [] := by
  rcases writeFd_ends (b := b) (.wrote b.readable) (.wrote b.extraable) with ⟨⟨t, wbuf, ps⟩, wrote⟩ | head | extra
  swap
  · cases head
  swap
  · cases extra
  obtain ⟨m', _, out⟩ := h.write wrote ⟨le_rfl, le_rfl⟩ (headFirst_full b [])
  obtain ⟨same, _⟩ := writeFd_cases wrote
  have order := h.wf.order
  have index := h.index
  have head : headTaken b (.wrote b.readable) = b.windex - b.rindex := by
    have readable : b.readable = b.windex - b.rindex := sizeSub_of_le order
    unfold headTaken
    split_ifs with none
    · exact none.symm.trans readable
    · exact readable
  have extra : extraTaken b (.wrote b.readable) (.wrote b.extraable) = b.extraData.length - b.extraIndex := by
    have extraable : b.extraable = b.extraData.length - b.extraIndex := sizeSub_of_le index
    unfold extraTaken
    split_ifs with none
    · refine none.elim (fun none => none.symm.trans extraable) ?_
      rintro ⟨_, error⟩
      cases error
    · exact extraable
  refine ⟨t, wbuf, ps, wrote, ?_⟩
  have done : m' = [] := by
    refine out.done_iff.mpr ⟨?_, ?_⟩
    · rw [same, head]
      change sizeSub b.windex (b.rindex + (b.windex - b.rindex)) = 0
      rw [Nat.add_sub_cancel' order, sizeSub_of_le le_rfl, Nat.sub_self]
    · rw [same, extra]
      change sizeSub b.extraData.length (b.extraIndex + (b.extraData.length - b.extraIndex)) = 0
      rw [Nat.add_sub_cancel' index, sizeSub_of_le le_rfl, Nat.sub_self]
  exact done ▸ out

/-- All of a request is not a cut of it. -/
theorem Protocol.request_whole (protocol : Protocol) (call : Call) :
    ¬ protocol.CutsRequest call (protocol.calling call).requestBytes.length := by
  cases protocol with
  | simple =>
      simp only [Protocol.CutsRequest, CutsField, calling_simple, AnyContext.requestBytes,
        SimpleContext.requestPieces, Call.context]
      simp
      omega
  | http => exact id

theorem Lifetime.Answers.whole {protocol : Protocol} {payload : Bytes} {answer : AnyContext}
    (h : Answers protocol payload answer) :
    ¬ protocol.CutsResponse payload.length answer.responseBytes.length := by
  obtain ⟨rfl, _, rfl⟩ := h
  cases answer with
  | simple ctx =>
      rintro ⟨_, _, short⟩
      simp [AnyContext.responseBytes, SimpleContext.responsePieces, AnyContext.base] at short
      omega
  | http ctx => exact id

/-- Where the turn of the loop is, counted from its end. -/
def Phase.left : Phase → Nat
  | polling => 0
  | timers _ => 1
  | funcs n => n + 2
  | handled => 3

namespace Lifetime
variable {srv : PbServer} {protocol : Protocol} {l l' : Lifetime} {m : SmallRpc.Move} {c : TCPConnection}
  {n : Nat} {left : Bytes}

/-- A move that goes on with what has begun. -/
def Inner : SmallRpc.Move → Prop
  | .event .. | .quiet | .timer => False
  | .drain expired _ => expired = []
  | _ => True

/-- What is left to be done until the loop waits again. -/
def work (l : Lifetime) : Nat :=
  2 * (l.setup.length + l.agenda.length + (l.packs.map fun pack => pack.todo.length).sum) + l.queued +
    l.phase.left

theorem Inner.noEvent (h : Inner m) : ∀ events io reply, m ≠ .event events io reply := by
  rintro _ _ _ rfl
  exact h

/-- As long as the loop does not wait there is something to do. -/
theorem inner_enabled (srv : PbServer) (expired : l.phase.expired = []) (busy : ¬ Polling l) :
    ∃ m, Inner m ∧ l.Enabled srv m := by
  by_cases setup : l.setup = []
  swap
  · exact ⟨.setup, trivial, setup⟩
  by_cases agenda : l.agenda = []
  swap
  · exact ⟨.stmt, trivial, agenda⟩
  by_cases todo : ∀ pack ∈ l.packs, pack.later = false → pack.todo = []
  swap
  · push Not at todo
    obtain ⟨pack, mem, _, some⟩ := todo
    obtain ⟨n, hn⟩ := List.getElem?_of_mem mem
    exact ⟨.respond n, trivial, pack, hn, some⟩
  have rest : l.AtRest := ⟨agenda, todo⟩
  cases hp : l.phase with
  | polling => exact absurd ⟨setup, rest, hp⟩ busy
  | handled => exact ⟨.swap, trivial, rest, hp⟩
  | funcs n =>
      cases n with
      | zero => exact ⟨.drain [] l.timers, rfl, rest, hp, List.Perm.refl _⟩
      | succ n => exact ⟨.func, trivial, rest, by rw [hp]; exact Nat.succ_ne_zero n⟩
  | timers timers =>
      rw [hp] at expired
      obtain rfl : timers = [] := expired
      exact ⟨.poll, trivial, rest, hp⟩

theorem work_lt (inner : Inner m) (step : Step srv l m l') (fine : l'.fault = none) : work l' < work l := by
  have ran : ∀ {s t}, Executed s t l' → work l' = work t + s.queues := by
    intro s t run
    simp only [work, run.setup, run.agenda, run.packs, run.queued, run.phase]
    omega
  have queues : ∀ s : Stmt, s.queues ≤ 1 := by
    intro s
    cases s <;> simp [Stmt.queues]
  cases step_moved step with
  | @setup s _ _ hs run =>
      have ran := ran run
      have queues := queues s
      simp only [work, hs, List.length_cons] at ran ⊢
      omega
  | @stmt s _ _ hs run =>
      have ran := ran run
      have queues := queues s
      simp only [work, hs, List.length_cons] at ran ⊢
      omega
  | @respond n pack s rest _ hp hs run =>
      have ran := ran run
      have queues := queues s
      obtain ⟨hlt, at_⟩ := List.getElem?_eq_some_iff.mp hp
      have split : l.packs = l.packs.take n ++ pack :: l.packs.drop (n + 1) := by
        rw [← at_, List.cons_getElem_drop_succ, List.take_append_drop]
      have set : l.packs.set n { pack with todo := rest } =
          l.packs.take n ++ { pack with todo := rest } :: l.packs.drop (n + 1) := by
        rw [List.set_eq_take_append_cons_drop, if_pos hlt]
      have sum : (l.packs.map fun pack => pack.todo.length).sum =
          ((l.packs.set n { pack with todo := rest }).map fun pack => pack.todo.length).sum + 1 := by
        conv_lhs => rw [split]
        rw [set]
        simp only [List.map_append, List.map_cons, List.sum_append, List.sum_cons, hs, List.length_cons]
        omega
      simp only [work] at ran ⊢
      omega
  | func _ hp run =>
      have ran := ran run
      simp only [work, hp, Phase.left, Stmt.queues] at ran ⊢
      omega
  | swap _ hp =>
      simp only [work, hp, Phase.left]
      omega
  | drain _ hp _ =>
      simp only [work, hp, Phase.left]
      omega
  | poll _ hp =>
      simp only [work, hp, Phase.left]
      omega
  | fault _ => cases fine
  | event _ _ _ _ _ _ => exact inner.elim
  | quiet _ => exact inner.elim
  | expire _ _ _ _ _ => exact inner.elim
  | stale _ _ => exact inner.elim

/-- What an inner move leaves as it was. -/
theorem inner_keeps (sourced : Sourced srv l) (step : Step srv l m l') (inner : Inner m) (stays : ¬ Gone l') :
    l'.packs.length = l.packs.length ∧ (l'.Unwritten ↔ l.Unwritten) ∧
      ((∀ c ∈ l.conn, n ≤ c.rbuf.data.length) → ∀ c ∈ l'.conn, n ≤ c.rbuf.data.length) := by
  have did := step_did sourced step inner.noEvent
  have storage : ∀ {s}, Worked s l l' → (∀ c ∈ l.conn, n ≤ c.rbuf.data.length) →
      ∀ c ∈ l'.conn, n ≤ c.rbuf.data.length := by
    intro s work room c' hc'
    obtain ⟨_, c, hc, on, _⟩ := work c' hc'
    exact (room c hc).trans (on_keeps on).1
  refine ⟨did.length, ?_⟩
  cases did with
  | gone gone _ => exact absurd gone stays
  | kept _ _ work _ packs written => exact ⟨unwritten_congr (by rw [packs]) written, storage work⟩
  | stmt _ work _ packs written => exact ⟨unwritten_congr (by rw [packs]) written, storage work⟩
  | respond _ _ work _ packs written =>
      exact ⟨unwritten_congr (by rw [packs, List.length_set]) written, storage work⟩

/-- The rest of a response, accepted in full. -/
def emptying (c : TCPConnection) : SmallRpc.Move :=
  .event { epollout := true } { head := .wrote c.wbuf.readable, extra := .wrote c.wbuf.extraable } {}

theorem effect_emptying (hc : l.conn = some c) (linked : c.connected = true)
    (installed : .writeComplete ∈ c.callbacks) (some : c.ctx ≠ none) (out : c.wbuf.Outgoing left) :
    ∃ wbuf connType, l.effect srv (emptying c) = .ok { l.setConn { c with wbuf } with
      phase := .handled, agenda := srv.writeCompleteCallback connType
      packed := [], written := l.written ++ l.packed } := by
  obtain ⟨t, wbuf, ps, wrote, out'⟩ := out.write_all
  obtain ⟨ctx, hctx⟩ := Option.ne_none_iff_exists'.mp some
  have empty : wbuf.readable = 0 := (out'.done_iff.mp rfl).1
  have handles : c.handleEvents { epollout := true }
      { head := .wrote c.wbuf.readable, extra := .wrote c.wbuf.extraable } =
      .ok { conn := { c with wbuf }, call := Option.some .writeComplete, sent := ps } := by
    have call : ({ c with wbuf } : TCPConnection).installed .writeComplete = Option.some .writeComplete :=
      if_pos installed
    rw [TCPConnection.handleEvents, if_neg Bool.false_ne_true, if_pos rfl, if_pos linked, wrote]
    change Except.ok _ = _
    rw [if_pos empty, call]
  have here : ({ l with phase := .handled } : Lifetime).conn = Option.some c := hc
  refine ⟨wbuf, ctx.base.connType, ?_⟩
  change handle srv { l with phase := .handled } _ _ _ = _
  rw [handle, withConn_some here, handles]
  change writeComplete srv _ _ = _
  rw [writeComplete, hctx]
  rfl

/-- At `epoll_wait` the connection waits for a request, or to be written to. -/
theorem polling_cases (sound : Sound srv l) (stays : ¬ Gone l) (polling : l.Polling) : ∃ c, l.conn = some c ∧
    (Idle l ∧ Quiet (settleAll l.agenda (c.event, c.sevent)) ∧ c.sevent = .epollin ∨
      (∃ earlier pack, Serving srv l c earlier pack) ∧ Writing srv c) := by
  obtain ⟨_, rest, hp⟩ := id polling
  obtain ⟨c, hc, turn⟩ := turn_of (fun c hc => (sound.steady c hc).turn) stays
  refine ⟨c, hc, ?_⟩
  rcases turn with ⟨idle, quiet⟩ | ⟨earlier, pack, serving⟩
  · rcases (sound.steady c hc).phase sound.sync polling with reading | writing
    · exact .inl ⟨idle, quiet, reading.2.1⟩
    · rw [rest.1] at quiet
      exact absurd writing.2.1 quiet.2
  · rcases (Turn.serving earlier serving).polling sound.sync rest hp with ⟨idle, _⟩ | ⟨writing, _⟩
    · exact absurd serving.unwritten idle.answered_all
    · exact .inr ⟨⟨earlier, pack, serving⟩, writing⟩

/-- At rest the response is in the write buffer. -/
theorem During.outgoing_rest (h : During srv protocol left l) (sync : Synchronous l) (rest : l.AtRest)
    (hc : l.conn = some c) : c.wbuf.Outgoing left := by
  obtain ⟨earlier, pack, packs, outgoing⟩ := h.outgoing
  have done : pack.todo = [] := sync.idle rest pack (by rw [packs]; simp)
  exact (outgoing c hc c.stock (by rw [done]; rfl)).1

end Lifetime

namespace Dialogue

/-- The response of a call fits in the buffer that is to receive it, and so does its request if
that has not been dispatched yet. -/
def Fits {σ : Type} (service : Service σ) (protocol : Protocol) (object : σ) (d : Dialogue σ) (call : Call) :
    Prop :=
  (d.server.packs.length = d.returned.length →
      ∀ conn ∈ d.server.conn, (protocol.calling call).requestBytes.length ≤ conn.rbuf.data.length) ∧
    ∀ reply ∈ (service.replies object (d.returned.map (·.1.request) ++ [call.request])).getLast?,
      ∀ answer, Answers protocol reply answer → answer.responseBytes.length ≤ d.client.conn.rbuf.data.length

variable {σ : Type} {srv : PbServer} {service : Service σ} {protocol : Protocol} {d d' : Dialogue σ}
  {object : σ} {call : Call} {m : SmallRpc.Move} {fd fd' : Nat}

/-- How far a call is from its return: what has to happen on the wire, then what is left of the
turn of the server's loop. -/
def rank (d : Dialogue σ) : ℕ ×ₗ ℕ :=
  toLex ((if d.client.unsent then 1 else 0) + 4 * (d.returned.length + 1 - d.server.packs.length) +
    (if d.server.Unwritten then 1 else 0), d.server.work)

/-- The call is still pending, and closer to its return. -/
structure Onward (service : Service σ) (protocol : Protocol) (object : σ) (call : Call) (d d' : Dialogue σ) :
    Prop where
  busy : d'.call = some call
  returned : d'.returned = d.returned
  fits : d'.Fits service protocol object call
  rank : d'.rank < d.rank

/-- The call has returned. -/
def Returns (call : Call) (d d' : Dialogue σ) : Prop :=
  d'.call = none ∧ ∃ payload, d'.returned = d.returned ++ [(call, payload)]

/-- What a session may do. -/
def Orderly (srv : PbServer) (protocol : Protocol) (d : Dialogue σ) (a : Action) : Prop :=
  d.InFull srv protocol a ∧ d.Awaited a

/-- A move of a session leads to such a state. -/
def Can (srv : PbServer) (service : Service σ) (protocol : Protocol) (d : Dialogue σ) (P : Dialogue σ → Prop) :
    Prop :=
  ∃ a, d.Enabled srv service protocol a ∧ d.Orderly srv protocol a ∧ P (d.next srv service protocol a)

theorem Can.imp {P Q : Dialogue σ → Prop} (h : d.Can srv service protocol P) (imp : ∀ d', P d' → Q d') :
    d.Can srv service protocol Q := by
  obtain ⟨a, enabled, orderly, reached⟩ := h
  exact ⟨a, enabled, orderly, imp _ reached⟩

theorem Fits.mono (h : d.Fits service protocol object call) (returned : d'.returned = d.returned)
    (client : d'.client.conn.rbuf = d.client.conn.rbuf) (packs : d'.server.packs.length = d.server.packs.length)
    (server : ∀ n, (∀ c ∈ d.server.conn, n ≤ c.rbuf.data.length) →
      ∀ c ∈ d'.server.conn, n ≤ c.rbuf.data.length) :
    d'.Fits service protocol object call := by
  unfold Fits
  rw [returned, client, packs]
  exact ⟨fun waits => server _ (h.1 waits), h.2⟩

/-- The client writes all that is left of its request. -/
theorem onward_write (h : Live srv service protocol object d) (busy : d.call = some call)
    (fits : d.Fits service protocol object call) (unsent : d.client.unsent = true) :
    d.Can srv service protocol (Onward service protocol object call d) := by
  let r : WriteResult × WriteResult := (.wrote d.client.conn.wbuf.readable, .wrote d.client.conn.wbuf.extraable)
  have full : d.InFull srv protocol (.write r) := rfl
  have some : d.call ≠ none := busy ▸ Option.some_ne_none call
  refine ⟨.write r, ⟨h.fine, some, unsent, le_rfl, le_rfl⟩, ⟨full, trivial⟩, ?_⟩
  obtain ⟨t, wbuf, ps, d', wrote, goes, client, _, same, returned, _, server⟩ := write_goes full
  have next : d.next srv service protocol (.write r) = d' := by
    change d.fail (d.write r) = d'
    rw [goes]
    rfl
  have out : ∃ m, d.client.conn.wbuf.Outgoing m := by
    cases h.conversing.joint with
    | idle none _ _ _ _ _ _ _ => exact absurd none some
    | asking _ _ _ out _ _ _ _ => exact ⟨_, out⟩
    | answered _ _ _ _ out _ _ _ _ _ _ => exact ⟨_, out⟩
  obtain ⟨m, out⟩ := out
  obtain ⟨_, wbuf', _, wrote', out'⟩ := out.write_all
  obtain ⟨_, rfl, _⟩ : _ ∧ wbuf = wbuf' ∧ _ := by
    simpa using (Except.ok.inj (wrote.symm.trans wrote'))
  have sent : d'.client.unsent = false := by
    rw [client]
    exact SyncCall.unsent_iff.mpr (out'.done_iff.mp rfl)
  rw [next]
  refine ⟨same.trans busy, returned, fits.mono returned (by rw [client]) (by rw [server])
    (by rw [server]; exact fun _ => id), ?_⟩
  refine Prod.Lex.toLex_lt_toLex.mpr (.inl ?_)
  simp [sent, unsent, returned, server]

/-- The threads of the server go on with what has begun. -/
theorem onward_inner (sync : srv.async = false) (h : Live srv service protocol object d)
    (busy : d.call = some call) (fits : d.Fits service protocol object call) (turning : ¬ Polling d.server) :
    d.Can srv service protocol (Onward service protocol object call d) := by
  obtain ⟨m, inner, enabled⟩ := inner_enabled srv h.expired turning
  obtain ⟨honest, full, awaited⟩ : d.Honest srv service m ∧ d.InFull srv protocol (.server m) ∧
      d.Awaited (.server m) := by
    cases m with
    | event events io reply => exact inner.elim
    | drain expired left => exact ⟨trivial, inner, trivial⟩
    | _ => exact ⟨trivial, trivial, trivial⟩
  have step := h.step_server m enabled
  refine ⟨.server m, ⟨step.1, enabled, honest⟩, ⟨full, awaited⟩, ?_⟩
  have after := live_serve sync h full awaited ⟨step.1, enabled, honest⟩
  have stays : ¬ Gone (d.server.next srv m) := after.stays
  have fine : (d.server.next srv m).fault = none := by_contra fun fault => stays (.inl fault)
  obtain ⟨_, underway, _⟩ := h.underway
  obtain ⟨packs, unwritten, _⟩ := @inner_keeps srv _ _ m 0 underway.sourced step inner stays
  have fits' : (d.serve srv service m).Fits service protocol object call :=
    fits.mono rfl rfl packs fun n => (@inner_keeps srv _ _ m n underway.sourced step inner stays).2.2
  refine ⟨busy, rfl, fits', ?_⟩
  refine Prod.Lex.toLex_lt_toLex.mpr (.inr ⟨?_, work_lt inner step fine⟩)
  change (if d.client.unsent then 1 else 0) + 4 * (d.returned.length + 1 - (d.server.next srv m).packs.length) +
    (if (d.server.next srv m).Unwritten then 1 else 0) = _
  simp only [packs, unwritten]

/-- While a request is answered the response is in the write buffer, once the server is at rest. -/
theorem Live.outgoing {c : TCPConnection} (h : Live srv service protocol object d) (busy : d.call ≠ none)
    (rest : d.server.AtRest) (hc : d.server.conn = some c) (unwritten : d.server.Unwritten) :
    ∃ left, c.wbuf.Outgoing left := by
  obtain ⟨_, underway, _⟩ := h.underway
  have resting : ∀ {left}, During srv protocol left d.server → ∃ left, c.wbuf.Outgoing left :=
    fun during => ⟨_, during.outgoing_rest underway.sound.sync rest hc⟩
  cases h.conversing.joint with
  | idle none _ _ _ _ _ _ _ => exact absurd none busy
  | asking _ _ _ _ _ side _ _ =>
      rcases side with gone | ⟨between | ⟨_, during, _⟩, _⟩
      · exact absurd gone h.stays
      · exact absurd unwritten between.answered
      · exact resting during
  | answered _ _ _ _ _ _ _ _ side _ _ =>
      rcases side with gone | ⟨during, _⟩ | ⟨_, between⟩
      · exact absurd gone h.stays
      · exact resting during
      · exact absurd unwritten between.answered

/-- The server writes all that is left of its response. -/
theorem onward_emptying {c : TCPConnection} {earlier : List Pack} {pack : Pack}
    (h : Live srv service protocol object d) (busy : d.call = some call)
    (fits : d.Fits service protocol object call) (polling : Polling d.server) (hc : d.server.conn = some c)
    (serving : Serving srv d.server c earlier pack) (writing : Lifetime.Writing srv c) :
    d.Can srv service protocol (Onward service protocol object call d) := by
  obtain ⟨setup, rest, hp⟩ := polling
  obtain ⟨left, out⟩ := h.outgoing (busy ▸ Option.some_ne_none call) rest hc serving.unwritten
  have installed : .writeComplete ∈ c.callbacks := h.promised.equipped setup hc _ (by decide)
  obtain ⟨wbuf, connType, done⟩ :=
    @effect_emptying srv _ _ _ hc (h.linked c hc) installed writing.2.2.1 out
  have next : d.server.next srv (emptying c) = { d.server.setConn { c with wbuf } with
      phase := .handled, agenda := srv.writeCompleteCallback connType
      packed := [], written := d.server.written ++ d.server.packed } := by
    rw [Lifetime.next, done]
  have packs : (d.server.next srv (emptying c)).packs = d.server.packs := by
    rw [next]
    rfl
  have enabled : d.server.Enabled srv (emptying c) := by
    refine ⟨rest, hp, (absurd · Bool.false_ne_true), c, hc, ⟨?_, (absurd · Bool.false_ne_true),
      fun _ => writing.2.1⟩, trivial, le_rfl, le_rfl⟩
    rw [writing.2.1]
    decide
  have honest : d.Honest srv service (emptying c) := by
    refine ⟨(absurd · Bool.false_ne_true), fun reply mem => ?_⟩
    change reply ∈ service.replies d.object (d.server.asked srv (emptying c)) at mem
    rw [Lifetime.asked, packs, List.drop_length] at mem
    cases mem
  have full : d.InFull srv protocol (.server (emptying c)) := by
    intro c' hc'
    obtain rfl := Option.some.inj (hc.symm.trans hc')
    exact ⟨(absurd · Bool.false_ne_true), fun _ => ⟨rfl, rfl⟩⟩
  have fits' : (d.serve srv service (emptying c)).Fits service protocol object call := by
    refine fits.mono rfl rfl (congrArg List.length packs) fun n room c' hc' => ?_
    change c' ∈ (d.server.next srv (emptying c)).conn at hc'
    rw [next] at hc'
    obtain rfl := Option.some.inj hc'
    exact room c hc
  have written : ¬ (d.server.next srv (emptying c)).Unwritten := by
    rw [next]
    exact serving.written writing.2.1 rfl rfl
  have step := h.step_server (emptying c) enabled
  refine ⟨.server (emptying c), ⟨step.1, enabled, honest⟩, ⟨full, (absurd · Bool.false_ne_true)⟩, busy, rfl,
    fits', Prod.Lex.toLex_lt_toLex.mpr (.inl ?_)⟩
  change (if d.client.unsent then 1 else 0) +
    4 * (d.returned.length + 1 - (d.server.next srv (emptying c)).packs.length) +
    (if (d.server.next srv (emptying c)).Unwritten then 1 else 0) < _
  rw [packs, if_neg written, if_pos serving.unwritten]
  exact Nat.lt_succ_self _

/-- What is left of a request that has been written is on its way. -/
theorem Live.arrives (h : Live srv service protocol object d) (busy : d.call = some call)
    (answered : ¬ d.server.Unwritten) (written : d.unwritten = [])
    (count : d.server.packs.length = d.returned.length) : d.up ≠ [] := by
  intro none
  obtain ⟨bs, underway, bytes⟩ := h.underway
  rw [none, written, List.append_nil, List.append_nil] at bytes
  rw [bytes] at underway
  cases underway.place with
  | gone gone _ => exact h.stays gone
  | receiving _ upto _ =>
      have missing := upto.all.1
      rw [count, calls_at busy] at missing
      cases missing
  | answering answering _ _ => exact answered answering.unwritten

/-- A read of the rest of a request dispatches it. -/
theorem reading_dispatches {c : TCPConnection} {w respStr : Bytes} (h : Live srv service protocol object d)
    (busy : d.call = some call) (hc : d.server.conn = some c) (idle : Idle d.server)
    (quiet : Quiet (settleAll d.server.agenda (c.event, c.sevent))) (installed : .dataRead ∈ c.callbacks)
    (between : Between srv protocol w d.server) (carries : protocol.Carries call)
    (whole : w ++ d.up = (protocol.calling call).requestBytes) (some : d.up ≠ [])
    (enabled : d.server.Enabled srv (reading d.up respStr)) : ∃ pack, pack.request = call.request ∧
      (d.server.next srv (reading d.up respStr)).packs = d.server.packs ++ [pack] := by
  have step := h.step_server _ enabled
  have mem : (call, (protocol.calling call).requestBytes) ∈ d.calls protocol :=
    List.mem_of_getElem? (calls_at busy)
  cases (between_met between idle hc quiet step).1 with
  | ended _ _ _ cause => rcases cause.2 with eof | failed <;> cases ‹_ = _›
  | unseen absent _ _ _ => exact absent.elim (fun none => absurd none some) (absurd installed)
  | seen _ _ _ _ idle' _ _ packs _ heard called =>
      have heard : srv.Listens protocol (w ++ d.up) _ ⟨_, _⟩ := heard
      rw [whole] at heard
      obtain ⟨_, pack, asked, dispatches, _⟩ := dataRead_dispatches _ idle' heard carries.requests
        (h.served.found _ mem) (h.served.parses _ mem) (h.served.kept _ mem)
      refine ⟨pack, asked, ?_⟩
      rw [step_ok step (called.trans dispatches), ← packs]

/-- The server reads all that has arrived, the last byte of the request with it. -/
theorem onward_read {c : TCPConnection} {w : Bytes} (h : Live srv service protocol object d)
    (busy : d.call = some call) (fits : d.Fits service protocol object call) (polling : Polling d.server)
    (hc : d.server.conn = some c) (idle : Idle d.server)
    (quiet : Quiet (settleAll d.server.agenda (c.event, c.sevent))) (reads : c.sevent = .epollin)
    (between : Between srv protocol w d.server) (carries : protocol.Carries call)
    (whole : w ++ d.up = (protocol.calling call).requestBytes) (written : d.unwritten = [])
    (count : d.server.packs.length = d.returned.length) :
    d.Can srv service protocol (Onward service protocol object call d) := by
  obtain ⟨setup, rest, hp⟩ := polling
  have length : c.rbuf.windex + d.up.length = (protocol.calling call).requestBytes.length := by
    rw [between.windex rest.1 hc, ← whole, List.length_append]
  have some := h.arrives busy idle.answered_all written count
  let m := reading d.up (service.serve d.object call.request).1
  have enabled : d.server.Enabled srv m := by
    refine ⟨rest, hp, (absurd · Bool.false_ne_true), c, hc, ⟨?_, fun _ => reads, (absurd · Bool.false_ne_true)⟩,
      ⟨some, ?_⟩, Nat.zero_le _, Nat.zero_le _⟩
    · rw [reads]
      decide
    · rw [length]
      exact (fits.1 count c hc).trans (Buffer.makeRoom_storage _)
  have installed : .dataRead ∈ c.callbacks := h.promised.equipped setup hc _ (by decide)
  obtain ⟨pack, asks, packs⟩ :=
    reading_dispatches h busy hc idle quiet installed between carries whole some enabled
  have honest : d.Honest srv service m := by
    have asked : d.server.asked srv m = [call.request] := by
      rw [Lifetime.asked, packs, List.drop_left, List.map_singleton, asks]
    refine ⟨fun _ => List.prefix_rfl, fun reply mem => ?_⟩
    change reply ∈ service.replies d.object (d.server.asked srv m) at mem
    rw [asked] at mem
    exact (List.mem_singleton.mp mem).symm
  have full : d.InFull srv protocol (.server m) := by
    intro c' hc'
    obtain rfl := Option.some.inj (hc.symm.trans hc')
    refine ⟨fun _ => ⟨some, fun call' hcall => ?_⟩, (absurd ·.symm Bool.false_ne_true)⟩
    obtain rfl := Option.some.inj (busy.symm.trans hcall)
    change ¬ protocol.CutsRequest call (c.rbuf.windex + d.up.length)
    rw [length]
    exact protocol.request_whole call
  have awaited : d.Awaited (.server m) := by
    intro _ c' hc'
    obtain rfl := Option.some.inj (hc.symm.trans hc')
    exact installed
  have count' : (d.server.next srv m).packs.length = d.returned.length + 1 := by
    rw [packs, List.length_append, count]
    rfl
  have step := h.step_server m enabled
  refine ⟨.server m, ⟨step.1, enabled, honest⟩, ⟨full, awaited⟩, busy, rfl, ⟨fun waits => ?_, fits.2⟩,
    Prod.Lex.toLex_lt_toLex.mpr (.inl ?_)⟩
  · change (d.server.next srv m).packs.length = d.returned.length at waits
    omega
  · change (if d.client.unsent then 1 else 0) + 4 * (d.returned.length + 1 - (d.server.next srv m).packs.length) +
      (if (d.server.next srv m).Unwritten then 1 else 0) < _
    rw [count', count, if_neg idle.answered_all]
    split_ifs <;> omega

/-- The client reads all that has arrived, the last byte of the response with it. -/
theorem last_read {answer : AnyContext} {v payload : Bytes} (h : Live srv service protocol object d)
    (busy : d.call = some call) (fits : d.Fits service protocol object call)
    (answers : Answers protocol payload answer) (small : payload.length < 2 ^ 31)
    (hears : Hears call v protocol ⟨d.client.conn.ctx, d.client.conn.rbuf⟩) (sent : d.client.unsent = false)
    (whole : v ++ d.down = answer.responseBytes) (more : d.down ≠ [])
    (served : d.server.served = d.returned.map (·.1.request) ++ [call.request])
    (same : d.answers = d.returned.map Prod.snd ++ [payload]) :
    d.Can srv service protocol (Returns call d) := by
  have length : d.client.conn.rbuf.windex + d.down.length = answer.responseBytes.length := by
    rw [hears.buffer.2, ← whole, List.length_append]
  have last : d.answers.getLast? = some payload := by
    rw [same]
    simp
  have replies := h.conversing.answers
  rw [served] at replies
  have room : answer.responseBytes.length ≤ d.client.conn.rbuf.data.length :=
    fits.2 payload (replies ▸ last) answer answers
  have some : d.call ≠ none := busy ▸ Option.some_ne_none call
  have possible : ReadPossible d.client.conn.rbuf (.data d.down) :=
    ⟨more, length.trans_le (room.trans (Buffer.makeRoom_storage _))⟩
  have full : d.InFull srv protocol (.read (.data d.down)) := by
    refine ⟨more, fun reply mem => ?_⟩
    obtain rfl := Option.some.inj (last.symm.trans mem)
    change ¬ protocol.CutsResponse payload.length (d.client.conn.rbuf.windex + d.down.length)
    rw [length]
    exact answers.whole
  obtain ⟨client, _, _, _, returns⟩ :=
    read_returns h.conversing.alone busy answers small hears possible rfl whole
  refine ⟨.read (.data d.down), ⟨h.fine, some, sent, h.waiting some, possible, List.prefix_rfl⟩,
    ⟨full, trivial⟩, ?_⟩
  change Returns call d (d.fail (d.read (.data d.down)))
  rw [returns]
  exact ⟨rfl, payload, rfl⟩

/-- From every state in which a call is pending there is a move that finishes it, or gets it on. -/
theorem session_goes (sync : srv.async = false) (h : Live srv service protocol object d)
    (busy : d.call = some call) (fits : d.Fits service protocol object call) : d.Can srv service protocol
      fun d' => Returns call d d' ∨ Onward service protocol object call d d' := by
  by_cases unsent : d.client.unsent = true
  · exact (onward_write h busy fits unsent).imp fun _ => .inr
  have sent := Bool.eq_false_of_not_eq_true unsent
  by_cases polling : Polling d.server
  swap
  · exact (onward_inner sync h busy fits polling).imp fun _ => .inr
  obtain ⟨bs, underway, _⟩ := h.underway
  obtain ⟨c, hc, ⟨idle, quiet, reads⟩ | ⟨⟨earlier, pack, serving⟩, writing⟩⟩ :=
    polling_cases underway.sound h.stays polling
  swap
  · exact (onward_emptying h busy fits polling hc serving writing).imp fun _ => .inr
  cases h.conversing.joint with
  | idle none _ _ _ _ _ _ _ => exact absurd (busy.symm.trans none) (Option.some_ne_none call)
  | @asking call' w m some carries hears out down side served same =>
      obtain rfl := Option.some.inj (busy.symm.trans some)
      rcases side with gone | ⟨between | ⟨_, during, _⟩, whole⟩
      · exact absurd gone h.stays
      · obtain rfl : m = [] := out.done_iff.mpr (SyncCall.unsent_iff.mp sent)
        have written : d.unwritten = [] := by
          rw [unwritten, busy]
          exact out.message
        rw [List.append_nil] at whole
        exact (onward_read h busy fits polling hc idle quiet reads between carries whole written
          (packs_length served)).imp fun _ => .inr
      · exact absurd during.unwritten idle.answered_all
  | @answered call' answer v left payload some answers small hears out up whole more side served same =>
      obtain rfl := Option.some.inj (busy.symm.trans some)
      rcases side with gone | ⟨during, _⟩ | ⟨rfl, _⟩
      · exact absurd gone h.stays
      · exact absurd during.unwritten idle.answered_all
      · rw [List.append_nil] at whole more
        exact (last_read h busy fits answers small hears sent whole more served same).imp fun _ => .inl

/-- A pending call can be finished. -/
theorem session_returns (sync : srv.async = false) (h : Live srv service protocol object d)
    (busy : d.call = some call) (fits : d.Fits service protocol object call) :
    ∃ d', Leads (dialogue srv service protocol fd fd' object) (Orderly srv protocol) d d' ∧ Returns call d d' := by
  apply Leads.of_rank (I := fun t => Live srv service protocol object t ∧ t.call = some call ∧
    t.returned = d.returned ∧ t.Fits service protocol object call) rank
  · rintro t ⟨live, busy, returned, fits⟩
    obtain ⟨a, enabled, orderly, reached⟩ := session_goes sync live busy fits
    have step : (dialogue srv service protocol fd fd' object).step t a (t.next srv service protocol a) :=
      ⟨enabled, rfl⟩
    refine ⟨a, _, step, orderly, reached.imp ?_ fun on => ?_⟩
    · rintro ⟨free, payload, back⟩
      exact ⟨free, payload, returned ▸ back⟩
    · have live' := live_step sync live orderly.1 orderly.2 step
      exact ⟨⟨live', on.busy, on.returned.trans returned, on.fits⟩, on.rank⟩
  · exact ⟨h, busy, rfl, fits⟩

/-- The calls of a session come back with what the services compute, one after the other, and a
call that has not come back yet can still do so. -/
theorem session_served {es : List (Dialogue σ × Action)} (sync : srv.async = false)
    (offered : protocol ∈ srv.protocols) (run : Run (dialogue srv service protocol fd fd' object) es d)
    (full : Guarded (InFull srv protocol) es) (awaited : Guarded Awaited es) :
    d.failed = none ∧ ¬ Gone d.server ∧
      d.returned.map Prod.snd = service.replies object (d.returned.map (·.1.request)) ∧
      ∀ call ∈ d.call, d.Fits service protocol object call → ∃ d',
        Leads (dialogue srv service protocol fd fd' object) (Orderly srv protocol) d d' ∧ Returns call d d' ∧
        d'.returned.map Prod.snd = service.replies object (d'.returned.map (·.1.request)) := by
  have h := live_run sync offered run full awaited
  have replies : ∀ {es d}, Run (dialogue srv service protocol fd fd' object) es d →
      Guarded (InFull srv protocol) es →
      d.returned.map Prod.snd = service.replies object (d.returned.map (·.1.request)) :=
    fun run full => calls_served run offered (full.mono fun _ _ full => full.whole)
  refine ⟨h.fine, h.stays, replies run full, fun call busy fits => ?_⟩
  obtain ⟨d', ⟨fs, path, later⟩, returns⟩ := @session_returns σ srv service protocol d object call fd fd' sync h
    busy fits
  obtain ⟨o, start, before⟩ := run
  refine ⟨d', ⟨fs, path, later⟩, returns, replies ⟨o, start, before.trans path⟩ ?_⟩
  exact List.forall_mem_append.mpr ⟨full, later.mono fun _ _ guard => guard.1⟩

abbrev serving : Dialogue Nat → Action → Dialogue Nat := next keepingServer numbering .simple

def begun : Dialogue Nat := connected keepingServer 3 5 7

/-- One call from its first byte to its return, and the request of a second one. -/
def session : List Action :=
  let bytes := (Protocol.simple.calling (echo [1, 2])).requestBytes
  let back := ((Protocol.simple.calling (echo [1, 2])).modify fun c =>
    { c with rpcStatus := some .ok, payload := [1, 2, 7] }).responseBytes
  List.flatten [List.replicate 6 (.server .setup), [.call (echo [1, 2]), .write (.wrote 25, .wrote 2)],
    (reading (bytes.take 10) [] :: turning).map .server,
    (reading (bytes.drop 10) [1, 2, 7] :: answering 0 16 3).map .server,
    [.read (.data (back.take 9)), .read (.data (back.drop 9)), .call (echo [3]), .write (.wrote 25, .wrote 1)]]

theorem session_run : Run (dialogue keepingServer numbering .simple 3 5 7) (visits serving begun session)
    (replay serving begun session) :=
  ⟨begun, rfl, path_replay (E := fun d a => d.Enabled keepingServer numbering .simple a)
    (by intro d a enabled; exact ⟨enabled, rfl⟩) (by decide +kernel)⟩

theorem session_fits : (replay serving begun session).Fits numbering .simple 7 (echo [3]) := by
  refine ⟨by decide +kernel, fun reply last answer answers => ?_⟩
  have reply_eq : (numbering.replies 7 ((replay serving begun session).returned.map (·.1.request) ++
      [(echo [3]).request])).getLast? = some [3, 8] := by decide +kernel
  obtain rfl := Option.some.inj (reply_eq.symm.trans last)
  have length : answer.responseBytes.length = 18 := by
    obtain ⟨protocol, _, payload⟩ := answers
    cases answer with
    | http ctx => cases protocol
    | simple ctx =>
        change ctx.payload = _ at payload
        simp [AnyContext.responseBytes, SimpleContext.responsePieces, payload]
  rw [length]
  decide +kernel

theorem session_goes_on : let d := replay serving begun session
    d.returned.map Prod.snd = [[1, 2, 7]] ∧ ∃ d',
      Leads (dialogue keepingServer numbering .simple 3 5 7) (Orderly keepingServer .simple) d d' ∧
      d'.returned.map Prod.snd = [[1, 2, 7], [3, 8]] := by
  obtain ⟨_, _, replies, more⟩ :=
    session_served rfl (by decide) session_run (by decide +kernel) (by decide +kernel)
  obtain ⟨d', leads, ⟨_, reply, returned⟩, replies'⟩ := more (echo [3]) (by decide +kernel) session_fits
  refine ⟨by rw [replies]; decide +kernel, d', leads, ?_⟩
  have first : (replay serving begun session).returned.map (·.1.request) = [(echo [1, 2]).request] := by
    decide +kernel
  rw [replies', returned, List.map_append, first]
  change numbering.replies 7 [(echo [1, 2]).request, (echo [3]).request] = _
  decide +kernel

/-- The server has read the request before it could be told of it. -/
structure Stuck (srv : PbServer) (service : Service σ) (protocol : Protocol) (object : σ) (call : Call)
    (d : Dialogue σ) : Prop where
  conversing : Conversing srv service protocol object d
  busy : d.call = some call
  sent : d.client.unsent = false
  up : d.up = []
  served : d.server.served = []
  returned : d.returned = []

theorem Stuck.down (h : Stuck srv service protocol object call d) : d.down = [] := by
  cases h.conversing.joint with
  | idle none _ _ _ _ _ _ _ => exact absurd (h.busy.symm.trans none) (Option.some_ne_none call)
  | asking _ _ _ _ down _ _ _ => exact down
  | answered _ _ _ _ _ _ _ _ _ served _ =>
      rw [h.served] at served
      exact absurd served.symm (List.append_ne_nil_of_right_ne_nil _ (List.cons_ne_nil _ _))

/-- A read of something that has not arrived is none. -/
theorem stuck_step {a : Action} (h : Stuck srv service protocol object call d) (full : d.InFull srv protocol a)
    (step : (dialogue srv service protocol fd fd' object).step d a d') :
    Stuck srv service protocol object call d' := by
  obtain ⟨enabled, rfl⟩ := step
  cases a with
  | call other => exact absurd (h.busy.symm.trans enabled.2.1) (Option.some_ne_none call)
  | write r =>
      have unsent := enabled.2.2.1
      rw [h.sent] at unsent
      cases unsent
  | read r =>
      have arrived := enabled.2.2.2.2.2
      rw [h.down] at arrived
      exact absurd (List.prefix_nil.mp arrived) full.1
  | server m =>
      refine ⟨conversing_serve h.conversing enabled full.whole, h.busy, h.sent, ?_, ?_, h.returned⟩
      · change d.up.drop _ = []
        rw [h.up, List.drop_nil]
      · obtain ⟨fine, enabled, honest⟩ := enabled
        have step : Step srv d.server m (d.server.next srv m) := ⟨fine, enabled, rfl⟩
        refine (served_still step ?_).trans h.served
        by_contra more
        obtain ⟨events, io, reply, pack, rfl, hin, _⟩ := step_packs step more
        obtain ⟨_, _, _, c, hc, _⟩ := enabled
        have arrived := honest_taken honest
        rw [taken_event, if_pos hin, h.up] at arrived
        exact ((full c hc).1 hin).1 (List.prefix_nil.mp arrived)

/-- A request that arrives while the connection is set up. -/
def hasty : List Action :=
  List.flatten [List.replicate 3 (.server .setup), [.call (echo [1, 2]), .write (.wrote 25, .wrote 2)],
    (reading (Protocol.simple.calling (echo [1, 2])).requestBytes [] :: turning).map .server,
    List.replicate 3 (.server .setup)]

/-- What is read before `data_read_callback` is installed is never looked at, and the call never
returns. -/
theorem hasty_stuck : let d := replay serving begun hasty
    Run (dialogue keepingServer numbering .simple 3 5 7) (visits serving begun hasty) d ∧
      Guarded (InFull keepingServer .simple) (visits serving begun hasty) ∧ d.call = some (echo [1, 2]) ∧
      ∀ d', Leads (dialogue keepingServer numbering .simple 3 5 7) (InFull keepingServer .simple) d d' →
        d'.call = some (echo [1, 2]) := by
  have run : Run (dialogue keepingServer numbering .simple 3 5 7) (visits serving begun hasty)
      (replay serving begun hasty) :=
    ⟨begun, rfl, path_replay (E := fun d a => d.Enabled keepingServer numbering .simple a)
      (by intro d a enabled; exact ⟨enabled, rfl⟩) (by decide +kernel)⟩
  have full : Guarded (InFull keepingServer .simple) (visits serving begun hasty) := by decide +kernel
  refine ⟨run, full, by decide +kernel, ?_⟩
  rintro d' ⟨es, path, later⟩
  have stuck : Stuck keepingServer numbering .simple 7 (echo [1, 2]) (replay serving begun hasty) :=
    ⟨conversing_run run (by decide) (full.mono fun _ _ full => full.whole), by decide +kernel, by decide +kernel,
      by decide +kernel, by decide +kernel, by decide +kernel⟩
  exact (path.invariant later stuck fun h full step => stuck_step h full step).busy

end Dialogue
end SmallRpc
