import SmallRpc.Finished
import SmallRpc.Lifetime

/-! What a move does, once for all: the fields a statement leaves alone and how it
changes the others, and the ways in which the handling of an event can end. -/
namespace SmallRpc
open Buffer (Piece)

namespace Stmt

/-- Effect on the wanted and the registered events. -/
def settle (s : Stmt) (e : Interest × Interest) : Interest × Interest :=
  match s with
  | setEvent event => (event, e.2)
  | updateChannel => (e.1, e.1)
  | _ => e

def bumps : Stmt → Nat
  | bumpTimer => 1
  | _ => 0

def queues : Stmt → Nat
  | addFunc => 1
  | _ => 0

def packs : Stmt → List Nat
  | packResponse n => [n]
  | _ => []

def closes : Stmt → Nat
  | closeFd => 1
  | deleteConn => 1
  | _ => 0

def installs : Stmt → List Callback
  | install callback => [callback]
  | _ => []

def arms (s : Stmt) (id received : Nat) : List Timer :=
  match s with
  | runAfter kind => [⟨kind, id, received⟩]
  | _ => []

end Stmt

namespace Lifetime

/-- What a statement does to a connection that is still there after it. -/
structure Touched (s : Stmt) (c c' : TCPConnection) : Prop where
  fd : c'.fd = c.fd
  protoIdx : c'.protoIdx = c.protoIdx
  connected : c'.connected = c.connected
  settled : (c'.event, c'.sevent) = s.settle (c.event, c.sevent)
  timerId : c'.timerId = c.timerId + s.bumps
  progress : c'.ctx.map AnyContext.progress =
    if s = .deleteContext then none else c.ctx.map AnyContext.progress
  request : c'.ctx.map AnyContext.request =
    if s = .deleteContext then none else c.ctx.map AnyContext.request
  callbacks : c'.callbacks = c.callbacks ++ s.installs
  rbuf : c'.rbuf = if s = .clearBuffers then c.rbuf.clear else c.rbuf

/-- What a statement does to everything else. -/
structure Executed (s : Stmt) (l l' : Lifetime) : Prop where
  setup : l'.setup = l.setup
  agenda : l'.agenda = l.agenda
  phase : l'.phase = l.phase
  packs : l'.packs = l.packs
  written : l'.written = l.written
  fault : l'.fault = l.fault
  queued : l'.queued = l.queued + s.queues
  packed : l'.packed = l.packed ++ s.packs
  closed : l'.closed = l.closed + s.closes
  listed : l'.listed = true → l.listed = true ∨ s = .addChannel
  gone : l'.conn = none → l.conn = none ∨ s = .deleteConn
  kept : ∀ c', l'.conn = some c' → s ≠ .deleteConn ∧ ∃ c, l.conn = some c ∧ Touched s c c' ∧
    l'.timers = l.timers ++ s.arms c.timerId l.packs.length

variable {srv : PbServer} {l l' : Lifetime} {s : Stmt} {c c' : TCPConnection} {m : Move}
  {events : Events} {io : SocketResults} {answer : Answer}

theorem withConn_some {f : TCPConnection → Except Fault Lifetime} (hc : l.conn = some c) :
    l.withConn f = f c := by
  rw [withConn, hc]

theorem withConn_ok {f : TCPConnection → Except Fault Lifetime} :
    l.withConn f = .ok l' ↔ ∃ c, l.conn = some c ∧ f c = .ok l' := by
  cases hc : l.conn with
  | none => simp [withConn, hc]
  | some c => simp [withConn, hc]

/-- A statement that ends well, other than `unpack`, found the connection there. -/
theorem exec_found (h : l.exec s = .ok l') : s = .unpack ∨ ∃ c, l.conn = some c := by
  cases s
  case unpack => exact .inl rfl
  all_goals
    obtain ⟨c, hc, _⟩ := withConn_ok.mp h
    exact .inr ⟨c, hc⟩

theorem withContext_ok {f : AnyContext → AnyContext} (h : c.withContext f = .ok c') :
    ∃ ctx, c.ctx = some ctx ∧ c' = { c with ctx := some (f ctx) } := by
  unfold TCPConnection.withContext at h
  cases hctx : c.ctx with
  | none => simp [hctx] at h
  | some ctx => exact ⟨ctx, rfl, by simpa [hctx] using h.symm⟩

theorem packResponse_ok (h : c.packResponse = .ok c') :
    ∃ ctx wbuf, c.ctx = some ctx ∧ ctx.packResponse c.wbuf = .ok wbuf ∧ c' = { c with wbuf } := by
  unfold TCPConnection.packResponse at h
  cases hctx : c.ctx with
  | none => simp [hctx] at h
  | some ctx =>
      rw [hctx] at h
      obtain ⟨wbuf, hw, built⟩ := bind_ok.mp h
      exact ⟨ctx, wbuf, rfl, hw, (Except.ok.inj built).symm⟩

/-- The statements that only change the connection object. -/
theorem executed_setConn (hc : l.conn = some c) (touched : Touched s c c')
    (hs : s ≠ .deleteConn) (hq : s.queues = 0 ∧ s.closes = 0) (hp : s.packs = [])
    (ha : ∀ i n, s.arms i n = []) : Executed s l (l.setConn c') where
  setup := rfl
  agenda := rfl
  phase := rfl
  packs := rfl
  written := rfl
  fault := rfl
  queued := by rw [hq.1]; rfl
  packed := by rw [hp, List.append_nil]; rfl
  closed := by rw [hq.2]; rfl
  listed := .inl
  gone := nofun
  kept c'' h := ⟨hs, c, hc, Option.some.inj h ▸ touched, by rw [ha, List.append_nil]; rfl⟩

theorem Touched.refl (he : ∀ e, s.settle e = e) (hb : s.bumps = 0) (hi : s.installs = [])
    (hs : s ≠ .deleteContext ∧ s ≠ .clearBuffers) : Touched s c c where
  fd := rfl
  protoIdx := rfl
  connected := rfl
  settled := (he _).symm
  timerId := by rw [hb]; rfl
  progress := (if_neg hs.1).symm
  request := (if_neg hs.1).symm
  callbacks := by rw [hi, List.append_nil]
  rbuf := (if_neg hs.2).symm

/-- The statements that leave the connection object as it is. -/
theorem executed_same (hc : l.conn = some c) (conn : l'.conn = l.conn)
    (rest : l' = { l with listed := l'.listed, queued := l.queued + s.queues
                          closed := l.closed + s.closes
                          timers := l.timers ++ s.arms c.timerId l.packs.length })
    (he : ∀ e, s.settle e = e) (hb : s.bumps = 0) (hi : s.installs = [])
    (hd : s ≠ .deleteContext ∧ s ≠ .clearBuffers) (hs : s ≠ .deleteConn) (hp : s.packs = [])
    (listed : l'.listed = true → l.listed = true ∨ s = .addChannel) : Executed s l l' where
  setup := by rw [rest]
  agenda := by rw [rest]
  phase := by rw [rest]
  packs := by rw [rest]
  written := by rw [rest]
  fault := by rw [rest]
  queued := by rw [rest]
  packed := by rw [rest, hp, List.append_nil]
  closed := by rw [rest]
  listed := listed
  gone h := .inl (conn ▸ h)
  kept c' h := by
    rw [conn, hc] at h
    obtain rfl := Option.some.inj h
    exact ⟨hs, c, hc, .refl he hb hi hd, by rw [rest]⟩

theorem exec_ok (h : l.exec s = .ok l') : Executed s l l' := by
  cases s with
  | unpack =>
      obtain rfl := Except.ok.inj h
      exact ⟨rfl, rfl, rfl, rfl, rfl, rfl, rfl, (List.append_nil _).symm, rfl, .inl, .inl,
        fun c hc => ⟨by simp, c, hc, .refl (fun _ => rfl) rfl rfl (by simp), (List.append_nil _).symm⟩⟩
  | addChannel =>
      obtain ⟨c, hc, done⟩ := withConn_ok.mp h
      obtain rfl := Except.ok.inj done
      exact executed_same hc rfl (by simp [Stmt.queues, Stmt.arms, Stmt.closes]) (fun _ => rfl) rfl rfl
        (by simp) (by simp) rfl
        fun _ => .inr rfl
  | closeFd =>
      obtain ⟨c, hc, done⟩ := withConn_ok.mp h
      obtain rfl := Except.ok.inj done
      exact executed_same hc rfl (by simp [Stmt.queues, Stmt.arms, Stmt.closes]) (fun _ => rfl) rfl rfl
        (by simp) (by simp) rfl
        .inl
  | removeChannel =>
      obtain ⟨c, hc, done⟩ := withConn_ok.mp h
      obtain rfl := Except.ok.inj done
      exact executed_same hc rfl (by simp [Stmt.queues, Stmt.arms, Stmt.closes]) (fun _ => rfl) rfl rfl
        (by simp) (by simp) rfl
        nofun
  | runAfter kind =>
      obtain ⟨c, hc, done⟩ := withConn_ok.mp h
      obtain rfl := Except.ok.inj done
      exact executed_same hc rfl (by simp [Stmt.queues, Stmt.arms, Stmt.closes]) (fun _ => rfl) rfl rfl
        (by simp) (by simp) rfl
        .inl
  | addFunc =>
      obtain ⟨c, hc, done⟩ := withConn_ok.mp h
      obtain rfl := Except.ok.inj done
      exact executed_same hc rfl (by simp [Stmt.queues, Stmt.arms, Stmt.closes]) (fun _ => rfl) rfl rfl
        (by simp) (by simp) rfl
        .inl
  | deleteConn =>
      obtain ⟨c, hc, done⟩ := withConn_ok.mp h
      obtain rfl := Except.ok.inj done
      refine ⟨rfl, rfl, rfl, rfl, rfl, rfl, rfl, (List.append_nil _).symm, rfl, .inl,
        fun _ => .inr rfl, ?_⟩
      intro c' hc'
      cases hc'
  | setEvent event =>
      obtain ⟨c, hc, done⟩ := withConn_ok.mp h
      obtain rfl := Except.ok.inj done
      exact executed_setConn hc ⟨rfl, rfl, rfl, rfl, rfl, rfl, rfl, (List.append_nil _).symm, rfl⟩
        (by simp) ⟨rfl, rfl⟩ rfl fun _ _ => rfl
  | updateChannel =>
      obtain ⟨c, hc, done⟩ := withConn_ok.mp h
      obtain rfl := Except.ok.inj done
      exact executed_setConn hc ⟨rfl, rfl, rfl, rfl, rfl, rfl, rfl, (List.append_nil _).symm, rfl⟩
        (by simp) ⟨rfl, rfl⟩ rfl fun _ _ => rfl
  | bumpTimer =>
      obtain ⟨c, hc, done⟩ := withConn_ok.mp h
      obtain rfl := Except.ok.inj done
      exact executed_setConn hc ⟨rfl, rfl, rfl, rfl, rfl, rfl, rfl, (List.append_nil _).symm, rfl⟩
        (by simp) ⟨rfl, rfl⟩ rfl fun _ _ => rfl
  | install callback =>
      obtain ⟨c, hc, done⟩ := withConn_ok.mp h
      obtain rfl := Except.ok.inj done
      exact executed_setConn hc ⟨rfl, rfl, rfl, rfl, rfl, rfl, rfl, rfl, rfl⟩
        (by simp) ⟨rfl, rfl⟩ rfl fun _ _ => rfl
  | deleteContext =>
      obtain ⟨c, hc, done⟩ := withConn_ok.mp h
      obtain rfl := Except.ok.inj done
      exact executed_setConn hc ⟨rfl, rfl, rfl, rfl, rfl, rfl, rfl, (List.append_nil _).symm, rfl⟩
        (by simp) ⟨rfl, rfl⟩ rfl fun _ _ => rfl
  | clearBuffers =>
      obtain ⟨c, hc, done⟩ := withConn_ok.mp h
      obtain rfl := Except.ok.inj done
      exact executed_setConn hc ⟨rfl, rfl, rfl, rfl, rfl, rfl, rfl, (List.append_nil _).symm, rfl⟩
        (by simp) ⟨rfl, rfl⟩ rfl fun _ _ => rfl
  | setRpcStatus =>
      obtain ⟨c, hc, run⟩ := withConn_ok.mp h
      obtain ⟨c', hctx, done⟩ := bind_ok.mp run
      obtain rfl := Except.ok.inj done
      obtain ⟨ctx, same, rfl⟩ := withContext_ok hctx
      exact executed_setConn hc
        ⟨rfl, rfl, rfl, rfl, rfl, by simp [same], by
          rw [same]
          exact congrArg some (AnyContext.request_modify (by intro c; rfl) ctx),
          (List.append_nil _).symm, rfl⟩
        (by simp) ⟨rfl, rfl⟩ rfl fun _ _ => rfl
  | setPayload respStr =>
      obtain ⟨c, hc, run⟩ := withConn_ok.mp h
      obtain ⟨c', hctx, done⟩ := bind_ok.mp run
      obtain rfl := Except.ok.inj done
      obtain ⟨ctx, same, rfl⟩ := withContext_ok hctx
      exact executed_setConn hc
        ⟨rfl, rfl, rfl, rfl, rfl, by simp [same], by
          rw [same]
          exact congrArg some (AnyContext.request_modify (by intro c; rfl) ctx),
          (List.append_nil _).symm, rfl⟩
        (by simp) ⟨rfl, rfl⟩ rfl fun _ _ => rfl
  | packResponse n =>
      obtain ⟨c, hc, run⟩ := withConn_ok.mp h
      obtain ⟨c', hpack, done⟩ := bind_ok.mp run
      obtain rfl := Except.ok.inj done
      obtain ⟨ctx, wbuf, same, _, rfl⟩ := packResponse_ok hpack
      refine ⟨rfl, rfl, rfl, rfl, rfl, rfl, rfl, rfl, rfl, .inl, nofun, fun c'' hc'' => ?_⟩
      obtain rfl := Option.some.inj hc''
      exact ⟨by simp, c, hc, ⟨rfl, rfl, rfl, rfl, rfl, rfl, rfl, (List.append_nil _).symm, rfl⟩,
        (List.append_nil _).symm⟩

/-- The three ways through `handle_events`. -/
inductive Handling (c : TCPConnection) (events : Events) (io : SocketResults) : Handled → Prop
  | read {n rbuf} : events.epollin = true → c.rbuf.readFd io.read = .ok (n, rbuf) →
      Handling c events io { conn := { c with rbuf }
                             call := c.installed (if n = 0 then .close else .dataRead) }
  | write {t wbuf sent} : events.epollin = false → events.epollout = true →
      c.wbuf.writeFd io.head io.extra = .ok (t, wbuf, sent) →
      Handling c events io { conn := { c with wbuf }, sent
                             call := if wbuf.readable = 0 then c.installed .writeComplete else none }
  | other {call} : (call = none ∨ call = some .clientConn) → Handling c events io { conn := c, call }

theorem handleEvents_ok {out : Handled} (h : c.handleEvents events io = .ok out) :
    Handling c events io out := by
  unfold TCPConnection.handleEvents at h
  split_ifs at h with hin hout hconn
  · obtain ⟨⟨n, rbuf⟩, hread, built⟩ := bind_ok.mp h
    obtain rfl := Except.ok.inj built
    exact .read hin hread
  · obtain ⟨⟨t, wbuf, sent⟩, hwrite, built⟩ := bind_ok.mp h
    obtain rfl := Except.ok.inj built
    exact .write (Bool.eq_false_iff.mpr hin) hout hwrite
  · obtain rfl := Except.ok.inj h
    refine .other ?_
    unfold TCPConnection.installed
    split_ifs
    · exact .inr rfl
    · exact .inl rfl
  · obtain rfl := Except.ok.inj h
    exact .other (.inl rfl)

/-- Reading changes no more of a connection than parsing does. -/
def Parsed (c c' : TCPConnection) : Prop :=
  c' = { c with protoIdx := c'.protoIdx, ctx := c'.ctx, rbuf := c'.rbuf }

theorem Parsed.rbuf (c : TCPConnection) (rbuf : Buffer) : Parsed c { c with rbuf } := rfl

theorem Parsed.trans {c'' : TCPConnection} (h : Parsed c c') (k : Parsed c' c'') : Parsed c c'' := by
  unfold Parsed at h k ⊢
  rw [k, h]

theorem dataReadCallback_parsed {next : PbServer.DataRead}
    (h : srv.dataReadCallback c = .ok (next, c')) : Parsed c c' := by
  obtain ⟨⟨status, protoIdx, s⟩, _, h⟩ := bind_ok.mp h
  cases status with
  | none =>
      cases h
      rfl
  | some status =>
      cases status <;> cases h <;> rfl

/-- The three ways from a read to `close_callback`. -/
inductive ReadCloses (srv : PbServer) (c : TCPConnection) (io : SocketResults) :
    TCPConnection → Prop
  | eof {rbuf : Buffer} : c.rbuf.readFd io.read = .ok (0, rbuf) → ReadCloses srv c io { c with rbuf }
  | unparsed {n : Int} {rbuf : Buffer} {d : TCPConnection} : c.rbuf.readFd io.read = .ok (n, rbuf) →
      n ≠ 0 → srv.dataReadCallback { c with rbuf } = .ok (.close, d) → .dataRead ∈ c.callbacks →
      ReadCloses srv c io d
  | unserved {n : Int} {rbuf : Buffer} {d : TCPConnection} : c.rbuf.readFd io.read = .ok (n, rbuf) →
      n ≠ 0 → srv.dataReadCallback { c with rbuf } = .ok (.request, d) →
      srv.requestCallback d = .ok none → .dataRead ∈ c.callbacks → ReadCloses srv c io d

theorem ReadCloses.parsed (h : ReadCloses srv c io c') : Parsed c c' := by
  cases h with
  | eof _ => exact .rbuf c _
  | unparsed _ _ hcall _ => exact (Parsed.rbuf c _).trans (dataReadCallback_parsed hcall)
  | unserved _ _ hcall _ _ => exact (Parsed.rbuf c _).trans (dataReadCallback_parsed hcall)

/-- The ways in which the handling of an event ends. -/
inductive Outcome (srv : PbServer) (l : Lifetime) (c : TCPConnection) (events : Events)
    (io : SocketResults) (answer : Answer) : Lifetime → Prop
  | wrote {wbuf : Buffer} : Outcome srv l c events io answer (l.setConn { c with wbuf })
  | ignored {n : Int} {rbuf : Buffer} : c.rbuf.readFd io.read = .ok (n, rbuf) →
      Outcome srv l c events io answer (l.setConn { c with rbuf })
  | closes {d : TCPConnection} : events.epollin = true → ReadCloses srv c io d →
      Outcome srv l c events io answer { l.setConn d with agenda := PbServer.closeCallback }
  | completes {t : Int} {wbuf : Buffer} {sent : List Piece} {ctx : AnyContext} :
      events.epollin = false → events.epollout = true →
      c.wbuf.writeFd io.head io.extra = .ok (t, wbuf, sent) → wbuf.readable = 0 → c.ctx = some ctx →
      Outcome srv l c events io answer
        { l.setConn { c with wbuf } with
          agenda := srv.writeCompleteCallback ctx.base.connType
          packed := [], written := l.written ++ l.packed }
  | waits {n : Int} {rbuf : Buffer} {d : TCPConnection} : events.epollin = true →
      c.rbuf.readFd io.read = .ok (n, rbuf) → n ≠ 0 → .dataRead ∈ c.callbacks →
      srv.dataReadCallback { c with rbuf } = .ok (.wait, d) →
      Outcome srv l c events io answer (l.setConn d)
  | dispatches {n : Int} {rbuf : Buffer} {d : TCPConnection} {request : Request} :
      events.epollin = true → c.rbuf.readFd io.read = .ok (n, rbuf) → n ≠ 0 →
      .dataRead ∈ c.callbacks → srv.dataReadCallback { c with rbuf } = .ok (.request, d) →
      srv.requestCallback d = .ok (some request) →
      Outcome srv l c events io answer
        { l.setConn d with packs := l.packs ++
            [⟨request, answer.later, srv.responseCallback l.packs.length answer.respStr⟩] }

theorem installed_cases (c : TCPConnection) (callback : Callback) :
    (c.installed callback = none ∧ callback ∉ c.callbacks) ∨
      (c.installed callback = some callback ∧ callback ∈ c.callbacks) := by
  unfold TCPConnection.installed
  split_ifs with hi
  · exact .inr ⟨rfl, hi⟩
  · exact .inl ⟨rfl, hi⟩

/-- A read that was not an end of file, on a server connection. -/
theorem dataRead_ok {n : Int} {rbuf : Buffer} (hin : events.epollin = true)
    (hread : c.rbuf.readFd io.read = .ok (n, rbuf)) (hn : n ≠ 0) (installed : .dataRead ∈ c.callbacks)
    (h : l.dataRead srv { c with rbuf } answer = .ok l') : Outcome srv l c events io answer l' := by
  obtain ⟨⟨next, d⟩, hcall, h⟩ := bind_ok.mp h
  cases next with
  | wait =>
      obtain rfl := Except.ok.inj h
      exact .waits hin hread hn installed hcall
  | close =>
      change close _ _ = _ at h
      unfold close at h
      split_ifs at h
      obtain rfl := Except.ok.inj h
      exact .closes hin (.unparsed hread hn hcall installed)
  | request =>
      obtain ⟨result, hreq, h⟩ := bind_ok.mp h
      cases result with
      | none =>
          obtain rfl := Except.ok.inj h
          exact .closes hin (.unserved hread hn hcall hreq installed)
      | some request =>
          obtain rfl := Except.ok.inj h
          exact .dispatches hin hread hn installed hcall hreq

theorem writeComplete_ok (h : l.writeComplete srv c = .ok l') : ∃ ctx, c.ctx = some ctx ∧
    l' = { l with agenda := srv.writeCompleteCallback ctx.base.connType
                  packed := [], written := l.written ++ l.packed } := by
  unfold writeComplete at h
  split at h
  · cases h
  · exact ⟨_, by assumption, (Except.ok.inj h).symm⟩

theorem handle_ok (hc : l.conn = some c) (h : l.handle srv events io answer = .ok l') :
    Outcome srv l c events io answer l' := by
  rw [handle, withConn_some hc] at h
  obtain ⟨out, hout, h⟩ := bind_ok.mp h
  cases handleEvents_ok hout with
  | other hcall =>
      rcases hcall with rfl | rfl
      · obtain rfl := Except.ok.inj h
        exact .wrote
      · obtain rfl := Except.ok.inj h
        exact .wrote
  | @write t wbuf sent hin hev hwrite =>
      rcases installed_cases c .writeComplete with ⟨hi, _⟩ | ⟨hi, _⟩
      · simp only [hi, ite_self] at h
        obtain rfl := Except.ok.inj h
        exact .wrote
      · split_ifs at h with empty
        · simp only [hi] at h
          obtain ⟨ctx, hctx, rfl⟩ := writeComplete_ok h
          exact .completes hin hev hwrite empty hctx
        · obtain rfl := Except.ok.inj h
          exact .wrote
  | @read n rbuf hin hread =>
      by_cases hn : n = 0
      · rcases installed_cases c .close with ⟨hi, _⟩ | ⟨hi, _⟩
        · simp only [hn, if_true, hi] at h
          obtain rfl := Except.ok.inj h
          exact .ignored hread
        · simp only [hn, if_true, hi] at h
          obtain rfl := Except.ok.inj h
          exact .closes hin (.eof (hn ▸ hread))
      · rcases installed_cases c .dataRead with ⟨hi, _⟩ | ⟨hi, installed⟩
        · simp only [hn, if_false, hi] at h
          obtain rfl := Except.ok.inj h
          exact .ignored hread
        · simp only [hn, if_false, hi] at h
          exact dataRead_ok hin hread hn installed h

/-- Everything a move can do. -/
inductive Moved (srv : PbServer) (l : Lifetime) : Move → Lifetime → Prop
  | setup {s : Stmt} {rest : List Stmt} {l' : Lifetime} : l.setup = s :: rest →
      Executed s { l with setup := rest } l' → Moved srv l .setup l'
  | stmt {s : Stmt} {rest : List Stmt} {l' : Lifetime} : l.agenda = s :: rest →
      Executed s { l with agenda := rest } l' → Moved srv l .stmt l'
  | respond {n : Nat} {pack : Pack} {s : Stmt} {rest : List Stmt} {l' : Lifetime} :
      l.packs[n]? = some pack → pack.todo = s :: rest →
      Executed s { l with packs := l.packs.set n { pack with todo := rest } } l' →
      Moved srv l (.respond n) l'
  | event {events : Events} {io : SocketResults} {answer : Answer} {c : TCPConnection}
      {l' : Lifetime} : l.AtRest → (answer.later = true → srv.async = true) → l.conn = some c →
      Reported c events → Possible c io →
      Outcome srv { l with phase := .handled } c events io answer l' →
      Moved srv l (.event events io answer) l'
  | quiet : l.AtRest → Moved srv l .quiet { l with phase := .handled }
  | swap : l.AtRest → l.phase = .handled →
      Moved srv l .swap { l with phase := .funcs l.queued, queued := 0 }
  | func {n : Nat} {l' : Lifetime} : l.AtRest → l.phase = .funcs (n + 1) →
      Executed .updateChannel { l with phase := .funcs n } l' → Moved srv l .func l'
  | drain {expired left : List Timer} : l.AtRest → l.phase = .funcs 0 →
      l.timers.Perm (expired ++ left) →
      Moved srv l (.drain expired left) { l with phase := .timers expired, timers := left }
  | expire {timer : Timer} {rest : List Timer} {c : TCPConnection} : l.AtRest →
      l.phase = .timers (timer :: rest) → l.listed = true → l.conn = some c →
      c.timerId % 2 ^ 32 = timer.id % 2 ^ 32 →
      Moved srv l .timer { l with phase := .timers rest, agenda := PbServer.closeCallback }
  | stale {timer : Timer} {rest : List Timer} : l.AtRest → l.phase = .timers (timer :: rest) →
      Moved srv l .timer { l with phase := .timers rest }
  | poll : l.AtRest → l.phase = .timers [] → Moved srv l .poll { l with phase := .polling }
  | fault {m : Move} {f : Fault} : l.Enabled srv m → Moved srv l m { l with fault := some f }

theorem effect_moved (enabled : l.Enabled srv m) (h : l.effect srv m = .ok l') :
    Moved srv l m l' := by
  cases m with
  | setup =>
      simp only [effect] at h
      cases hs : l.setup with
      | nil => exact absurd hs enabled
      | cons s rest =>
          rw [hs] at h
          exact .setup hs (exec_ok h)
  | stmt =>
      simp only [effect] at h
      cases hs : l.agenda with
      | nil => exact absurd hs enabled
      | cons s rest =>
          rw [hs] at h
          exact .stmt hs (exec_ok h)
  | respond n =>
      obtain ⟨pack, hp, ht⟩ := enabled
      rw [Option.mem_def] at hp
      simp only [effect, hp] at h
      cases hs : pack.todo with
      | nil => exact absurd hs ht
      | cons s rest =>
          rw [hs] at h
          exact .respond hp hs (exec_ok h)
  | event events io answer =>
      obtain ⟨rest, _, later, c, hc, reported, possible⟩ := enabled
      exact .event rest later hc reported possible (handle_ok hc h)
  | quiet =>
      obtain rfl := Except.ok.inj h
      exact .quiet enabled.1
  | swap =>
      obtain rfl := Except.ok.inj h
      exact .swap enabled.1 enabled.2
  | func =>
      obtain ⟨rest, hn⟩ := enabled
      simp only [effect] at h
      cases hp : l.phase with
      | funcs n =>
          cases n with
          | zero => simp [hp, Phase.funcsLeft] at hn
          | succ n =>
              rw [hp] at h
              exact .func rest hp (exec_ok h)
      | polling => simp [hp, Phase.funcsLeft] at hn
      | handled => simp [hp, Phase.funcsLeft] at hn
      | timers _ => simp [hp, Phase.funcsLeft] at hn
  | drain expired left =>
      obtain rfl := Except.ok.inj h
      exact .drain enabled.1 enabled.2.1 enabled.2.2
  | timer =>
      obtain ⟨rest, hn⟩ := enabled
      simp only [effect] at h
      cases hp : l.phase with
      | timers expired =>
          cases expired with
          | nil => simp [hp, Phase.expired] at hn
          | cons timer timers =>
              rw [hp] at h
              simp only [timeoutCallback] at h
              split_ifs at h with listed
              · obtain ⟨c, hc, h⟩ := withConn_ok.mp h
                split_ifs at h with same
                · obtain rfl := Except.ok.inj h
                  exact .expire rest hp listed hc same
                · obtain rfl := Except.ok.inj h
                  exact .stale rest hp
              · obtain rfl := Except.ok.inj h
                exact .stale rest hp
      | polling => simp [hp, Phase.expired] at hn
      | handled => simp [hp, Phase.expired] at hn
      | funcs _ => simp [hp, Phase.expired] at hn
  | poll =>
      obtain rfl := Except.ok.inj h
      exact .poll enabled.1 enabled.2

theorem step_moved (h : Step srv l m l') : Moved srv l m l' := by
  obtain ⟨_, enabled, rfl⟩ := h
  unfold next
  cases he : l.effect srv m with
  | ok l' => exact effect_moved enabled he
  | error f => exact .fault enabled

/-- What is left to be executed by the loop, in the callback it is in or inside of a
`CallMethod`, and by the services' threads. -/
def pending (l : Lifetime) : List Stmt := l.agenda ++ l.packs.flatMap Pack.todo

theorem mem_pending : s ∈ l.pending ↔ s ∈ l.agenda ∨ ∃ pack ∈ l.packs, s ∈ pack.todo := by
  rw [pending, List.mem_append, List.mem_flatMap]

/-- The same with what is left of the setting up. -/
def statements (l : Lifetime) : List Stmt := l.setup ++ l.pending

theorem mem_statements : s ∈ l.statements ↔
    s ∈ l.setup ∨ s ∈ l.agenda ∨ ∃ pack ∈ l.packs, s ∈ pack.todo := by
  rw [statements, List.mem_append, mem_pending]

theorem Executed.statements (run : Executed s l l') : l'.statements = l.statements := by
  rw [Lifetime.statements, Lifetime.statements, pending, pending, run.setup, run.agenda, run.packs]

/-- The statement a move executes was waiting, and so is what it leaves. -/
theorem Outcome.statements {t : Stmt} (outcome : Outcome srv l c events io answer l')
    (ht : t ∈ l'.statements) : t ∈ l.statements ∨
      t ∈ PbServer.closeCallback ∨ (∃ connType, t ∈ srv.writeCompleteCallback connType) ∨
      ∃ n respStr, t ∈ srv.responseCallback n respStr := by
  rw [mem_statements] at ht ⊢
  have idle : ∀ {a : List Stmt}, t ∈ l.setup ∨ t ∈ a ∨ (∃ pack ∈ l.packs, t ∈ pack.todo) →
      (t ∈ l.setup ∨ t ∈ l.agenda ∨ ∃ pack ∈ l.packs, t ∈ pack.todo) ∨ t ∈ a := by
    rintro a (setup | agenda | pack)
    · exact .inl (.inl setup)
    · exact .inr agenda
    · exact .inl (.inr (.inr pack))
  cases outcome with
  | wrote => exact .inl ht
  | ignored _ => exact .inl ht
  | waits _ _ _ _ _ => exact .inl ht
  | closes _ _ => exact (idle ht).imp_right .inl
  | completes _ _ _ _ _ => exact (idle ht).imp_right fun h => .inr (.inl ⟨_, h⟩)
  | dispatches _ _ _ _ _ _ =>
      rcases ht with setup | agenda | ⟨pack, hm, ht⟩
      · exact .inl (.inl setup)
      · exact .inl (.inr (.inl agenda))
      · rcases List.mem_append.mp hm with old | new
        · exact .inl (.inr (.inr ⟨pack, old, ht⟩))
        · rw [List.mem_singleton.mp new] at ht
          exact .inr (.inr (.inr ⟨_, _, ht⟩))

/-- Every statement that is ever executed comes from one of the four callbacks. -/
theorem statements_step {t : Stmt} (step : Step srv l m l') (ht : t ∈ l'.statements) :
    t ∈ l.statements ∨ t ∈ PbServer.closeCallback ∨
      (∃ connType, t ∈ srv.writeCompleteCallback connType) ∨
      ∃ n respStr, t ∈ srv.responseCallback n respStr := by
  cases step_moved step with
  | fault _ => exact .inl ht
  | setup hs run =>
      rw [run.statements, mem_statements] at ht
      exact .inl (mem_statements.mpr (ht.imp_left fun ht => by rw [hs]; exact List.mem_cons_of_mem _ ht))
  | stmt hs run =>
      rw [run.statements, mem_statements] at ht
      refine .inl (mem_statements.mpr (ht.imp_right fun ht => ht.imp_left fun ht => ?_))
      rw [hs]
      exact List.mem_cons_of_mem _ ht
  | @respond n pack s rest _ hp hs run =>
      rw [run.statements, mem_statements] at ht
      refine .inl (mem_statements.mpr (ht.imp_right fun ht => ht.imp_right ?_))
      rintro ⟨p, hm, ht⟩
      rcases List.mem_or_eq_of_mem_set hm with old | rfl
      · exact ⟨p, old, ht⟩
      · exact ⟨pack, List.mem_of_getElem? hp, by rw [hs]; exact List.mem_cons_of_mem _ ht⟩
  | event _ _ _ _ _ outcome => exact outcome.statements ht
  | quiet _ => exact .inl ht
  | swap _ _ => exact .inl ht
  | func _ _ run =>
      rw [run.statements] at ht
      exact .inl ht
  | drain _ _ _ => exact .inl ht
  | expire _ _ _ _ _ =>
      rw [mem_statements] at ht
      rcases ht with setup | agenda | pack
      · exact .inl (mem_statements.mpr (.inl setup))
      · exact .inr (.inl agenda)
      · exact .inl (mem_statements.mpr (.inr (.inr pack)))
  | stale _ _ => exact .inl ht
  | poll _ _ => exact .inl ht

end Lifetime
end SmallRpc
