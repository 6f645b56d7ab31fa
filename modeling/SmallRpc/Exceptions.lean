import SmallRpc.Faults
import SmallRpc.HttpSafety
import SmallRpc.Views

/-! Exceptions. No loop catches one, so one that escapes from a callback ends the process. On
a connection that is set up they come from the `Content-Length` of a peer, and from nothing
else. -/
namespace SmallRpc
open Buffer (ReadResult)
open Lifetime (ReadPossible)

/-- What a session is between two reads: not recognised yet, a sound HTTP parser, or a
binary one whose payload runs forwards. -/
inductive Session.Steady : Session → Prop
  | unrecognised {b : Buffer} : b.Wf → 0 < b.data.length → Steady ⟨none, b⟩
  | http {ctx : HTTPContext} {b : Buffer} : HTTPParser.Sound ⟨ctx, b⟩ → Steady ⟨some (.http ctx), b⟩
  | simple {ctx : SimpleContext} {b : Buffer} : 0 < b.data.length →
      ctx.payloadView.beginIdx ≤ ctx.payloadView.endIdx → Steady ⟨some (.simple ctx), b⟩

namespace Session
variable {s s' : Session} {ctx ctx' : Option AnyContext} {b b' : Buffer} {r : ReadResult} {n : Int}
  {protocol : Protocol} {protocols : List Protocol} {protoIdx : Nat} {status : ParseProtocolStatus}

theorem Steady.storage (h : s.Steady) : 0 < s.buf.data.length := by
  cases h with
  | unrecognised _ storage => exact storage
  | http sound => exact sound.storage
  | simple storage _ => exact storage

theorem steady_of_sound (h : HTTPProtocol.Sound s) : s.Steady := by
  obtain ⟨ctx, b⟩ := s
  rcases h with ⟨rfl, wf, storage⟩ | ⟨ctx, rfl, sound⟩
  · exact .unrecognised wf storage
  · exact .http sound

/-- The answer that is put into a context does not matter. -/
theorem Steady.congr (h : Steady ⟨ctx, b⟩)
    (same : ctx'.map AnyContext.request = ctx.map AnyContext.request) : Steady ⟨ctx', b⟩ := by
  cases h with
  | unrecognised wf storage =>
      rw [Option.map_none, Option.map_eq_none_iff] at same
      rw [same]
      exact .unrecognised wf storage
  | @http ctx _ sound =>
      obtain ⟨other, rfl, asked⟩ := Option.map_eq_some_iff.mp same
      cases other with
      | simple other => cases asked
      | http other =>
          have parsed := AnyContext.http.inj asked
          have base := congrArg HTTPContext.toContext parsed
          have view : other.payloadView = ctx.payloadView := (congrArg Context.payloadView base :)
          have size : other.bodySize = ctx.bodySize := (congrArg HTTPContext.bodySize parsed :)
          have stage : other.stage = ctx.stage := (congrArg HTTPContext.stage parsed :)
          have headers : other.headers = ctx.headers := (congrArg HTTPContext.headers parsed :)
          refine .http ⟨sound.wf, sound.storage, ?_, fun h3 => ?_⟩
          · unfold HTTPContext.LengthRecorded
            simp only [headers, size]
            exact sound.recorded
          · obtain ⟨inside, declared⟩ := sound.answered (stage ▸ h3)
            refine ⟨?_, ?_⟩
            · simp only [view]
              exact inside
            · unfold HTTPParser.BodyDeclared
              simp only [headers, view]
              exact declared
  | @simple ctx _ storage order =>
      obtain ⟨other, rfl, asked⟩ := Option.map_eq_some_iff.mp same
      cases other with
      | http other => cases asked
      | simple other =>
          have base := congrArg SimpleContext.toContext (AnyContext.simple.inj asked)
          have view : other.payloadView = ctx.payloadView := (congrArg Context.payloadView base :)
          exact .simple storage (by rw [view]; exact order)

theorem readFd_storage (h : 0 < b.data.length) (possible : ReadPossible b r)
    (read : b.readFd r = .ok (n, b')) : 0 < b'.data.length := by
  have room : 0 < b.makeRoom.data.length := h.trans_le (Buffer.makeRoom_storage b)
  cases r with
  | data bs =>
      cases read
      have some := List.length_pos_iff.mpr possible.1
      simp only [Buffer.put, List.length_append]
      omega
  | eof =>
      cases read
      exact room
  | again =>
      cases read
      exact room
  | failed => cases read

theorem Steady.readFd (h : Steady ⟨ctx, b⟩) (possible : ReadPossible b r)
    (read : b.readFd r = .ok (n, b')) : Steady ⟨ctx, b'⟩ := by
  have fits : ∀ bs, r = .data bs → b.windex + bs.length ≤ b.makeRoom.data.length := by
    rintro bs rfl
    exact possible.2
  cases h with
  | unrecognised wf storage =>
      have got := wf.recv storage r.bytes
      rw [← wf.readFd_recv read fits] at got
      exact .unrecognised got.wf (storage.trans_le got.storage)
  | http sound =>
      have recv := sound.recv r.bytes
      rw [HTTPParser.recv, ← sound.wf.readFd_recv read fits] at recv
      exact .http recv
  | simple storage order => exact .simple (readFd_storage storage possible read) order

theorem simple_resume {ctx : SimpleContext} (storage : 0 < b.data.length)
    (order : ctx.payloadView.beginIdx ≤ ctx.payloadView.endIdx)
    (h : SimpleProtocol.resume ctx b = .ok (status, s')) : s'.Steady := by
  obtain ⟨⟨o, q⟩, hq, done⟩ := bind_ok.mp h
  cases done
  have passed := SimpleParser.parse_passed (.inl hq)
  refine .simple (by rw [passed.data]; exact storage) ?_
  rcases passed.view with same | behind
  · rw [same]
    exact order
  · exact behind.1

theorem simple_steady (h : s.Steady) (out : SimpleProtocol.parseRequest s = .ok (status, s')) :
    s'.Steady := by
  cases h with
  | @unrecognised b wf storage =>
      simp only [SimpleProtocol.parseRequest] at out
      split_ifs at out
      · cases out
        exact .unrecognised wf storage
      · obtain ⟨magic, _, out⟩ := bind_ok.mp out
        split_ifs at out
        · cases out
          exact .unrecognised wf storage
        · exact simple_resume storage le_rfl out
  | simple storage order => exact simple_resume storage order out
  | http sound =>
      cases out
      exact .http sound

/-- Away from a bad length a parser throws nothing. -/
theorem Steady.parse (h : s.Steady) (good : protocol = .http → ¬ HTTPProtocol.BadLength s) :
    Faults (· = .outOfStorage) (protocol.parseRequest s) ∧
      ∀ status s', protocol.parseRequest s = .ok (status, s') → s'.Steady := by
  cases protocol with
  | simple => exact ⟨simple_faults, fun _ _ out => simple_steady h out⟩
  | http =>
      have sound : HTTPProtocol.Sound s → Faults (· = .outOfStorage) (HTTPProtocol.parseRequest s) ∧
          ∀ status s', HTTPProtocol.parseRequest s = .ok (status, s') → s'.Steady := by
        intro sound
        obtain ⟨status, s', out, sound', _⟩ := sound.call (good rfl)
        rw [out]
        refine ⟨faults_ok, fun status s' same => ?_⟩
        cases same
        exact steady_of_sound sound'
      cases h with
      | unrecognised wf storage => exact sound (.inl ⟨rfl, wf, storage⟩)
      | http there => exact sound (.inr ⟨_, rfl, there⟩)
      | simple storage order =>
          refine ⟨faults_ok, fun status s' same => ?_⟩
          cases same
          exact .simple storage order

/-- The payload of a complete message can be copied out. -/
theorem Steady.complete (h : s.Steady) (complete : protocol.Complete s) : ∃ ctx, s.ctx = some ctx ∧
    ctx.base.payloadView.beginIdx ≤ ctx.base.payloadView.endIdx := by
  obtain ⟨ctx, n, hs, progress, stages⟩ := complete
  refine ⟨ctx, hs, ?_⟩
  cases h with
  | unrecognised _ _ => cases hs
  | http sound =>
      cases hs
      obtain ⟨rfl, rfl⟩ := Prod.mk.inj progress
      exact (sound.answered stages).inside.1
  | simple _ order =>
      cases hs
      exact order

end Session

namespace PbServer
variable {srv : PbServer} {c d : TCPConnection} {protocols : List Protocol} {protoIdx idx : Nat}
  {s s' : Session} {status : Option ParseProtocolStatus} {next : DataRead}

theorem tryProtocols_steady (h : s.Steady)
    (good : .http ∈ protocols → ¬ HTTPProtocol.BadLength s) :
    Faults (· = .outOfStorage) (tryProtocols protocols protoIdx s) ∧
      ∀ status idx s', tryProtocols protocols protoIdx s = .ok (status, idx, s') → s'.Steady := by
  induction protocols generalizing protoIdx with
  | nil =>
      refine ⟨faults_ok, fun status idx s' out => ?_⟩
      cases out
      exact h
  | cons protocol rest ih =>
      obtain ⟨faults, steady⟩ := h.parse fun http => good (http ▸ List.mem_cons_self)
      have later := @ih (protoIdx + 1) fun http => good (List.mem_cons_of_mem _ http)
      constructor
      · refine faults.bind_ok fun answer out => ?_
        obtain ⟨status, t⟩ := answer
        have answered := Protocol.parseRequest_answered out
        cases answered with
        | tryAnotherProtocol same _ =>
            subst same
            exact later.1
        | success _ => exact faults_pure
        | error _ => exact faults_pure
        | noEnoughData _ => exact faults_pure
      · intro status idx s' out
        obtain ⟨⟨o, t⟩, hparse, last⟩ := bind_ok.mp out
        have answered := Protocol.parseRequest_answered hparse
        cases answered with
        | tryAnotherProtocol same _ =>
            subst same
            exact later.2 status idx s' last
        | success _ =>
            cases last
            exact steady _ _ hparse
        | error _ =>
            cases last
            exact steady _ _ hparse
        | noEnoughData _ =>
            cases last
            exact steady _ _ hparse

theorem dataReadCallback_steady (h : Session.Steady ⟨c.ctx, c.rbuf⟩)
    (good : .http ∈ srv.protocols.drop c.protoIdx → ¬ HTTPProtocol.BadLength ⟨c.ctx, c.rbuf⟩) :
    Faults (· = .outOfStorage) (srv.dataReadCallback c) ∧
      ∀ next d, srv.dataReadCallback c = .ok (next, d) → Session.Steady ⟨d.ctx, d.rbuf⟩ := by
  obtain ⟨faults, steady⟩ := @tryProtocols_steady _ c.protoIdx _ h good
  constructor
  · refine faults.bind fun result => ?_
    obtain ⟨status, idx, s⟩ := result
    dsimp only
    split
    all_goals exact faults_pure
  · intro next d out
    obtain ⟨⟨status, idx, s⟩, tried, out⟩ := bind_ok.mp out
    have there := steady _ _ _ tried
    dsimp only at out
    split at out
    all_goals
      cases out
      exact there

theorem requestCallback_storage (h : Session.Steady ⟨c.ctx, c.rbuf⟩) (complete : srv.Complete c) :
    Faults (· = .outOfStorage) (srv.requestCallback c) := by
  obtain ⟨protocol, _, complete⟩ := complete
  obtain ⟨ctx, hctx, order⟩ := h.complete complete
  have str : Faults (· = .outOfStorage) (ctx.base.payloadView.str c.rbuf) := by
    unfold BufferView.str
    split_ifs
    · exact copy_faults
    · exact faults_ok
  unfold requestCallback
  rw [show c.ctx = some ctx from hctx]
  exact str.bind fun _ => faults_pure

end PbServer

/-- What a read leads to throws nothing: an unset close callback is not called, and the head
in front of the HTTP parser declares a length that it can take. -/
def TCPConnection.Harmless (srv : PbServer) (c : TCPConnection) (r : ReadResult) : Prop :=
  .close ∈ c.callbacks ∧ (.http ∈ srv.protocols.drop c.protoIdx →
    ¬ HTTPProtocol.BadLength ⟨c.ctx, c.rbuf.recv r.bytes⟩)

instance (srv : PbServer) (c : TCPConnection) (r : ReadResult) : Decidable (c.Harmless srv r) :=
  inferInstanceAs (Decidable (_ ∧ (_ → _)))

namespace Lifetime
open TCPConnection (Harmless)

/-- Neither a context is deleted nor the buffers cleared. -/
def Plain (stmts : List Stmt) : Prop := ∀ s ∈ stmts, s ≠ .deleteContext ∧ s ≠ .clearBuffers

instance (stmts : List Stmt) : Decidable (Plain stmts) :=
  inferInstanceAs (Decidable (∀ s ∈ stmts, _ ∧ _))

/-- The next read finds a steady session, by the time the callback is over: a context goes
together with the bytes that were read for it. -/
inductive Ready : List Stmt → TCPConnection → Prop
  | parses {agenda : List Stmt} {c : TCPConnection} : Plain agenda →
      Session.Steady ⟨c.ctx, c.rbuf⟩ → Ready agenda c
  | completes {rest : List Stmt} {c : TCPConnection} : Plain rest → 0 < c.rbuf.data.length →
      Ready (.deleteContext :: .clearBuffers :: rest) c
  | deleted {rest : List Stmt} {c : TCPConnection} : Plain rest → c.ctx = none →
      0 < c.rbuf.data.length → Ready (.clearBuffers :: rest) c

structure Calm (l : Lifetime) : Prop where
  setup : Plain l.setup
  packs : ∀ pack ∈ l.packs, Plain pack.todo
  ready : ∀ c, l.conn = some c → Ready l.agenda c

/-- The data that a move reads is harmless. -/
def Decent (srv : PbServer) (l : Lifetime) : Move → Prop
  | .event events io _ => ∀ c ∈ l.conn, events.epollin = true → io.read ≠ .eof →
      .dataRead ∈ c.callbacks → Harmless srv c io.read
  | _ => True

instance (srv : PbServer) (l : Lifetime) : ∀ m, Decidable (l.Decent srv m)
  | .event events io _ => inferInstanceAs (Decidable (∀ c ∈ l.conn, events.epollin = true →
      io.read ≠ .eof → .dataRead ∈ c.callbacks → c.Harmless srv io.read))
  | .setup => inferInstanceAs (Decidable True)
  | .respond _ => inferInstanceAs (Decidable True)
  | .quiet => inferInstanceAs (Decidable True)
  | .stmt => inferInstanceAs (Decidable True)
  | .swap => inferInstanceAs (Decidable True)
  | .func => inferInstanceAs (Decidable True)
  | .drain .. => inferInstanceAs (Decidable True)
  | .timer => inferInstanceAs (Decidable True)
  | .poll => inferInstanceAs (Decidable True)

variable {srv : PbServer} {l l' : Lifetime} {s : Stmt} {c c' d : TCPConnection} {m : Move}
  {events : Events} {io : SocketResults} {answer : Answer} {stmts : List Stmt}

theorem Plain.tail (h : Plain (s :: stmts)) : Plain stmts := fun t ht => h t (List.mem_cons_of_mem _ ht)

theorem plain_append {more : List Stmt} (h : Plain stmts) (k : Plain more) : Plain (stmts ++ more) :=
  fun t ht => (List.mem_append.mp ht).elim (h t) (k t)

theorem plain_armTimer {timeoutMs : Int} {kind : TimerKind} :
    Plain (PbServer.armTimer timeoutMs kind) := by
  unfold PbServer.armTimer
  split_ifs
  · simp [Plain]
  · exact fun _ none => nomatch none

theorem plain_closeCallback : Plain PbServer.closeCallback := by decide

theorem plain_newConnectionCallback : Plain srv.newConnectionCallback :=
  plain_append (plain_append (by decide) plain_armTimer) (by decide)

theorem plain_responseCallback {n : Nat} {respStr : Bytes} :
    Plain (srv.responseCallback n respStr) :=
  plain_append (by simp [Plain]) plain_armTimer

theorem writeCompleteCallback_ready {connType : ConnType} (storage : 0 < c.rbuf.data.length) :
    Ready (srv.writeCompleteCallback connType) c := by
  refine .completes ?_ storage
  split_ifs
  · exact plain_closeCallback
  · change Plain ([.setEvent .epollin, .updateChannel] ++ _)
    exact plain_append (by decide) plain_armTimer

theorem Ready.at_rest (h : Ready l.agenda c) (rest : l.AtRest) : Session.Steady ⟨c.ctx, c.rbuf⟩ := by
  rw [rest.1] at h
  cases h with
  | parses _ steady => exact steady

theorem Ready.storage (h : Ready stmts c) : 0 < c.rbuf.data.length := by
  cases h with
  | parses _ steady => exact steady.storage
  | completes _ storage => exact storage
  | deleted _ _ storage => exact storage

/-- A statement of another thread leaves the session steady. -/
theorem Ready.touched (h : Ready stmts c) (touched : Touched s c c')
    (plain : s ≠ .deleteContext ∧ s ≠ .clearBuffers) : Ready stmts c' := by
  have rbuf := touched.rbuf
  have request := touched.request
  rw [if_neg plain.2] at rbuf
  rw [if_neg plain.1] at request
  cases h with
  | parses others steady =>
      rw [← rbuf] at steady
      exact .parses others (steady.congr request)
  | completes others storage => exact .completes others (by rw [rbuf]; exact storage)
  | deleted others none storage =>
      rw [none, Option.map_none, Option.map_eq_none_iff] at request
      exact .deleted others request (by rw [rbuf]; exact storage)

/-- A statement of the loop's own callback. -/
theorem Ready.next (h : Ready (s :: stmts) c) (touched : Touched s c c') : Ready stmts c' := by
  have rbuf := touched.rbuf
  have request := touched.request
  generalize hs : s :: stmts = agenda at h
  cases h with
  | parses plain steady =>
      subst hs
      exact (Ready.parses plain.tail steady).touched touched (plain s List.mem_cons_self)
  | completes plain storage =>
      obtain ⟨rfl, rfl⟩ := List.cons.inj hs
      rw [if_neg (by simp)] at rbuf
      rw [if_pos rfl, Option.map_eq_none_iff] at request
      exact .deleted plain request (by rw [rbuf]; exact storage)
  | deleted plain none storage =>
      obtain ⟨rfl, rfl⟩ := List.cons.inj hs
      rw [if_pos rfl] at rbuf
      rw [if_neg (by simp), none, Option.map_none, Option.map_eq_none_iff] at request
      refine .parses plain ?_
      rw [request, rbuf]
      exact .unrecognised ⟨le_rfl, Nat.zero_le _⟩ storage

theorem calm_accepted (fd : Nat) : Calm (.accepted srv fd) where
  setup := plain_newConnectionCallback
  packs := nofun
  ready c hc := by
    obtain rfl := Option.some.inj hc
    refine .parses (fun _ none => nomatch none) (.unrecognised (Buffer.ofSize_wf _) ?_)
    change 0 < (List.replicate Buffer.initialBufferSize 0).length
    rw [List.length_replicate]
    exact Nat.zero_lt_succ 1023

/-- What the move does to the data that is read, it does away from a bad length. -/
theorem Decent.read (h : l.Decent srv (.event events io answer)) (hc : l.conn = some c)
    (steady : Session.Steady ⟨c.ctx, c.rbuf⟩) (possible : Possible c io)
    (hin : events.epollin = true) {n : Int} {rbuf : Buffer}
    (read : c.rbuf.readFd io.read = .ok (n, rbuf)) (hn : n ≠ 0) (installed : .dataRead ∈ c.callbacks) :
    .close ∈ c.callbacks ∧ Session.Steady ⟨c.ctx, rbuf⟩ ∧ (.http ∈ srv.protocols.drop c.protoIdx →
      ¬ HTTPProtocol.BadLength ⟨c.ctx, rbuf⟩) := by
  have noEof : io.read ≠ .eof := by
    intro eof
    rw [eof] at read
    cases read
    exact hn rfl
  obtain ⟨close, good⟩ := h c hc hin noEof installed
  refine ⟨close, steady.readFd possible.1 read, fun http bad => ?_⟩
  have fits : ∀ bs, io.read = .data bs → c.rbuf.windex + bs.length ≤ c.rbuf.makeRoom.data.length := by
    intro bs same
    have room := possible.1
    rw [same] at room
    exact room.2
  refine good http ?_
  obtain ⟨ctx, parses, bad⟩ := bad
  generalize hctx : c.ctx = known at steady parses ⊢
  cases steady with
  | unrecognised wf _ =>
      rw [← wf.readFd_recv read fits]
      exact ⟨ctx, parses, bad⟩
  | http sound =>
      rw [← sound.wf.readFd_recv read fits]
      exact ⟨ctx, parses, bad⟩
  | simple _ _ =>
      cases parses with
      | known same => cases same
      | created same => cases same

theorem ready_idle (idle : l.agenda = []) (steady : Session.Steady ⟨c.ctx, c.rbuf⟩) :
    Ready l.agenda c := by
  rw [idle]
  exact .parses (by decide) steady

theorem Calm.outcome (h : Calm l) (hc : l.conn = some c) (rest : l.AtRest) (possible : Possible c io)
    (good : l.Decent srv (.event events io answer)) (outcome : Outcome srv l c events io answer l') :
    Calm l' := by
  have steady := (h.ready c hc).at_rest rest
  have read := @good.read _ _ _ _ _ _ hc steady possible
  have parsed : ∀ {n : Int} {rbuf : Buffer} {next : PbServer.DataRead} {d : TCPConnection},
      events.epollin = true → c.rbuf.readFd io.read = .ok (n, rbuf) → n ≠ 0 →
      .dataRead ∈ c.callbacks → srv.dataReadCallback { c with rbuf } = .ok (next, d) →
      Session.Steady ⟨d.ctx, d.rbuf⟩ := by
    intro n rbuf next d hin hread hn installed call
    obtain ⟨_, steady', harmless⟩ := read hin hread hn installed
    exact (PbServer.dataReadCallback_steady (c := { c with rbuf }) steady' harmless).2 _ _ call
  cases outcome with
  | wrote =>
      refine ⟨h.setup, h.packs, fun d hd => ?_⟩
      obtain rfl := Option.some.inj hd
      exact ready_idle rest.1 steady
  | ignored hread =>
      refine ⟨h.setup, h.packs, fun d hd => ?_⟩
      obtain rfl := Option.some.inj hd
      exact ready_idle rest.1 (steady.readFd possible.1 hread)
  | completes _ _ _ _ _ =>
      refine ⟨h.setup, h.packs, fun d hd => ?_⟩
      obtain rfl := Option.some.inj hd
      exact writeCompleteCallback_ready steady.storage
  | waits hin hread hn installed call =>
      refine ⟨h.setup, h.packs, fun d hd => ?_⟩
      obtain rfl := Option.some.inj hd
      exact ready_idle rest.1 (parsed hin hread hn installed call)
  | closes hin closes =>
      refine ⟨h.setup, h.packs, fun d hd => ?_⟩
      obtain rfl := Option.some.inj hd
      refine .parses plain_closeCallback ?_
      cases closes with
      | eof hread => exact steady.readFd possible.1 hread
      | unparsed hread hn call installed => exact parsed hin hread hn installed call
      | unserved hread hn call _ installed => exact parsed hin hread hn installed call
  | dispatches hin hread hn installed call _ =>
      refine ⟨h.setup, fun pack hm => ?_, fun d hd => ?_⟩
      · rcases List.mem_append.mp hm with old | new
        · exact h.packs pack old
        · rw [List.mem_singleton.mp new]
          exact plain_responseCallback
      · obtain rfl := Option.some.inj hd
        exact ready_idle rest.1 (parsed hin hread hn installed call)

/-- Harmless data keep a connection calm. -/
theorem Calm.step (h : Calm l) (good : l.Decent srv m) (step : Step srv l m l') : Calm l' := by
  have kept : ∀ {l₀ l' : Lifetime} {s : Stmt}, Executed s l₀ l' → l₀.conn = l.conn →
      l₀.agenda = l.agenda → s ≠ .deleteContext ∧ s ≠ .clearBuffers →
      ∀ c, l'.conn = some c → Ready l'.agenda c := by
    intro l₀ l' s run conn agenda plain c' hc'
    obtain ⟨_, c, hc, touched, _⟩ := run.kept c' hc'
    rw [run.agenda, agenda]
    exact (h.ready c (conn ▸ hc)).touched touched plain
  cases step_moved step with
  | @setup s rest l' hs run =>
      have plain : Plain (s :: rest) := hs ▸ h.setup
      refine ⟨by rw [run.setup]; exact plain.tail, by rw [run.packs]; exact h.packs, ?_⟩
      exact kept run rfl rfl (plain s List.mem_cons_self)
  | @stmt s rest l' hs run =>
      refine ⟨by rw [run.setup]; exact h.setup, by rw [run.packs]; exact h.packs, fun c' hc' => ?_⟩
      obtain ⟨_, c, hc, touched, _⟩ := run.kept c' hc'
      have ready := h.ready c hc
      rw [hs] at ready
      rw [run.agenda]
      exact ready.next touched
  | @respond n pack s rest l' hp hs run =>
      have plain : Plain (s :: rest) := hs ▸ h.packs pack (List.mem_of_getElem? hp)
      refine ⟨by rw [run.setup]; exact h.setup, ?_, kept run rfl rfl (plain s List.mem_cons_self)⟩
      rw [run.packs]
      intro other hm
      rcases List.mem_or_eq_of_mem_set hm with old | rfl
      · exact h.packs other old
      · exact plain.tail
  | event rest _ hc _ possible outcome =>
      have handled : Calm { l with phase := .handled } := ⟨h.setup, h.packs, h.ready⟩
      exact handled.outcome hc rest possible good outcome
  | func rest _ run =>
      exact ⟨by rw [run.setup]; exact h.setup, by rw [run.packs]; exact h.packs,
        kept run rfl rfl (by simp)⟩
  | @expire timer timers c rest _ _ hc _ =>
      refine ⟨h.setup, h.packs, fun c' hc' => ?_⟩
      exact .parses plain_closeCallback ((h.ready c' hc').at_rest rest)
  | _ => exact ⟨h.setup, h.packs, h.ready⟩

theorem dataRead_storage (steady : Session.Steady ⟨c.ctx, c.rbuf⟩) (close : .close ∈ c.callbacks)
    (good : .http ∈ srv.protocols.drop c.protoIdx → ¬ HTTPProtocol.BadLength ⟨c.ctx, c.rbuf⟩) :
    Faults (· = .outOfStorage) (l.dataRead srv c answer) := by
  obtain ⟨faults, steady⟩ := PbServer.dataReadCallback_steady steady good
  refine faults.bind_ok fun result out => ?_
  obtain ⟨next, d⟩ := result
  cases next with
  | wait => exact faults_pure
  | close =>
      have same : d.callbacks = c.callbacks := by rw [dataReadCallback_parsed out]
      change Faults _ (if .close ∈ d.callbacks then _ else _)
      rw [if_pos (same ▸ close)]
      exact faults_ok
  | request =>
      refine (PbServer.requestCallback_storage (steady _ _ out)
        (PbServer.dataReadCallback_request out)).bind fun found => ?_
      cases found with
      | none => exact faults_pure
      | some request => exact faults_pure

/-- Of the callbacks only the one for data throws. -/
theorem call_thrown {callback : Option Callback} (other : callback ≠ some .dataRead) :
    Faults (· ≠ .thrown) (l.call srv c answer callback) := by
  cases callback with
  | none => exact faults_ok
  | some callback =>
      cases callback with
      | clientConn => exact faults_ok
      | close => exact faults_ok
      | dataRead => exact absurd rfl other
      | writeComplete =>
          change Faults _ (l.writeComplete srv c)
          unfold writeComplete
          split
          · exact faults_error Fault.noConfusion
          · exact faults_ok

theorem Calm.handle (h : Calm l) (hc : l.conn = some c) (rest : l.AtRest) (possible : Possible c io)
    (good : l.Decent srv (.event events io answer)) :
    Faults (· ≠ .thrown) (l.handle srv events io answer) := by
  have steady := (h.ready c hc).at_rest rest
  rw [Lifetime.handle, withConn_some hc]
  refine (handleEvents_faults.mono fun f aborted => ?_).bind_ok fun out hout => ?_
  · rw [aborted]
    exact Fault.noConfusion
  cases handleEvents_ok hout with
  | other hcall =>
      refine call_thrown ?_
      rcases hcall with rfl | rfl <;> simp
  | write _ _ _ =>
      refine call_thrown ?_
      rcases installed_cases c .writeComplete with ⟨hi, _⟩ | ⟨hi, _⟩
      · simp [hi]
      · split_ifs <;> simp [hi]
  | @read n rbuf hin hread =>
      by_cases hn : n = 0
      · refine call_thrown ?_
        rw [if_pos hn]
        rcases installed_cases c .close with ⟨hi, _⟩ | ⟨hi, _⟩ <;> simp [hi]
      · rw [if_neg hn]
        rcases installed_cases c .dataRead with ⟨hi, _⟩ | ⟨hi, installed⟩
        · rw [hi]
          exact faults_ok
        · rw [hi]
          obtain ⟨close, steady', harmless⟩ := good.read hc steady possible hin hread hn installed
          refine Faults.mono (P := (· = .outOfStorage)) ?_ fun f same => ?_
          · exact dataRead_storage (c := { c with rbuf }) steady' close harmless
          · rw [same]
            exact Fault.noConfusion

/-- A calm connection throws nothing on harmless data. -/
theorem Calm.effect (h : Calm l) (good : l.Decent srv m) (enabled : l.Enabled srv m) :
    Faults (· ≠ .thrown) (l.effect srv m) := by
  by_cases event : ∃ events io answer, m = .event events io answer
  · obtain ⟨events, io, answer, rfl⟩ := event
    obtain ⟨rest, _, _, c, hc, _, possible⟩ := enabled
    have handled : Calm { l with phase := .handled } := ⟨h.setup, h.packs, h.ready⟩
    exact handled.handle hc rest possible good
  · refine (effect_faults fun events io answer same => event ⟨events, io, answer, same⟩).mono ?_
    rintro f (rfl | rfl | ⟨rfl, _⟩)
    all_goals exact Fault.noConfusion

end Lifetime
end SmallRpc
