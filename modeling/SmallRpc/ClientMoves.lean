import SmallRpc.Moves
import SmallRpc.PbClient

/-! What a statement of the client and the handling of an event do, once for all. -/
namespace SmallRpc

/-- The statements of `CallMethod` that only prepare a request. -/
def ClientStmt.prepares : ClientStmt → Bool
  | .clearRbuf | .clearWbuf | .newContext _ | .newSession _ | .setConnType _ | .setMethod _
  | .setService _ | .setPayload _ => true
  | _ => false

/-- Those and the two after them: all that leads up to the change of the wanted events. -/
def ClientStmt.ofCall : ClientStmt → Bool
  | .testPayload _ | .packRequest _ => true
  | s => s.prepares

end SmallRpc

namespace SmallRpc.PbClient
open Runs

/-- The functions queued or taken and not yet run. -/
def pending (w : PbClient) : Nat := w.queued + w.phase.funcsLeft

variable {protocol : Protocol} {w w' : PbClient} {s : ClientStmt} {stmts : List ClientStmt}
  {events : Events} {io : SocketResults} {soError : Bool} {chain : Option Call}

theorem modifyContext_ok {f : Context → Context} (h : w.modifyContext f = .ok w') :
    ∃ ctx, w' = { w with conn := { w.conn with ctx := some ctx } } := by
  obtain ⟨c, hc, h⟩ := bind_ok.mp h
  obtain ⟨ctx, _, rfl⟩ := Lifetime.withContext_ok hc
  exact ⟨_, (Except.ok.inj h).symm⟩

/-- What preparing a request leaves alone. -/
structure Prepared (w w' : PbClient) : Prop where
  event : w'.conn.event = w.conn.event
  sevent : w'.conn.sevent = w.conn.sevent
  connected : w'.conn.connected = w.conn.connected
  registered : w'.registered = w.registered
  queued : w'.queued = w.queued
  phase : w'.phase = w.phase
  loop : w'.loop = w.loop
  app : w'.app = w.app
  issued : w'.issued = w.issued
  packed : w'.packed = w.packed
  completed : w'.completed = w.completed

theorem exec_prepares (hs : s.prepares = true) (h : w.exec protocol s = .ok (w', stmts)) :
    stmts = [] ∧ Prepared w w' := by
  have context : ∀ {f : Context → Context} {x : PbClient × List ClientStmt},
      (do return (← w.modifyContext f, []) : Except Fault (PbClient × List ClientStmt)) = .ok x →
      x.2 = [] ∧ Prepared w x.1 := by
    intro f x h
    obtain ⟨w₁, h₁, h⟩ := bind_ok.mp h
    obtain ⟨ctx, rfl⟩ := modifyContext_ok h₁
    obtain rfl := Except.ok.inj h
    exact ⟨rfl, ⟨rfl, rfl, rfl, rfl, rfl, rfl, rfl, rfl, rfl, rfl, rfl⟩⟩
  cases s with
  | setConnType connType => exact context h
  | setMethod method => exact context h
  | setService service => exact context h
  | setPayload payload => exact context h
  | clearRbuf => cases h; exact ⟨rfl, ⟨rfl, rfl, rfl, rfl, rfl, rfl, rfl, rfl, rfl, rfl, rfl⟩⟩
  | clearWbuf => cases h; exact ⟨rfl, ⟨rfl, rfl, rfl, rfl, rfl, rfl, rfl, rfl, rfl, rfl, rfl⟩⟩
  | newContext n => cases h; exact ⟨rfl, ⟨rfl, rfl, rfl, rfl, rfl, rfl, rfl, rfl, rfl, rfl, rfl⟩⟩
  | newSession n => cases h; exact ⟨rfl, ⟨rfl, rfl, rfl, rfl, rfl, rfl, rfl, rfl, rfl, rfl, rfl⟩⟩
  | _ => cases hs

/-- `pack_request` changes the write buffer only. -/
theorem exec_packRequest {n : Nat} (h : w.exec protocol (.packRequest n) = .ok (w', stmts)) :
    stmts = [] ∧ w'.packed = some n ∧ Prepared { w with packed := some n } w' := by
  simp only [exec] at h
  cases hc : w.conn.ctx with
  | none => simp [hc] at h
  | some ctx =>
      simp only [hc] at h
      obtain ⟨wbuf, _, h⟩ := bind_ok.mp h
      cases h
      exact ⟨rfl, rfl, ⟨rfl, rfl, rfl, rfl, rfl, rfl, rfl, rfl, rfl, rfl, rfl⟩⟩

theorem exec_testPayload {n : Nat} (h : w.exec protocol (.testPayload n) = .ok (w', stmts)) :
    w' = w ∧ ∃ ctx, w.conn.ctx = some ctx ∧
      stmts = if maxPayload < ctx.base.payload.length then [] else sendRequest n := by
  simp only [exec] at h
  cases hc : w.conn.ctx with
  | none => simp [hc] at h
  | some ctx =>
      simp only [hc] at h
      cases h
      exact ⟨rfl, ctx, rfl, rfl⟩

theorem Prepared.pending (h : Prepared w w') : w'.pending = w.pending := by
  rw [PbClient.pending, PbClient.pending, h.queued, h.phase]

/-- Away from the preparation of a call a statement leaves the request alone. -/
theorem exec_other (hs : s.ofCall = false) (run : w.exec protocol s = .ok (w', stmts)) :
    w'.conn.wbuf = w.conn.wbuf ∧ w'.app = w.app ∧ w'.packed = w.packed ∧ w'.issued = w.issued ∧
      ∀ t ∈ stmts, t.ofCall = false := by
  cases s with
  | setEvent event => cases run; exact ⟨rfl, rfl, rfl, rfl, by simp⟩
  | addFunc => cases run; exact ⟨rfl, rfl, rfl, rfl, by simp⟩
  | setSevent => cases run; exact ⟨rfl, rfl, rfl, rfl, by simp⟩
  | setConnected => cases run; exact ⟨rfl, rfl, rfl, rfl, by simp⟩
  | deleteContext => cases run; exact ⟨rfl, rfl, rfl, rfl, by simp⟩
  | resetSession => cases run; exact ⟨rfl, rfl, rfl, rfl, by simp⟩
  | loadEvents op => cases run; exact ⟨rfl, rfl, rfl, rfl, by simp [ClientStmt.ofCall, ClientStmt.prepares]⟩
  | testDel => cases run; exact ⟨rfl, rfl, rfl, rfl, by simp [ClientStmt.ofCall, ClientStmt.prepares]⟩
  | testSevent =>
      cases run
      refine ⟨rfl, rfl, rfl, rfl, fun t ht => ?_⟩
      split_ifs at ht
      all_goals
        rw [List.mem_singleton.mp ht]
        rfl
  | updateChannel =>
      cases run
      refine ⟨rfl, rfl, rfl, rfl, fun t ht => ?_⟩
      split_ifs at ht
      · rw [List.mem_singleton.mp ht]
        rfl
      · cases ht
  | testAdd =>
      cases run
      refine ⟨rfl, rfl, rfl, rfl, fun t ht => ?_⟩
      split_ifs at ht
      · rw [List.mem_singleton.mp ht]
        rfl
      · cases ht
  | epollCtl op events =>
      obtain ⟨r, _, run⟩ := bind_ok.mp run
      cases run
      exact ⟨rfl, rfl, rfl, rfl, by simp [ClientStmt.ofCall, ClientStmt.prepares]⟩
  | _ => cases hs

/-- The statements that register the client or ask for it. -/
def ofChannel : ClientStmt → Bool
  | .setEvent _ | .addFunc | .updateChannel | .testSevent | .testAdd | .testDel | .loadEvents _
  | .epollCtl _ _ | .setSevent | .setConnected => true
  | _ => false

/-- All of a client that has to do with calls. -/
structure SameCall (w w' : PbClient) : Prop where
  ctx : w'.conn.ctx = w.conn.ctx
  wbuf : w'.conn.wbuf = w.conn.wbuf
  session : w'.session = w.session
  ctxOf : w'.ctxOf = w.ctxOf
  app : w'.app = w.app
  issued : w'.issued = w.issued
  completed : w'.completed = w.completed
  parseError : w'.parseError = w.parseError

theorem exec_ofChannel (hs : ofChannel s = true) (run : w.exec protocol s = .ok (w', stmts)) :
    SameCall w w' := by
  cases s with
  | epollCtl op events =>
      obtain ⟨r, _, run⟩ := bind_ok.mp run
      cases run
      exact ⟨rfl, rfl, rfl, rfl, rfl, rfl, rfl, rfl⟩
  | setEvent _ => cases run; exact ⟨rfl, rfl, rfl, rfl, rfl, rfl, rfl, rfl⟩
  | addFunc => cases run; exact ⟨rfl, rfl, rfl, rfl, rfl, rfl, rfl, rfl⟩
  | updateChannel => cases run; exact ⟨rfl, rfl, rfl, rfl, rfl, rfl, rfl, rfl⟩
  | testSevent => cases run; exact ⟨rfl, rfl, rfl, rfl, rfl, rfl, rfl, rfl⟩
  | testAdd => cases run; exact ⟨rfl, rfl, rfl, rfl, rfl, rfl, rfl, rfl⟩
  | testDel => cases run; exact ⟨rfl, rfl, rfl, rfl, rfl, rfl, rfl, rfl⟩
  | loadEvents _ => cases run; exact ⟨rfl, rfl, rfl, rfl, rfl, rfl, rfl, rfl⟩
  | setSevent => cases run; exact ⟨rfl, rfl, rfl, rfl, rfl, rfl, rfl, rfl⟩
  | setConnected => cases run; exact ⟨rfl, rfl, rfl, rfl, rfl, rfl, rfl, rfl⟩
  | _ => cases hs

/-- The ways in which the handling of an event ends. -/
inductive Outcome (w : PbClient) (events : Events) (io : SocketResults) (soError : Bool)
    (chain : Option Call) : PbClient → Prop
  | silent : events.epollin = false → Outcome w events io soError chain w
  | connects : events.epollin = false → events.epollout = true → w.conn.connected = false →
      .clientConn ∈ w.conn.callbacks →
      Outcome w events io soError chain { w with loop := clientConnCallback soError }
  | wrote {t : Int} {wbuf : Buffer} {sent : List Buffer.Piece} : events.epollin = false →
      events.epollout = true → w.conn.connected = true →
      w.conn.wbuf.writeFd io.head io.extra = .ok (t, wbuf, sent) →
      Outcome w events io soError chain { w with conn := { w.conn with wbuf } }
  | completes {t : Int} {wbuf : Buffer} {sent : List Buffer.Piece} : events.epollin = false →
      events.epollout = true → w.conn.connected = true →
      w.conn.wbuf.writeFd io.head io.extra = .ok (t, wbuf, sent) → wbuf.readable = 0 →
      Outcome w events io soError chain
        { w with conn := { w.conn with wbuf }, loop := writeCompleteCallback }
  | ignored {rbuf : Buffer} : events.epollin = true →
      Outcome w events io soError chain { w with conn := { w.conn with rbuf } }
  | eof {rbuf : Buffer} : events.epollin = true → w.conn.rbuf.readFd io.read = .ok (0, rbuf) →
      Outcome w events io soError chain { w with conn := { w.conn with rbuf }, loop := closeCallback }
  | parsed {n : Int} {rbuf : Buffer} {ctx : AnyContext} {status : ParseProtocolStatus} {s : Session} :
      events.epollin = true → w.conn.rbuf.readFd io.read = .ok (n, rbuf) → n ≠ 0 →
      w.conn.ctx = some ctx → ctx.parseResponse rbuf = .ok (status, s) →
      Outcome w events io soError chain
        { w with conn := { w.conn with ctx := s.ctx, rbuf := s.buf }
                 parseError := w.parseError || status = .error }
  | answered {n : Int} {rbuf : Buffer} {ctx : AnyContext} {s : Session} {call : Nat} {str : Bytes} :
      events.epollin = true → w.conn.rbuf.readFd io.read = .ok (n, rbuf) → n ≠ 0 →
      w.conn.ctx = some ctx → ctx.parseResponse rbuf = .ok (.success, s) → w.session = some call →
      Outcome w events io soError chain
        { w with conn := { w.conn with ctx := s.ctx, rbuf := s.buf }
                 completed := w.completed ++ [⟨call, w.ctxOf, str⟩]
                 issued := w.issued + chain.toList.length
                 loop := chain.elim [] (callMethod w.issued) ++ afterDone }

theorem dataReadCallback_ok {n : Int} {rbuf : Buffer} (hin : events.epollin = true)
    (hread : w.conn.rbuf.readFd io.read = .ok (n, rbuf)) (hn : n ≠ 0)
    (h : dataReadCallback { w with conn := { w.conn with rbuf } } chain = .ok w') :
    Outcome w events io soError chain w' := by
  simp only [dataReadCallback] at h
  cases hctx : w.conn.ctx with
  | none => simp [hctx] at h
  | some ctx =>
      simp only [hctx] at h
      obtain ⟨⟨status, session⟩, parse, h⟩ := bind_ok.mp h
      have idle : status ≠ .error → Outcome w events io soError chain
          { w with conn := { w.conn with ctx := session.ctx, rbuf := session.buf } } := by
        intro other
        have same : Outcome w events io soError chain _ := .parsed hin hread hn hctx parse
        rwa [decide_eq_false other, Bool.or_false] at same
      cases status with
      | error =>
          obtain rfl := Except.ok.inj h
          have same : Outcome w events io soError chain _ := .parsed hin hread hn hctx parse
          rwa [decide_eq_true rfl, Bool.or_true] at same
      | noEnoughData =>
          obtain rfl := Except.ok.inj h
          exact idle (by simp)
      | tryAnotherProtocol =>
          obtain rfl := Except.ok.inj h
          exact idle (by simp)
      | partSuccess =>
          obtain rfl := Except.ok.inj h
          exact idle (by simp)
      | success =>
          cases hs : session.ctx with
          | none =>
              simp only [hs] at h
              obtain rfl := Except.ok.inj h
              have same := idle (by simp)
              rwa [hs] at same
          | some ctx' =>
              simp only [hs, responseCallback] at h
              cases hcall : w.session with
              | none => simp [hcall] at h
              | some call =>
                  simp only [hcall] at h
                  obtain ⟨str, _, h⟩ := bind_ok.mp h
                  have same : Outcome w events io soError chain _ :=
                    @Outcome.answered _ _ _ _ _ _ _ _ _ _ str hin hread hn hctx parse hcall
                  cases chain with
                  | none =>
                      obtain rfl := Except.ok.inj h
                      simpa [hs, hcall] using same
                  | some next =>
                      obtain rfl := Except.ok.inj h
                      simpa [hs, hcall] using same

theorem handle_ok (h : w.handle events io soError chain = .ok w') :
    Outcome w events io soError chain w' := by
  obtain ⟨out, hout, h⟩ := bind_ok.mp h
  unfold TCPConnection.handleEvents at hout
  split_ifs at hout with hin hev connected
  · obtain ⟨⟨n, rbuf⟩, hread, built⟩ := bind_ok.mp hout
    obtain rfl := Except.ok.inj built
    by_cases hn : n = 0
    · subst hn
      rcases Lifetime.installed_cases { w.conn with rbuf } .close with ⟨hi, _⟩ | ⟨hi, _⟩
      · simp only [if_true, hi] at h
        obtain rfl := Except.ok.inj h
        exact .ignored hin
      · simp only [if_true, hi] at h
        obtain rfl := Except.ok.inj h
        exact .eof hin hread
    · rcases Lifetime.installed_cases { w.conn with rbuf } .dataRead with ⟨hi, _⟩ | ⟨hi, _⟩
      · simp only [if_neg hn, hi] at h
        obtain rfl := Except.ok.inj h
        exact .ignored hin
      · simp only [if_neg hn, hi] at h
        exact dataReadCallback_ok hin hread hn h
  · obtain ⟨⟨t, wbuf, sent⟩, hwrite, built⟩ := bind_ok.mp hout
    obtain rfl := Except.ok.inj built
    have quiet := Bool.eq_false_iff.mpr hin
    rcases Lifetime.installed_cases { w.conn with wbuf } .writeComplete with ⟨hi, _⟩ | ⟨hi, _⟩
    · simp only [hi, ite_self] at h
      obtain rfl := Except.ok.inj h
      exact .wrote quiet hev connected hwrite
    · split_ifs at h with empty
      · simp only [hi] at h
        obtain rfl := Except.ok.inj h
        exact .completes quiet hev connected hwrite empty
      · obtain rfl := Except.ok.inj h
        exact .wrote quiet hev connected hwrite
  · obtain rfl := Except.ok.inj hout
    rcases Lifetime.installed_cases w.conn .clientConn with ⟨hi, _⟩ | ⟨hi, mem⟩
    · simp only [hi] at h
      obtain rfl := Except.ok.inj h
      exact .silent (Bool.eq_false_iff.mpr hin)
    · simp only [hi] at h
      obtain rfl := Except.ok.inj h
      exact .connects (Bool.eq_false_iff.mpr hin) hev (Bool.eq_false_iff.mpr connected) mem
  · obtain rfl := Except.ok.inj hout
    obtain rfl := Except.ok.inj h
    exact .silent (Bool.eq_false_iff.mpr hin)

end SmallRpc.PbClient
