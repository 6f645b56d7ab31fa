import SmallRpc.HttpParsing
import SmallRpc.PbServer

/-! A context knows that its message is complete. Whatever arrives afterwards, the parser
answers `Success` again and leaves the buffer alone. -/
namespace SmallRpc

/-- How a pass of a parser's loop comes out of a stage that is not the last: turned down,
waiting, or in stage `n`. -/
def Proceeds {σ : Type} (rank : σ → Nat) (n : Nat) : Flow σ → Prop
  | .ret status _ => status = .error ∨ status = .noEnoughData
  | .again s => rank s = n

/-- A loop of such stages ends in `Success` only in the last stage. -/
theorem runStages_end {σ : Type} {stage : σ → Except Fault (Flow σ)} {r : σ → Nat} {last : Nat}
    (proceeds : ∀ {s flow}, r s < last → stage s = .ok flow → Proceeds r (r s + 1) flow)
    {status : ParseProtocolStatus} {s t : σ}
    (h : runStages stage (last - r s) s = .ok (status, t)) :
    (status = .success ∧ last ≤ r t) ∨ status = .error ∨ status = .noEnoughData := by
  induction hk : last - r s generalizing s with
  | zero =>
      rw [hk] at h
      cases h
      exact .inl ⟨rfl, by omega⟩
  | succ k ih =>
      rw [hk] at h
      obtain ⟨flow, hflow, h⟩ := bind_ok.mp h
      have next := proceeds (by omega) hflow
      cases flow with
      | ret o u =>
          cases h
          exact .inr next
      | again u =>
          have hu : last - r u = k := by
            have : r u = r s + 1 := next
            omega
          exact ih (by rw [hu]; exact h) hu

namespace SimpleParser
variable {p : SimpleParser} {flow : Flow SimpleParser}

/-- A test of `readable` in front of a stage. -/
theorem proceeds_guard {q : Except Fault (Flow SimpleParser)} {n : Nat} {c : Prop} [Decidable c]
    (h : (if c then .ok (.ret .noEnoughData p) else q) = .ok flow)
    (rest : q = .ok flow → Proceeds (fun p => p.ctx.stage) n flow) :
    Proceeds (fun p => p.ctx.stage) n flow := by
  split_ifs at h
  · cases h
    exact .inr rfl
  · exact rest h

theorem stageMagic_proceeds (h : p.stageMagic = .ok flow) :
    Proceeds (fun p => p.ctx.stage) 1 flow := by
  refine proceeds_guard h fun h => ?_
  obtain ⟨magic, _, h⟩ := bind_ok.mp h
  by_cases hm : magic ≠ magicNum
  · rw [if_pos hm] at h
    cases h
    exact .inl rfl
  · rw [if_neg hm] at h
    cases h
    rfl

theorem stageConnType_proceeds (h : p.stageConnType = .ok flow) :
    Proceeds (fun p => p.ctx.stage) 2 flow := by
  refine proceeds_guard h fun h => ?_
  obtain ⟨connType, _, h⟩ := bind_ok.mp h
  cases hc : ConnType.ofInt connType with
  | none =>
      simp only [hc] at h
      cases h
      exact .inl rfl
  | some connType =>
      simp only [hc] at h
      cases h
      rfl

theorem takePath_proceeds {pathLen : Nat} (h : p.takePath pathLen = .ok flow) :
    Proceeds (fun p => p.ctx.stage) 3 flow := by
  obtain ⟨found, _, h⟩ := bind_ok.mp h
  cases found with
  | none =>
      cases h
      exact .inl rfl
  | some tmp =>
      obtain ⟨service, _, h⟩ := bind_ok.mp h
      obtain ⟨method, _, h⟩ := bind_ok.mp h
      cases h
      rfl

theorem stagePath_proceeds (h : p.stagePath = .ok flow) :
    Proceeds (fun p => p.ctx.stage) 3 flow := by
  refine proceeds_guard h fun h => ?_
  obtain ⟨pathLen, _, h⟩ := bind_ok.mp h
  by_cases hl : (p.look p.buf.rindex 4).buf.readable < pathLen
  · rw [if_pos hl] at h
    cases h
    exact .inr rfl
  · rw [if_neg hl] at h
    exact takePath_proceeds h

theorem stagePayload_proceeds {next : Nat} (h : p.stagePayload next = .ok flow) :
    Proceeds (fun p => p.ctx.stage) next flow := by
  refine proceeds_guard h fun h => ?_
  obtain ⟨payloadLen, _, h⟩ := bind_ok.mp h
  by_cases hl : (p.look p.buf.rindex 4).buf.readable < payloadLen
  · rw [if_pos hl] at h
    cases h
    exact .inr rfl
  · rw [if_neg hl] at h
    cases h
    rfl

theorem requestStage_proceeds (hlast : p.ctx.stage < 4) (h : p.requestStage = .ok flow) :
    Proceeds (fun p => p.ctx.stage) (p.ctx.stage + 1) flow := by
  rcases (by omega : p.ctx.stage = 0 ∨ p.ctx.stage = 1 ∨ p.ctx.stage = 2 ∨ p.ctx.stage = 3) with
    hs | hs | hs | hs
  · simp only [requestStage, hs] at h ⊢
    exact stageMagic_proceeds h
  · simp only [requestStage, hs] at h ⊢
    exact stageConnType_proceeds h
  · simp only [requestStage, hs] at h ⊢
    exact stagePath_proceeds h
  · simp only [requestStage, hs] at h ⊢
    exact stagePayload_proceeds h

end SimpleParser

namespace HTTPParser
variable {p q : HTTPParser} {flow : Flow HTTPParser} {status : ParseProtocolStatus} {n : Nat}

/-- A part of the message is in, turned down or waited for, in the same stage. -/
def Part (n : Nat) : ParseProtocolStatus × HTTPParser → Prop
  | (status, q) => (status = .partSuccess ∧ q.ctx.stage = n) ∨ status = .error ∨
      status = .noEnoughData

theorem Part.proceeds {part : ParseProtocolStatus × HTTPParser} (h : Part n part) :
    Proceeds (fun p => p.ctx.stage) (n + 1) (advance part) := by
  obtain ⟨status, q⟩ := part
  rcases h with ⟨rfl, hs⟩ | rfl | rfl
  · exact congrArg (· + 1) hs
  · exact .inl rfl
  · exact .inr rfl

theorem nextLine_inl {limit : Nat} (h : p.nextLine limit = .ok (.inl status)) :
    status = .error ∨ status = .noEnoughData := by
  unfold nextLine at h
  by_cases hs : min p.buf.readable limit = 0
  · simp only [hs, if_true] at h
    cases h
    exact .inr rfl
  · simp only [hs, if_false] at h
    obtain ⟨found, _, h⟩ := bind_ok.mp h
    cases found with
    | none =>
        simp only at h
        split_ifs at h
        · cases h
          exact .inl rfl
        · cases h
          exact .inr rfl
    | some n => cases h

theorem takeService_stage {url tmp : Nat} (h : p.takeService url tmp = .ok q) :
    q.ctx.stage = p.ctx.stage := by
  obtain ⟨found, _, h⟩ := bind_ok.mp h
  cases found with
  | none =>
      cases h
      rfl
  | some tmp2 =>
      obtain ⟨service, _, h⟩ := bind_ok.mp h
      obtain ⟨method, _, h⟩ := bind_ok.mp h
      cases h
      rfl

theorem parseUrl_part {offset : Nat} {part : ParseProtocolStatus × HTTPParser}
    (h : p.parseUrl n offset = .ok part) : Part p.ctx.stage part := by
  have failed : ∀ {q}, Except.ok (ε := Fault) (ParseProtocolStatus.error, q) = .ok part →
      Part p.ctx.stage part := fun h => by
    obtain rfl := Except.ok.inj h
    exact .inr (.inl rfl)
  obtain ⟨space, _, h⟩ := bind_ok.mp h
  split_ifs at h
  · exact failed h
  · obtain ⟨found, _, h⟩ := bind_ok.mp h
    cases found with
    | none => exact failed h
    | some tmp =>
        simp only at h
        split_ifs at h
        · exact failed h
        · obtain ⟨front, _, h⟩ := bind_ok.mp h
          split_ifs at h
          · exact failed h
          · obtain ⟨q, hq, h⟩ := bind_ok.mp h
            obtain ⟨later, _, h⟩ := bind_ok.mp h
            have hs : q.ctx.stage = p.ctx.stage := (takeService_stage hq :)
            split_ifs at h
            · exact failed h
            · obtain rfl := Except.ok.inj h
              exact .inl ⟨rfl, hs⟩

theorem parseRequestLine_part {part : ParseProtocolStatus × HTTPParser}
    (h : p.parseRequestLine = .ok part) : Part p.ctx.stage part := by
  obtain ⟨line, hline, h⟩ := bind_ok.mp h
  cases line with
  | inl status =>
      obtain rfl := Except.ok.inj h
      exact .inr (nextLine_inl hline)
  | inr n =>
      obtain ⟨found, _, h⟩ := bind_ok.mp h
      simp only at h
      split_ifs at h
      · obtain rfl := Except.ok.inj h
        exact .inr (.inl rfl)
      · exact (parseUrl_part h :)

theorem addHeader_stage {c d : HTTPContext} {key value : Bytes} (h : c.addHeader key value = .ok d) :
    d.stage = c.stage := by
  rcases addHeader_eq c key value with same | ⟨_, _, recorded, _⟩ | thrown
  · rw [same] at h
    obtain rfl := Except.ok.inj h
    rfl
  · rw [recorded] at h
    obtain rfl := Except.ok.inj h
    rfl
  · rw [thrown] at h
    cases h

/-- One header line: an end of the loop in the same stage, or another pass in it. -/
theorem headerLine_part (h : p.headerLine = .ok flow) :
    (∃ part, flow = .ret part.1 part.2 ∧ Part p.ctx.stage part) ∨
      ∃ q, flow = .again q ∧ q.ctx.stage = p.ctx.stage := by
  obtain ⟨line, hline, h⟩ := bind_ok.mp h
  have failed : ∀ {q : HTTPParser}, Except.ok (ε := Fault) (Flow.ret .error q) = .ok flow →
      ∃ part, flow = .ret part.1 part.2 ∧ Part p.ctx.stage part := fun {q} h => by
    obtain rfl := Except.ok.inj h
    exact ⟨(.error, q), rfl, .inr (.inl rfl)⟩
  cases line with
  | inl status =>
      obtain rfl := Except.ok.inj h
      exact .inl ⟨(status, p), rfl, .inr (nextLine_inl hline)⟩
  | inr n =>
      cases n with
      | zero =>
          obtain rfl := Except.ok.inj h
          exact .inl ⟨(.partSuccess, p.retrieve 2), rfl, .inl ⟨rfl, rfl⟩⟩
      | succ n =>
          obtain ⟨found, _, h⟩ := bind_ok.mp h
          match found, h with
          | none, h => exact .inl (failed h)
          | some 0, h => exact .inl (failed h)
          | some (tmp + 1), h =>
              obtain ⟨key, _, h⟩ := bind_ok.mp h
              obtain ⟨value, _, h⟩ := bind_ok.mp h
              obtain ⟨ctx, hctx, h⟩ := bind_ok.mp h
              obtain rfl := Except.ok.inj h
              exact .inr ⟨_, rfl, addHeader_stage hctx⟩

theorem headerLines_part {k : Nat} {part : ParseProtocolStatus × HTTPParser}
    (h : headerLines k p = .ok part) : Part p.ctx.stage part := by
  induction k generalizing p with
  | zero => cases h
  | succ k ih =>
      obtain ⟨flow, hflow, h⟩ := bind_ok.mp h
      rcases headerLine_part hflow with ⟨part', rfl, done⟩ | ⟨q, rfl, same⟩
      · obtain rfl := Except.ok.inj h
        exact done
      · rw [← same]
        exact ih h

theorem requestStage_proceeds (hlast : p.ctx.stage < 3) (h : p.requestStage = .ok flow) :
    Proceeds (fun p => p.ctx.stage) (p.ctx.stage + 1) flow := by
  rcases (by omega : p.ctx.stage = 0 ∨ p.ctx.stage = 1 ∨ p.ctx.stage = 2) with hs | hs | hs
  · simp only [requestStage, hs, map_eq_pure_bind] at h
    obtain ⟨part, hpart, h⟩ := bind_ok.mp h
    obtain rfl := Except.ok.inj h
    exact (parseRequestLine_part hpart).proceeds
  · simp only [requestStage, hs, map_eq_pure_bind] at h
    obtain ⟨part, hpart, h⟩ := bind_ok.mp h
    obtain rfl := Except.ok.inj h
    exact (headerLines_part hpart).proceeds
  · simp only [requestStage, hs] at h
    obtain rfl := Except.ok.inj h
    refine Part.proceeds ?_
    unfold parseBody
    split_ifs
    · exact .inl ⟨rfl, rfl⟩
    · exact .inr (.inr rfl)

end HTTPParser

/-- The stage that means complete. -/
def Protocol.stages : Protocol → Nat
  | .simple => 4
  | .http => 3

namespace AnyContext

/-- Which parser a context belongs to, and how far it has come. -/
def progress : AnyContext → Protocol × Nat
  | simple ctx => (.simple, ctx.stage)
  | http ctx => (.http, ctx.stage)

@[simp] theorem progress_modify (f : Context → Context) (ctx : AnyContext) :
    (ctx.modify f).progress = ctx.progress := by
  cases ctx <;> rfl

/-- What has been received, without the answer that is put into the same context. -/
def request : AnyContext → AnyContext := modify fun c => { c with rpcStatus := none, payload := [] }

theorem request_modify {f : Context → Context} (h : ∀ c : Context,
    { f c with rpcStatus := none, payload := [] } = { c with rpcStatus := none, payload := [] })
    (ctx : AnyContext) : (ctx.modify f).request = ctx.request := by
  cases ctx with
  | simple ctx => exact congrArg (fun c => simple { ctx with toContext := c }) (h ctx.toContext)
  | http ctx => exact congrArg (fun c => http { ctx with toContext := c }) (h ctx.toContext)

end AnyContext

namespace Protocol
variable {protocol : Protocol} {s s' : Session} {status : ParseProtocolStatus} {n : Nat}

/-- The session holds a complete message of this protocol. -/
def Complete (protocol : Protocol) (s : Session) : Prop :=
  ∃ ctx n, s.ctx = some ctx ∧ ctx.progress = (protocol, n) ∧ protocol.stages ≤ n

theorem parseRequest_complete (h : protocol.Complete s) :
    protocol.parseRequest s = .ok (.success, s) := by
  obtain ⟨ctx, n, hs, hp, hn⟩ := h
  obtain ⟨_, buf⟩ := s
  obtain rfl : _ = some ctx := hs
  cases ctx with
  | simple ctx =>
      obtain ⟨rfl, rfl⟩ := Prod.mk.inj hp
      have none_left : 4 - ctx.stage = 0 := Nat.sub_eq_zero_of_le hn
      simp only [parseRequest, SimpleProtocol.parseRequest, SimpleProtocol.resume,
        SimpleContext.parseRequest, SimpleParser.parseRequest, none_left]
      rfl
  | http ctx =>
      obtain ⟨rfl, rfl⟩ := Prod.mk.inj hp
      have none_left : 3 - ctx.stage = 0 := Nat.sub_eq_zero_of_le hn
      simp only [parseRequest, HTTPProtocol.parseRequest, HTTPProtocol.resume,
        HTTPParser.parseRequest, none_left]
      rfl

/-- What one call can answer, and what that says of the session. -/
inductive Answered (protocol : Protocol) (s s' : Session) : ParseProtocolStatus → Prop
  | success : protocol.Complete s' → Answered protocol s s' .success
  | error : s'.ctx ≠ none → Answered protocol s s' .error
  | noEnoughData : (s.ctx ≠ none → s'.ctx ≠ none) → Answered protocol s s' .noEnoughData
  | tryAnotherProtocol : s' = s → s.ctx = none → Answered protocol s s' .tryAnotherProtocol

theorem simple_answered {ctx : SimpleContext} {buf : Buffer}
    (h : SimpleProtocol.resume ctx buf = .ok (status, s')) : Answered .simple s s' status := by
  obtain ⟨⟨o, p⟩, hp, h⟩ := bind_ok.mp h
  cases h
  rcases runStages_end (r := fun p : SimpleParser => p.ctx.stage)
    SimpleParser.requestStage_proceeds hp with ⟨rfl, hn⟩ | rfl | rfl
  · exact .success ⟨_, _, rfl, rfl, hn⟩
  · exact .error (by simp)
  · exact .noEnoughData fun _ => by simp

theorem http_answered {ctx : HTTPContext} {buf : Buffer}
    (h : HTTPProtocol.resume ctx buf = .ok (status, s')) : Answered .http s s' status := by
  obtain ⟨⟨o, p⟩, hp, h⟩ := bind_ok.mp h
  cases h
  rcases runStages_end (r := fun p : HTTPParser => p.ctx.stage)
    HTTPParser.requestStage_proceeds hp with ⟨rfl, hn⟩ | rfl | rfl
  · exact .success ⟨_, _, rfl, rfl, hn⟩
  · exact .error (by simp)
  · exact .noEnoughData fun _ => by simp

theorem parseRequest_answered (h : protocol.parseRequest s = .ok (status, s')) :
    Answered protocol s s' status := by
  cases protocol with
  | simple =>
      simp only [parseRequest, SimpleProtocol.parseRequest] at h
      cases hs : s.ctx with
      | none =>
          simp only [hs] at h
          split_ifs at h
          · cases h
            exact .noEnoughData id
          · obtain ⟨magic, _, h⟩ := bind_ok.mp h
            split_ifs at h
            · cases h
              exact .tryAnotherProtocol rfl hs
            · exact simple_answered h
      | some ctx =>
          cases ctx with
          | simple ctx =>
              simp only [hs] at h
              exact simple_answered h
          | http ctx =>
              simp only [hs] at h
              cases h
              exact .error (by simp [hs])
  | http =>
      simp only [parseRequest, HTTPProtocol.parseRequest] at h
      cases hs : s.ctx with
      | none =>
          simp only [hs] at h
          split_ifs at h
          · cases h
            exact .noEnoughData id
          · obtain ⟨found, _, h⟩ := bind_ok.mp h
            cases found with
            | none =>
                cases h
                exact .tryAnotherProtocol rfl hs
            | some m => exact http_answered h
      | some ctx =>
          cases ctx with
          | http ctx =>
              simp only [hs] at h
              exact http_answered h
          | simple ctx =>
              simp only [hs] at h
              cases h
              exact .error (by simp [hs])

end Protocol

namespace PbServer
variable {srv : PbServer} {c d : TCPConnection} {protocols : List Protocol} {protoIdx idx : Nat}
  {s s' : Session} {status : Option ParseProtocolStatus}

/-- The loop over the protocols passes on an untouched session until one answers. -/
inductive Tried (protocols : List Protocol) (protoIdx : Nat) (s : Session) :
    Option ParseProtocolStatus → Nat → Session → Prop
  | exhausted {idx : Nat} : Tried protocols protoIdx s none idx s
  | answered {protocol : Protocol} {k : Nat} {status : ParseProtocolStatus} {s' : Session} :
      protocols[k]? = some protocol → Protocol.Answered protocol s s' status →
      Tried protocols protoIdx s (some status) (protoIdx + k) s'

theorem tryProtocols_tried (h : tryProtocols protocols protoIdx s = .ok (status, idx, s')) :
    Tried protocols protoIdx s status idx s' ∧ status ≠ some .tryAnotherProtocol := by
  induction protocols generalizing protoIdx with
  | nil =>
      cases h
      exact ⟨.exhausted, by simp⟩
  | cons protocol rest ih =>
      obtain ⟨⟨o, t⟩, hparse, hrest⟩ := bind_ok.mp h
      have answered := Protocol.parseRequest_answered hparse
      cases answered with
      | success complete =>
          cases hrest
          exact ⟨.answered (k := 0) rfl (.success complete), by simp⟩
      | error ctx =>
          cases hrest
          exact ⟨.answered (k := 0) rfl (.error ctx), by simp⟩
      | noEnoughData kept =>
          cases hrest
          exact ⟨.answered (k := 0) rfl (.noEnoughData kept), by simp⟩
      | tryAnotherProtocol same _ =>
          subst same
          have later : tryProtocols rest (protoIdx + 1) t = .ok (status, idx, s') := hrest
          obtain ⟨tried, other⟩ := ih later
          refine ⟨?_, other⟩
          cases tried with
          | exhausted => exact .exhausted
          | @answered protocol' k _ _ hk ans =>
              rw [Nat.add_right_comm, Nat.add_assoc]
              exact .answered hk ans

/-- The connection holds a complete message of the protocol it was recognised by. -/
def Complete (srv : PbServer) (c : TCPConnection) : Prop :=
  ∃ protocol, srv.protocols[c.protoIdx]? = some protocol ∧ protocol.Complete ⟨c.ctx, c.rbuf⟩

/-- What `data_read_callback` has found when it goes on to `request_callback`. -/
theorem dataReadCallback_request (h : srv.dataReadCallback c = .ok (.request, d)) :
    srv.Complete d := by
  obtain ⟨⟨status, idx, s'⟩, htry, h⟩ := bind_ok.mp h
  obtain ⟨tried, other⟩ := tryProtocols_tried htry
  cases tried with
  | exhausted => cases h
  | @answered protocol k o _ hk ans =>
      cases ans with
      | success complete =>
          cases h
          rw [List.getElem?_drop] at hk
          exact ⟨protocol, hk, complete⟩
      | error _ => cases h
      | noEnoughData _ => cases h
      | tryAnotherProtocol _ _ => exact absurd rfl other

/-- While it waits, a context stays. -/
theorem dataReadCallback_wait (h : srv.dataReadCallback c = .ok (.wait, d)) :
    c.ctx ≠ none → d.ctx ≠ none := by
  obtain ⟨⟨status, idx, s'⟩, htry, h⟩ := bind_ok.mp h
  obtain ⟨tried, other⟩ := tryProtocols_tried htry
  cases tried with
  | exhausted => cases h
  | answered _ ans =>
      cases ans with
      | success _ => cases h
      | error _ => cases h
      | noEnoughData kept =>
          cases h
          exact kept
      | tryAnotherProtocol _ _ => exact absurd rfl other

/-- With a complete message in hand every further byte leads to `request_callback` again. -/
theorem dataReadCallback_complete (h : srv.Complete c) :
    srv.dataReadCallback c = .ok (.request, c) := by
  obtain ⟨protocol, hp, complete⟩ := h
  have parse := Protocol.parseRequest_complete complete
  obtain ⟨rest, hdrop⟩ : ∃ rest, srv.protocols.drop c.protoIdx = protocol :: rest := by
    obtain ⟨hlt, rfl⟩ := List.getElem?_eq_some_iff.mp hp
    exact ⟨_, List.drop_eq_getElem_cons hlt⟩
  rw [dataReadCallback, hdrop, tryProtocols, parse]
  rfl

end PbServer
end SmallRpc
