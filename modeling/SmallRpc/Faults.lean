import SmallRpc.Moves

/-! What a computation can fail with. Parsing and packing read storage, and the HTTP parser
and a payload view also throw; they never abort and never follow a null pointer. What is left
are the system calls, and the pointers that a connection and its context are reached by. -/
namespace SmallRpc

/-- A computation that fails does so with one of these faults. -/
def Faults {α : Type} (P : Fault → Prop) (x : Except Fault α) : Prop := ∀ f, x = .error f → P f

/-- The two faults a parser has of its own. -/
def ParseFault (f : Fault) : Prop := f = .outOfStorage ∨ f = .thrown

section
variable {α β : Type} {P Q : Fault → Prop} {x : Except Fault α} {g : α → Except Fault β}
  {p : Prop} [Decidable p]

theorem faults_ok {a : α} : Faults P (.ok a : Except Fault α) := nofun

theorem faults_pure {a : α} : Faults P (pure a : Except Fault α) := nofun

theorem faults_error {f : Fault} (h : P f) : Faults P (.error f : Except Fault α) :=
  fun _ same => Except.error.inj same ▸ h

theorem faults_storage : Faults (· = .outOfStorage) (.error .outOfStorage : Except Fault α) :=
  faults_error rfl

theorem faults_thrown : Faults ParseFault (.error .thrown : Except Fault α) :=
  faults_error (.inr rfl)

theorem Faults.mono (h : Faults P x) (k : ∀ f, P f → Q f) : Faults Q x := fun f same => k f (h f same)

theorem Faults.parse (h : Faults (· = .outOfStorage) x) : Faults ParseFault x := h.mono fun _ => .inl

theorem Faults.bind_ok (h : Faults P x) (k : ∀ a, x = .ok a → Faults P (g a)) :
    Faults P (x >>= g) := by
  cases x with
  | error f => exact faults_error (h f rfl)
  | ok a => exact k a rfl

theorem Faults.bind (h : Faults P x) (k : ∀ a, Faults P (g a)) : Faults P (x >>= g) :=
  h.bind_ok fun a _ => k a

theorem Faults.map {g : α → β} (h : Faults P x) : Faults P (x.map g) := by
  cases x with
  | error f => exact faults_error (h f rfl)
  | ok a => exact faults_ok

theorem Faults.ite {y : Except Fault α} (h : Faults P x) (k : Faults P y) :
    Faults P (if p then x else y) := by
  split_ifs
  · exact h
  · exact k

end

section
variable {b : Buffer} {start n : Nat} {pat mem : Bytes}

theorem copy_faults : Faults (· = .outOfStorage) (b.copy start n) := .ite faults_ok faults_storage

theorem search_faults : Faults (· = .outOfStorage) (b.search pat start n) := by
  unfold Buffer.search
  split
  · exact faults_ok
  · exact .ite faults_ok faults_storage

theorem peekInt32_faults : Faults (· = .outOfStorage) b.peekInt32 := copy_faults.map

theorem peekUint32_faults : Faults (· = .outOfStorage) b.peekUint32 := copy_faults.map

theorem append_faults : Faults (· = .outOfStorage) (b.append mem) := .ite faults_ok faults_storage

theorem appendInt32_faults {num : Int} : Faults (· = .outOfStorage) (b.appendInt32 num) := append_faults

theorem str_faults {v : BufferView} : Faults ParseFault (v.str b) :=
  .ite (.ite copy_faults.parse faults_thrown) faults_ok

theorem runStages_faults {σ : Type} {P : Fault → Prop} {stage : σ → Except Fault (Flow σ)} {k : Nat}
    {s : σ} (h : ∀ s, Faults P (stage s)) : Faults P (runStages stage k s) := by
  induction k generalizing s with
  | zero => exact faults_ok
  | succ k ih =>
      refine (h s).bind fun flow => ?_
      cases flow with
      | ret status t => exact faults_ok
      | again t => exact ih

end

section
variable {p : SimpleParser} {k : Nat}

theorem stageMagic_faults : Faults (· = .outOfStorage) p.stageMagic :=
  .ite faults_ok (peekInt32_faults.bind fun _ => .ite faults_pure faults_pure)

theorem stageConnType_faults : Faults (· = .outOfStorage) p.stageConnType := by
  refine .ite faults_ok (peekInt32_faults.bind fun connType => ?_)
  dsimp only
  split
  · exact faults_pure
  · exact faults_pure

theorem takePath_faults : Faults (· = .outOfStorage) (p.takePath k) := by
  refine search_faults.bind fun found => ?_
  cases found with
  | none => exact faults_pure
  | some tmp => exact copy_faults.bind fun _ => copy_faults.bind fun _ => faults_pure

theorem stagePath_faults : Faults (· = .outOfStorage) p.stagePath :=
  .ite faults_ok (peekUint32_faults.bind fun _ => .ite faults_pure takePath_faults)

theorem stagePayload_faults : Faults (· = .outOfStorage) (p.stagePayload k) :=
  .ite faults_ok (peekUint32_faults.bind fun _ => .ite faults_pure faults_pure)

theorem simple_stage_faults : Faults (· = .outOfStorage) p.requestStage := by
  unfold SimpleParser.requestStage
  split
  · exact stageMagic_faults
  · exact stageConnType_faults
  · exact stagePath_faults
  · exact stagePayload_faults
  · exact faults_ok

end

section
variable {c : HTTPContext} {p : HTTPParser} {b : Buffer} {key value text : Bytes} {n : Nat}

theorem stoi_faults : Faults ParseFault (stoi text) :=
  .ite faults_thrown (.ite faults_ok faults_thrown)

theorem addHeader_faults : Faults ParseFault (c.addHeader key value) :=
  .ite (.ite (stoi_faults.bind fun _ => faults_pure) faults_pure) faults_ok

theorem startsWith_faults : Faults (· = .outOfStorage) (b.startsWith text) :=
  .ite faults_ok (.ite faults_storage faults_ok)

theorem findMethod_faults {ms : List HTTPMethod} : Faults (· = .outOfStorage) (b.findMethod ms) := by
  induction ms with
  | nil => exact faults_ok
  | cons m ms ih => exact startsWith_faults.bind fun _ => .ite faults_pure ih

theorem takeService_faults {url tmp : Nat} : Faults (· = .outOfStorage) (p.takeService url tmp) := by
  refine search_faults.bind fun found => ?_
  cases found with
  | none => exact faults_pure
  | some tmp2 => exact copy_faults.bind fun _ => copy_faults.bind fun _ => faults_pure

theorem parseUrl_faults {offset : Nat} : Faults (· = .outOfStorage) (p.parseUrl n offset) := by
  refine copy_faults.bind fun _ => .ite faults_pure (search_faults.bind fun found => ?_)
  cases found with
  | none => exact faults_pure
  | some tmp =>
      refine .ite faults_pure (copy_faults.bind fun _ => .ite faults_pure ?_)
      exact takeService_faults.bind fun _ => search_faults.bind fun _ => .ite faults_pure faults_pure

theorem nextLine_faults : Faults (· = .outOfStorage) (p.nextLine n) := by
  refine .ite faults_pure (search_faults.bind fun found => ?_)
  cases found with
  | none => exact faults_pure
  | some n => exact faults_pure

theorem parseRequestLine_faults : Faults (· = .outOfStorage) p.parseRequestLine := by
  refine nextLine_faults.bind fun found => ?_
  cases found with
  | inl status => exact faults_pure
  | inr n => exact findMethod_faults.bind fun _ => .ite faults_pure parseUrl_faults

theorem headerLine_faults : Faults ParseFault p.headerLine := by
  refine nextLine_faults.parse.bind fun found => ?_
  split
  · exact faults_pure
  · exact faults_pure
  · refine search_faults.parse.bind fun found => ?_
    split
    · exact faults_pure
    · exact faults_pure
    · exact copy_faults.parse.bind fun _ => copy_faults.parse.bind fun _ => addHeader_faults.bind fun _ => faults_pure

theorem headerLines_faults {k : Nat} : Faults ParseFault (HTTPParser.headerLines k p) := by
  induction k generalizing p with
  | zero => exact faults_storage.parse
  | succ k ih =>
      refine headerLine_faults.bind fun flow => ?_
      cases flow with
      | ret status p => exact faults_pure
      | again p => exact ih

theorem http_stage_faults : Faults ParseFault p.requestStage := by
  unfold HTTPParser.requestStage
  split
  · exact parseRequestLine_faults.parse.map
  · exact headerLines_faults.map
  · exact faults_ok
  · exact faults_ok

end

/-- The binary protocol throws nothing. -/
theorem simple_faults {s : Session} : Faults (· = .outOfStorage) (SimpleProtocol.parseRequest s) := by
  have resumed : ∀ {ctx buf}, Faults (· = .outOfStorage) (SimpleProtocol.resume ctx buf) :=
    (runStages_faults fun _ => simple_stage_faults).bind fun _ => faults_pure
  obtain ⟨ctx, buf⟩ := s
  cases ctx with
  | none => exact .ite faults_ok (peekInt32_faults.bind fun _ => .ite faults_pure resumed)
  | some ctx =>
      cases ctx with
      | simple ctx => exact resumed
      | http ctx => exact faults_ok

theorem http_faults {s : Session} : Faults ParseFault (HTTPProtocol.parseRequest s) := by
  have resumed : ∀ {ctx buf}, Faults ParseFault (HTTPProtocol.resume ctx buf) :=
    (runStages_faults fun _ => http_stage_faults).bind fun _ => faults_pure
  obtain ⟨ctx, buf⟩ := s
  cases ctx with
  | none =>
      refine .ite faults_ok (findMethod_faults.parse.bind fun found => ?_)
      cases found with
      | none => exact faults_pure
      | some m => exact resumed
  | some ctx =>
      cases ctx with
      | simple ctx => exact faults_ok
      | http ctx => exact resumed

theorem parseRequest_faults {protocol : Protocol} {s : Session} :
    Faults ParseFault (protocol.parseRequest s) := by
  cases protocol with
  | simple => exact simple_faults.parse
  | http => exact http_faults

theorem packResponse_faults {ctx : AnyContext} {b : Buffer} :
    Faults (· = .outOfStorage) (ctx.packResponse b) := by
  cases ctx with
  | simple ctx =>
      exact appendInt32_faults.bind fun _ => appendInt32_faults.bind fun _ =>
        appendInt32_faults.bind fun _ => appendInt32_faults.bind fun _ => faults_pure
  | http ctx =>
      exact append_faults.bind fun _ => append_faults.bind fun _ => append_faults.bind fun _ =>
        append_faults.bind fun _ => append_faults.bind fun _ => append_faults.bind fun _ => faults_pure

section
open Buffer (ReadResult WriteResult Piece)
variable {b : Buffer} {r r₁ r₂ : WriteResult} {total : Int} {sent : List Piece}

theorem readFd_faults {r : ReadResult} : Faults (· = .aborted) (b.readFd r) := by
  cases r with
  | failed => exact faults_error rfl
  | _ => exact faults_ok

theorem writeExtra_faults : Faults (· = .aborted) (b.writeExtra total sent r) := by
  refine .ite faults_ok ?_
  cases r with
  | failed => exact faults_error rfl
  | _ => exact faults_ok

theorem writeFd_faults : Faults (· = .aborted) (b.writeFd r₁ r₂) := by
  refine .ite writeExtra_faults ?_
  cases r₁ with
  | wrote n => exact writeExtra_faults
  | failed => exact faults_error rfl
  | _ => exact faults_ok

end

namespace Lifetime

/-- What a statement can fail with: a connection that is gone, a context that is not
there, or an append. -/
def StmtFault (l : Lifetime) (f : Fault) : Prop :=
  f = .danglingPointer ∨ f = .outOfStorage ∨ (f = .nullPointer ∧ ∃ c, l.conn = some c ∧ c.ctx = none)

/-- What the handling of events can fail with. -/
def EventFault (c : TCPConnection) (events : Events) (f : Fault) : Prop :=
  f = .aborted ∨ ParseFault f ∨ (f = .nullPointer ∧ c.ctx = none ∧ events.epollin = false ∧
    events.epollout = true)

variable {srv : PbServer} {l : Lifetime} {s : Stmt} {c : TCPConnection} {m : Move}
  {events : Events} {io : SocketResults} {answer : Answer}

theorem withConn_faults {f : TCPConnection → Except Fault Lifetime}
    (h : ∀ c, l.conn = some c → Faults l.StmtFault (f c)) : Faults l.StmtFault (l.withConn f) := by
  unfold withConn
  split
  · exact faults_error (.inl rfl)
  · exact h _ ‹_›

theorem withContext_faults {f : AnyContext → AnyContext} (hc : l.conn = some c) :
    Faults l.StmtFault (c.withContext f) := by
  unfold TCPConnection.withContext
  split
  · exact faults_error (.inr (.inr ⟨rfl, c, hc, ‹_›⟩))
  · exact faults_ok

theorem exec_faults : Faults l.StmtFault (l.exec s) := by
  cases s with
  | unpack => exact faults_ok
  | setRpcStatus =>
      exact withConn_faults fun _ hc => (withContext_faults hc).bind fun _ => faults_pure
  | setPayload respStr =>
      exact withConn_faults fun _ hc => (withContext_faults hc).bind fun _ => faults_pure
  | packResponse n =>
      refine withConn_faults fun c hc => Faults.bind ?_ fun _ => faults_pure
      unfold TCPConnection.packResponse
      split
      · exact faults_error (.inr (.inr ⟨rfl, c, hc, ‹_›⟩))
      · exact (packResponse_faults.mono fun _ h => .inr (.inl h)).bind fun _ => faults_pure
  | _ => exact withConn_faults fun _ _ => faults_ok

theorem tryProtocols_faults {protocols : List Protocol} {protoIdx : Nat} {s : Session} :
    Faults ParseFault (PbServer.tryProtocols protocols protoIdx s) := by
  induction protocols generalizing protoIdx s with
  | nil => exact faults_ok
  | cons protocol rest ih =>
      refine parseRequest_faults.bind fun result => ?_
      split
      · exact ih
      · exact faults_pure

theorem dataReadCallback_faults : Faults ParseFault (srv.dataReadCallback c) := by
  refine tryProtocols_faults.bind fun result => ?_
  obtain ⟨status, protoIdx, s⟩ := result
  dsimp only
  split
  all_goals exact faults_pure

/-- `request_callback` is only entered with a context. -/
theorem dataRead_faults : Faults ParseFault (l.dataRead srv c answer) := by
  refine dataReadCallback_faults.bind_ok fun result hresult => ?_
  obtain ⟨next, d⟩ := result
  cases next with
  | wait => exact faults_pure
  | close => exact .ite faults_ok faults_thrown
  | request =>
      obtain ⟨_, _, ctx, _, hctx, _⟩ := PbServer.dataReadCallback_request hresult
      have found : Faults ParseFault (srv.requestCallback d) := by
        unfold PbServer.requestCallback
        split
        · rename_i none
          exact absurd (hctx.symm.trans none) (Option.some_ne_none ctx)
        · exact str_faults.bind fun _ => faults_pure
      refine found.bind fun found => ?_
      cases found with
      | none => exact faults_pure
      | some request => exact faults_pure

theorem handleEvents_faults : Faults (· = .aborted) (c.handleEvents events io) :=
  .ite (readFd_faults.bind fun _ => faults_pure)
    (.ite (.ite (writeFd_faults.bind fun _ => faults_pure) faults_ok) faults_ok)

/-- A callback fails in its parsing, or for want of a context. -/
theorem call_faults {callback : Option Callback} :
    Faults (fun f => ParseFault f ∨ (f = .nullPointer ∧ c.ctx = none ∧ callback = some .writeComplete))
      (l.call srv c answer callback) := by
  cases callback with
  | none => exact faults_ok
  | some callback =>
      cases callback with
      | clientConn => exact faults_ok
      | close => exact faults_ok
      | dataRead => exact dataRead_faults.mono fun _ h => .inl h
      | writeComplete =>
          change Faults _ (l.writeComplete srv c)
          unfold writeComplete
          split
          · exact faults_error (.inr ⟨rfl, ‹_›, rfl⟩)
          · exact faults_ok

theorem handle_faults (hc : l.conn = some c) :
    Faults (EventFault c events) (l.handle srv events io answer) := by
  rw [handle, withConn_some hc]
  refine (handleEvents_faults.mono fun _ h => .inl h).bind_ok fun out hout => ?_
  refine call_faults.mono fun f fault => ?_
  rcases fault with parse | ⟨rfl, none, call⟩
  · exact .inr (.inl parse)
  · cases handleEvents_ok hout with
    | other hcall => rcases hcall with rfl | rfl <;> cases call
    | @read n rbuf _ _ =>
        simp only [TCPConnection.installed] at call
        split_ifs at call <;> cases call
    | write hin hev _ => exact .inr (.inr ⟨rfl, none, hin, hev⟩)

/-- Every other move fails as the statement it executes does, or on a connection that is gone. -/
theorem effect_faults (h : ∀ events io answer, m ≠ .event events io answer) :
    Faults l.StmtFault (l.effect srv m) := by
  unfold effect
  split
  case h_4 => exact absurd rfl (h _ _ _)
  case h_1 | h_2 =>
    split
    · exact faults_ok
    · exact exec_faults
  case h_3 =>
    split
    · exact faults_ok
    · split
      · exact faults_ok
      · exact exec_faults
  case h_7 =>
    split
    · exact exec_faults
    · exact faults_ok
  case h_9 =>
    split
    · exact .ite (withConn_faults fun _ _ => faults_ok) faults_ok
    · exact faults_ok
  all_goals exact faults_ok

end Lifetime
end SmallRpc
