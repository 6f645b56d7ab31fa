import SmallRpc.Finished
import SmallRpc.HttpParsing
import SmallRpc.PbServer
import SmallRpc.SimpleFragments

/-! The two orders in which the built-in protocols can be registered, kept in step over
the chunks of a first request. While fewer than seven bytes are there the order decides
what is asked, but not what comes of it. -/
namespace SmallRpc

namespace Flow

def map {σ τ : Type} (f : σ → τ) : Flow σ → Flow τ
  | .ret status s => .ret status (f s)
  | .again s => .again (f s)

end Flow

namespace SimpleParser

def forget (p : SimpleParser) : SimpleParser := { p with looked := [] }

/-- A pass that is steered by the context and the buffer only. -/
def Blind (stage : SimpleParser → Except Fault (Flow SimpleParser)) : Prop :=
  ∀ ctx buf looked looked', (stage ⟨ctx, buf, looked⟩).map (Flow.map forget) =
    (stage ⟨ctx, buf, looked'⟩).map (Flow.map forget)

theorem stageMagic_blind : Blind stageMagic := by
  intro ctx buf looked looked'
  unfold stageMagic
  dsimp only
  split_ifs
  · rfl
  · cases buf.peekInt32 with
    | error f => rfl
    | ok magic =>
        simp only [bind, Except.bind]
        split_ifs <;> rfl

theorem stageConnType_blind : Blind stageConnType := by
  intro ctx buf looked looked'
  unfold stageConnType
  dsimp only
  split_ifs
  · rfl
  · cases buf.peekInt32 with
    | error f => rfl
    | ok connType =>
        simp only [bind, Except.bind]
        cases ConnType.ofInt connType <;> rfl

theorem takePath_blind (pathLen : Nat) : Blind (takePath pathLen) := by
  intro ctx buf looked looked'
  unfold takePath
  dsimp only
  cases buf.search [slash] buf.rindex pathLen with
  | error f => rfl
  | ok found =>
      cases found with
      | none => rfl
      | some tmp =>
          simp only [bind, Except.bind, look]
          cases buf.copy buf.rindex tmp with
          | error f => rfl
          | ok service =>
              dsimp only
              cases buf.copy (buf.rindex + tmp + 1) (pathLen - 1 - tmp) <;> rfl

theorem stagePath_blind : Blind stagePath := by
  intro ctx buf looked looked'
  unfold stagePath
  dsimp only
  split_ifs
  · rfl
  · cases buf.peekUint32 with
    | error f => rfl
    | ok pathLen =>
        simp only [bind, Except.bind, look]
        change Except.map _ (if buf.readable < pathLen then _ else _) =
          Except.map _ (if buf.readable < pathLen then _ else _)
        split_ifs
        · rfl
        · exact takePath_blind pathLen _ _ _ _

theorem stagePayload_blind {n : Nat} : Blind (stagePayload n) := by
  intro ctx buf looked looked'
  unfold stagePayload
  dsimp only
  split_ifs
  · rfl
  · cases buf.peekUint32 with
    | error f => rfl
    | ok payloadLen =>
        simp only [bind, Except.bind, look]
        change Except.map _ (if buf.readable < payloadLen then _ else _) =
          Except.map _ (if buf.readable < payloadLen then _ else _)
        split_ifs
        · rfl
        · rfl

theorem requestStage_blind : Blind requestStage := by
  intro ctx buf looked looked'
  unfold requestStage
  dsimp only
  split
  · exact stageMagic_blind _ _ _ _
  · exact stageConnType_blind _ _ _ _
  · exact stagePath_blind _ _ _ _
  · exact stagePayload_blind _ _ _ _
  · rfl

theorem map_eq_cases {α β : Type} {f : α → β} {x y : Except Fault α} (h : x.map f = y.map f) :
    (∃ fault, x = .error fault ∧ y = .error fault) ∨
      ∃ a b, x = .ok a ∧ y = .ok b ∧ f a = f b := by
  cases x with
  | error fault =>
      cases y with
      | error fault' =>
          obtain rfl := Except.error.inj h
          exact .inl ⟨_, rfl, rfl⟩
      | ok b => cases h
  | ok a =>
      cases y with
      | error fault => cases h
      | ok b => exact .inr ⟨a, b, rfl, rfl, Except.ok.inj h⟩

/-- So is the whole loop. -/
theorem runStages_blind {stage : SimpleParser → Except Fault (Flow SimpleParser)}
    (blind : Blind stage) (k : Nat) (ctx : SimpleContext) (buf : Buffer) (looked looked' : List Access) :
    (runStages stage k ⟨ctx, buf, looked⟩).map (Prod.map id forget) =
      (runStages stage k ⟨ctx, buf, looked'⟩).map (Prod.map id forget) := by
  induction k generalizing ctx buf looked looked' with
  | zero => rfl
  | succ k ih =>
      rcases map_eq_cases (blind ctx buf looked looked') with
        ⟨fault, hx, hy⟩ | ⟨flow, flow', hx, hy, same⟩
      · rw [runStages_fault hx, runStages_fault hy]
      · cases flow with
        | ret status p =>
            cases flow' with
            | ret status' p' =>
                obtain ⟨rfl, kept⟩ := Flow.ret.inj same
                rw [runStages_ret hx, runStages_ret hy]
                exact congrArg (fun q => Except.ok (status, q)) kept
            | again p' => cases same
        | again p =>
            cases flow' with
            | ret status' p' => cases same
            | again p' =>
                obtain ⟨ctx, buf, l⟩ := p
                obtain ⟨ctx', buf', l'⟩ := p'
                obtain ⟨rfl, rfl, _⟩ := SimpleParser.mk.inj (Flow.again.inj same)
                rw [runStages_again hx, runStages_again hy]
                exact ih ctx buf l l'

end SimpleParser

namespace SimpleProtocol

/-- The magic number once read, the rest of the call is one made behind it. -/
theorem resume_magic {b : Buffer} (enough : ¬ b.readable < 4) (peek : b.peekInt32 = .ok magicNum) :
    resume {} b = resume { stage := 1 } (b.retrieve 4) := by
  have first : SimpleParser.requestStage ⟨{}, b, []⟩ =
      .ok (.again ⟨{ stage := 1 }, b.retrieve 4, [⟨b.rindex, b.rindex + 4, b.rindex, b.windex⟩]⟩) := by
    change SimpleParser.stageMagic ⟨{}, b, []⟩ = _
    unfold SimpleParser.stageMagic
    dsimp only
    rw [if_neg enough, peek]
    rfl
  have goes : SimpleContext.parseRequest {} b = runStages SimpleParser.requestStage 3
      ⟨{ stage := 1 }, b.retrieve 4, [⟨b.rindex, b.rindex + 4, b.rindex, b.windex⟩]⟩ :=
    runStages_again first
  have blind := SimpleParser.runStages_blind SimpleParser.requestStage_blind 3 { stage := 1 }
    (b.retrieve 4) [⟨b.rindex, b.rindex + 4, b.rindex, b.windex⟩] []
  unfold resume
  rw [goes]
  change _ = (runStages SimpleParser.requestStage 3 ⟨{ stage := 1 }, b.retrieve 4, []⟩ >>= _)
  rcases SimpleParser.map_eq_cases blind with ⟨fault, hx, hy⟩ | ⟨⟨status, p⟩, ⟨status', p'⟩, hx, hy, same⟩
  · rw [hx, hy]
  · rw [hx, hy]
    obtain ⟨ctx, buf, l⟩ := p
    obtain ⟨ctx', buf', l'⟩ := p'
    obtain ⟨rfl, kept⟩ := Prod.mk.inj same
    obtain ⟨rfl, rfl, _⟩ := SimpleParser.mk.inj kept
    rfl

end SimpleProtocol

/-- The stream begins with the magic number. -/
def Magic (w : Bytes) : Prop := castInt (BigEndian.decode (w.take 4)) = magicNum

instance (w : Bytes) : Decidable (Magic w) := inferInstanceAs (Decidable (_ = _))

def Session.recv (s : Session) (chunk : Bytes) : Session := { s with buf := s.buf.recv chunk }

namespace PbServer
open SimpleProtocol (resume_magic)

variable {protocol : Protocol} {rest : List Protocol} {i j : Nat} {s t : Session} {b : Buffer}
  {chunk w : Bytes} {ctx : AnyContext}

theorem tryProtocols_fault {f : Fault} (h : protocol.parseRequest s = .error f) :
    tryProtocols (protocol :: rest) i s = .error f := by
  rw [tryProtocols, h]
  rfl

theorem tryProtocols_next {p : Protocol} (h : p.parseRequest s = .ok (.tryAnotherProtocol, t)) :
    tryProtocols (p :: rest) i s = tryProtocols rest (i + 1) t := by
  rw [tryProtocols, h]
  rfl

theorem tryProtocols_done {p : Protocol} {status : ParseProtocolStatus}
    (h : p.parseRequest s = .ok (status, t)) (done : status ≠ .tryAnotherProtocol) :
    tryProtocols (p :: rest) i s = .ok (some status, i, t) := by
  rw [tryProtocols, h]
  cases status <;> first | rfl | exact absurd rfl done

/-- A buffer that only ever received. -/
structure Unconsumed (b : Buffer) : Prop where
  wf : b.Wf
  storage : 0 < b.data.length

theorem Unconsumed.recv (h : Unconsumed b) (chunk : Bytes) : Unconsumed (b.recv chunk) :=
  have got := h.wf.recv h.storage chunk
  ⟨got.wf, h.storage.trans_le got.storage⟩

/-- How far the two servers can be apart while both wait: in the protocol index, and by
the magic number, which one of them has consumed. -/
inductive Agree : Nat → Session → Nat → Session → Prop
  | undecided {b : Buffer} : Unconsumed b → b.unread.length < 4 → Agree 0 ⟨none, b⟩ 0 ⟨none, b⟩
  | other {b : Buffer} : Unconsumed b → 4 ≤ b.unread.length → b.unread.length < 7 →
      ¬ Magic b.unread → Agree 1 ⟨none, b⟩ 0 ⟨none, b⟩
  | marked {b : Buffer} : Unconsumed b → 4 ≤ b.unread.length → b.unread.length < 7 →
      Magic b.unread → Agree 0 ⟨some (.simple { stage := 1 }), b.retrieve 4⟩ 0 ⟨none, b⟩
  | simple {ctx : SimpleContext} {b : Buffer} :
      Agree 0 ⟨some (.simple ctx), b⟩ 1 ⟨some (.simple ctx), b⟩
  | http {ctx : HTTPContext} {b : Buffer} : Agree 1 ⟨some (.http ctx), b⟩ 0 ⟨some (.http ctx), b⟩

/-- The two loops over the protocols end alike. -/
inductive Alike : Except Fault (Option ParseProtocolStatus × Nat × Session) →
    Except Fault (Option ParseProtocolStatus × Nat × Session) → Prop
  | fault {f : Fault} : Alike (.error f) (.error f)
  | exhausted {i j : Nat} {s t : Session} : Alike (.ok (none, i, s)) (.ok (none, j, t))
  | answered {status : ParseProtocolStatus} {i j : Nat} {s : Session} : status ≠ .noEnoughData →
      Alike (.ok (some status, i, s)) (.ok (some status, j, s))
  | waits {i j : Nat} {s t : Session} : Agree i s j t →
      Alike (.ok (some .noEnoughData, i, s)) (.ok (some .noEnoughData, j, t))

/-- Both have recognised the protocol; what else they would try does not matter. -/
theorem alike_of_call {out : Except Fault (ParseProtocolStatus × Session)} {rest' : List Protocol}
    (hs : protocol.parseRequest s = out) (ht : protocol.parseRequest t = out)
    (sticks : ∀ u, out ≠ .ok (.tryAnotherProtocol, u))
    (agree : ∀ u, out = .ok (.noEnoughData, u) → Agree i u j u) :
    Alike (tryProtocols (protocol :: rest) i s) (tryProtocols (protocol :: rest') j t) := by
  cases out with
  | error f =>
      rw [tryProtocols_fault hs, tryProtocols_fault ht]
      exact .fault
  | ok result =>
      obtain ⟨status, u⟩ := result
      have done : status ≠ .tryAnotherProtocol := by
        rintro rfl
        exact sticks u rfl
      rw [tryProtocols_done hs done, tryProtocols_done ht done]
      by_cases more : status = .noEnoughData
      · subst more
        exact .waits (agree u rfl)
      · exact .answered more

theorem simple_resume_ctx {ctx : SimpleContext} {status : ParseProtocolStatus} {u : Session}
    (h : SimpleProtocol.resume ctx b = .ok (status, u)) : ∃ ctx', u.ctx = some (.simple ctx') := by
  obtain ⟨⟨status', p⟩, _, h⟩ := bind_ok.mp h
  obtain ⟨_, rfl⟩ := Prod.mk.inj (Except.ok.inj h)
  exact ⟨p.ctx, rfl⟩

theorem http_resume_ctx {ctx : HTTPContext} {status : ParseProtocolStatus} {u : Session}
    (h : HTTPProtocol.resume ctx b = .ok (status, u)) : ∃ ctx', u.ctx = some (.http ctx') := by
  obtain ⟨⟨status', p⟩, _, h⟩ := bind_ok.mp h
  obtain ⟨_, rfl⟩ := Prod.mk.inj (Except.ok.inj h)
  exact ⟨p.ctx, rfl⟩

theorem alike_simple {ctx : SimpleContext} {rest' : List Protocol}
    (hs : Protocol.simple.parseRequest s = SimpleProtocol.resume ctx b)
    (ht : Protocol.simple.parseRequest t = SimpleProtocol.resume ctx b) :
    Alike (tryProtocols (.simple :: rest) 0 s) (tryProtocols (.simple :: rest') 1 t) := by
  refine alike_of_call hs ht (fun u hu => ?_) fun u hu => ?_
  · cases Protocol.simple_answered (s := s) hu with
    | tryAnotherProtocol same none =>
        obtain ⟨ctx', some⟩ := simple_resume_ctx hu
        rw [same, none] at some
        cases some
  · obtain ⟨ctx', some⟩ := simple_resume_ctx hu
    obtain ⟨_, b'⟩ := u
    obtain rfl : _ = _ := some
    exact .simple

theorem alike_http {ctx : HTTPContext} {rest' : List Protocol}
    (hs : Protocol.http.parseRequest s = HTTPProtocol.resume ctx b)
    (ht : Protocol.http.parseRequest t = HTTPProtocol.resume ctx b) :
    Alike (tryProtocols (.http :: rest) 1 s) (tryProtocols (.http :: rest') 0 t) := by
  refine alike_of_call hs ht (fun u hu => ?_) fun u hu => ?_
  · cases Protocol.http_answered (s := s) hu with
    | tryAnotherProtocol same none =>
        obtain ⟨ctx', some⟩ := http_resume_ctx hu
        rw [same, none] at some
        cases some
  · obtain ⟨ctx', some⟩ := http_resume_ctx hu
    obtain ⟨_, b'⟩ := u
    obtain rfl : _ = _ := some
    exact .http

theorem Unconsumed.readable (h : Unconsumed b) : b.readable = b.unread.length := h.wf.readable_eq

theorem magic_iff (h : Unconsumed b) (enough : 4 ≤ b.unread.length) :
    b.peekInt32 = .ok magicNum ↔ Magic b.unread := by
  rw [h.wf.peekInt32_eq enough, Except.ok.injEq, Magic]

theorem simple_early (h : Unconsumed b) (few : b.unread.length < 4) :
    Protocol.simple.parseRequest ⟨none, b⟩ = .ok (.noEnoughData, ⟨none, b⟩) :=
  if_pos (h.readable.trans_lt few)

theorem simple_marked (h : Unconsumed b) (enough : 4 ≤ b.unread.length) (magic : Magic b.unread) :
    Protocol.simple.parseRequest ⟨none, b⟩ = SimpleProtocol.resume {} b := by
  have many : ¬ b.readable < 4 := by rw [h.readable]; omega
  simp only [Protocol.parseRequest, SimpleProtocol.parseRequest, if_neg many,
    (magic_iff h enough).mpr magic, bind, Except.bind, ne_eq, not_true_eq_false, if_false]

theorem simple_other (h : Unconsumed b) (enough : 4 ≤ b.unread.length) (magic : ¬ Magic b.unread) :
    Protocol.simple.parseRequest ⟨none, b⟩ = .ok (.tryAnotherProtocol, ⟨none, b⟩) := by
  have many : ¬ b.readable < 4 := by rw [h.readable]; omega
  simp only [Protocol.parseRequest, SimpleProtocol.parseRequest, if_neg many,
    h.wf.peekInt32_eq enough, bind, Except.bind]
  exact if_pos magic

/-- The magic number needs eight bytes with what comes next. -/
theorem simple_stays (h : Unconsumed b) (few : b.unread.length < 8) (enough : 4 ≤ b.unread.length) :
    SimpleProtocol.resume { stage := 1 } (b.retrieve 4) =
      .ok (.noEnoughData, ⟨some (.simple { stage := 1 }), b.retrieve 4⟩) := by
  have ho := h.wf.order
  have hlen := h.wf.unread_length
  have short : (b.retrieve 4).readable < 4 := by
    change sizeSub b.windex (b.rindex + 4) < 4
    rw [Buffer.sizeSub_of_le (by omega)]
    omega
  have stuck : SimpleParser.requestStage ⟨{ stage := 1 }, b.retrieve 4, []⟩ =
      .ok (.ret .noEnoughData ⟨{ stage := 1 }, b.retrieve 4, []⟩) := if_pos short
  change (runStages SimpleParser.requestStage 3 ⟨{ stage := 1 }, b.retrieve 4, []⟩ >>= _) = _
  rw [runStages_ret stuck]
  rfl

theorem http_early (h : Unconsumed b) (few : b.unread.length < 7) :
    Protocol.http.parseRequest ⟨none, b⟩ = .ok (.noEnoughData, ⟨none, b⟩) :=
  if_pos (h.readable.trans_lt few)

theorem http_late (h : Unconsumed b) (many : 7 ≤ b.unread.length) :
    Protocol.http.parseRequest ⟨none, b⟩ =
      match HTTPMethod.tried.find? fun m => m.name.isPrefixOf b.unread with
      | none => .ok (.tryAnotherProtocol, ⟨none, b⟩)
      | some _ => HTTPProtocol.resume {} b := by
  have enough : ¬ b.readable < HTTPProtocol.httpMethodMaxLen := by
    rw [h.readable]
    exact many.not_gt
  have names : ∀ m ∈ HTTPMethod.tried, m.name.length ≤ 7 := by decide
  have found := h.wf.findMethod_eq fun m hm => .inl ((names m hm).trans many)
  simp only [Protocol.parseRequest, HTTPProtocol.parseRequest, if_neg enough, found, bind, Except.bind]
  cases List.find? (fun m => m.name.isPrefixOf b.unread) HTTPMethod.tried <;> rfl

/-- No method name begins with the first byte of the magic number. -/
theorem magic_no_method (h : Magic w) (enough : 4 ≤ w.length) :
    HTTPMethod.tried.find? (fun m => m.name.isPrefixOf w) = none := by
  have width : (w.take 4).length = 4 := by rw [List.length_take, Nat.min_eq_left enough]
  have small := BigEndian.decode_lt (w.take 4)
  rw [width] at small
  have value : BigEndian.decode (w.take 4) = 0x19951028 := by
    have cast := h
    unfold Magic castInt magicNum at cast
    split_ifs at cast <;> omega
  have word := BigEndian.encode_decode (w.take 4)
  rw [width, value] at word
  have front : (w.take 4).head? = w.head? := by
    cases w <;> rfl
  have first : w.head? = some 25 := by
    rw [← front, ← word]
    decide
  have names : ∀ m ∈ HTTPMethod.tried, m.name ≠ [] ∧ m.name.head? ≠ some 25 := by decide
  rw [List.find?_eq_none]
  intro m hm pre
  obtain ⟨nonempty, letter⟩ := names m hm
  obtain ⟨rest, rfl⟩ := List.isPrefixOf_iff_prefix.mp pre
  rw [List.head?_append_of_ne_nil _ nonempty] at first
  exact letter first

/-- A connection on which nothing has been recognised, at seven bytes and beyond. -/
theorem alike_late (h : Unconsumed b) (many : 7 ≤ b.unread.length) :
    Alike (tryProtocols [.simple, .http] 0 ⟨none, b⟩) (tryProtocols [.http, .simple] 0 ⟨none, b⟩) := by
  have enough : 4 ≤ b.unread.length := by omega
  have late := http_late h many
  by_cases magic : Magic b.unread
  · rw [magic_no_method magic enough] at late
    rw [tryProtocols_next (p := .http) late]
    exact alike_simple (simple_marked h enough magic) (simple_marked h enough magic)
  · have other := simple_other h enough magic
    rw [tryProtocols_next (p := .simple) other]
    cases found : HTTPMethod.tried.find? fun m => m.name.isPrefixOf b.unread with
    | none =>
        rw [found] at late
        rw [tryProtocols_next (p := .http) late, tryProtocols_next (p := .http) late,
          tryProtocols_next (p := .simple) other]
        exact .exhausted
    | some m =>
        rw [found] at late
        exact alike_http late late

/-- One chunk, one call on each side. -/
theorem alike_step (h : Agree i s j t) (chunk : Bytes) :
    Alike (tryProtocols ([Protocol.simple, .http].drop i) i (s.recv chunk))
      (tryProtocols ([Protocol.http, .simple].drop j) j (t.recv chunk)) := by
  cases h with
  | simple => exact alike_simple rfl rfl
  | http => exact alike_http rfl rfl
  | @undecided b h few =>
      have now := h.recv chunk
      change Alike (tryProtocols [.simple, .http] 0 ⟨none, b.recv chunk⟩)
        (tryProtocols [.http, .simple] 0 ⟨none, b.recv chunk⟩)
      by_cases many : 7 ≤ (b.recv chunk).unread.length
      · exact alike_late now many
      · have early := http_early now (not_le.mp many)
        rw [tryProtocols_done (p := .http) early (by simp)]
        by_cases enough : 4 ≤ (b.recv chunk).unread.length
        · by_cases magic : Magic (b.recv chunk).unread
          · have marked := simple_marked now enough magic
            rw [resume_magic (by rw [now.readable]; omega) ((magic_iff now enough).mpr magic),
              simple_stays now (by omega) enough] at marked
            rw [tryProtocols_done (p := .simple) marked (by simp)]
            exact .waits (.marked now enough (not_le.mp many) magic)
          · rw [tryProtocols_next (p := .simple) (simple_other now enough magic),
              tryProtocols_done (p := .http) early (by simp)]
            exact .waits (.other now enough (not_le.mp many) magic)
        · rw [tryProtocols_done (p := .simple) (simple_early now (not_le.mp enough)) (by simp)]
          exact .waits (.undecided now (not_le.mp enough))
  | @other b h enough few magic =>
      have now := h.recv chunk
      have got := h.wf.recv h.storage chunk
      have grown : 4 ≤ (b.recv chunk).unread.length := by
        rw [got.unread, List.length_append]
        omega
      have still : ¬ Magic (b.recv chunk).unread := by
        rw [got.unread, Magic, List.take_append_of_le_length enough]
        exact magic
      change Alike (tryProtocols [.http] 1 ⟨none, b.recv chunk⟩)
        (tryProtocols [.http, .simple] 0 ⟨none, b.recv chunk⟩)
      by_cases many : 7 ≤ (b.recv chunk).unread.length
      · have late := alike_late now many
        rw [tryProtocols_next (p := .simple) (simple_other now grown still)] at late
        exact late
      · have early := http_early now (not_le.mp many)
        rw [tryProtocols_done (p := .http) early (by simp),
          tryProtocols_done (p := .http) early (by simp)]
        exact .waits (.other now grown (not_le.mp many) still)
  | @marked b h enough few magic =>
      have now := h.recv chunk
      have got := h.wf.recv h.storage chunk
      have grown : 4 ≤ (b.recv chunk).unread.length := by
        rw [got.unread, List.length_append]
        omega
      have still : Magic (b.recv chunk).unread := by
        rw [got.unread, Magic, List.take_append_of_le_length enough]
        exact magic
      have goes : Protocol.simple.parseRequest
          ⟨some (.simple { stage := 1 }), (b.retrieve 4).recv chunk⟩ =
          SimpleProtocol.resume {} (b.recv chunk) := by
        rw [resume_magic (by rw [now.readable]; omega) ((magic_iff now grown).mpr still),
          Buffer.recv_retrieve]
        rfl
      change Alike (tryProtocols [.simple, .http] 0
          ⟨some (.simple { stage := 1 }), (b.retrieve 4).recv chunk⟩)
        (tryProtocols [.http, .simple] 0 ⟨none, b.recv chunk⟩)
      by_cases many : 7 ≤ (b.recv chunk).unread.length
      · have late := http_late now many
        rw [magic_no_method still grown] at late
        rw [tryProtocols_next (p := .http) late]
        exact alike_simple goes (simple_marked now grown still)
      · have stays := goes
        rw [resume_magic (by rw [now.readable]; omega) ((magic_iff now grown).mpr still),
          simple_stays now (by omega) grown] at stays
        rw [tryProtocols_done (p := .simple) stays (by simp),
          tryProtocols_done (p := .http) (http_early now (not_le.mp many)) (by simp)]
        exact .waits (.marked now grown (not_le.mp many) still)

end PbServer

/-- What the first request on a connection comes to, and at which chunk. -/
inductive FirstRequest where
  | waiting
  | dispatched (chunk : Nat) (service method : Bytes) (connType : ConnType)
      (payload : Except Fault Bytes)
  | closed (chunk : Nat)
  | faulted (chunk : Nat) (fault : Fault)
  deriving DecidableEq

namespace PbServer

/-- `data_read_callback` after every chunk, up to the call of `request_callback` or the
close of the connection. -/
def firstRequest (srv : PbServer) : Nat → TCPConnection → List Bytes → FirstRequest
  | _, _, [] => .waiting
  | k, conn, chunk :: chunks =>
    match srv.dataReadCallback { conn with rbuf := conn.rbuf.recv chunk } with
    | .error fault => .faulted k fault
    | .ok (.wait, conn) => srv.firstRequest (k + 1) conn chunks
    | .ok (.close, _) => .closed k
    | .ok (.request, conn) =>
      match conn.ctx with
      | none => .faulted k .nullPointer
      | some ctx => .dispatched k ctx.base.service ctx.base.method ctx.base.connType
          (ctx.base.payloadView.str conn.rbuf)

/-- What `data_read_callback` makes of the answer of the loop. -/
def conclude (conn : TCPConnection) (out : Option ParseProtocolStatus × Nat × Session) :
    DataRead × TCPConnection :=
  (match out.1 with
    | none => .close
    | some .error => .close
    | some .noEnoughData => .wait
    | some _ => .request,
    { conn with protoIdx := out.2.1, ctx := out.2.2.ctx, rbuf := out.2.2.buf })

variable {srv srv' : PbServer} {c d : TCPConnection}

theorem dataReadCallback_eq (srv : PbServer) (conn : TCPConnection) :
    srv.dataReadCallback conn = (tryProtocols (srv.protocols.drop conn.protoIdx) conn.protoIdx
      ⟨conn.ctx, conn.rbuf⟩).map (conclude conn) := by
  unfold dataReadCallback
  cases tryProtocols (srv.protocols.drop conn.protoIdx) conn.protoIdx ⟨conn.ctx, conn.rbuf⟩ with
  | error f => rfl
  | ok out =>
      obtain ⟨status, idx, s⟩ := out
      cases status with
      | none => rfl
      | some status => cases status <;> rfl

/-- Connections that agree so far come to the same. -/
theorem firstRequest_agree (hs : srv.protocols = [.simple, .http]) (ht : srv'.protocols = [.http, .simple])
    (chunks : List Bytes) (k : Nat) (agree : Agree c.protoIdx ⟨c.ctx, c.rbuf⟩ d.protoIdx ⟨d.ctx, d.rbuf⟩) :
    srv.firstRequest k c chunks = srv'.firstRequest k d chunks := by
  induction chunks generalizing k c d with
  | nil => rfl
  | cons chunk chunks ih =>
      have alike := alike_step agree chunk
      rw [firstRequest, firstRequest, dataReadCallback_eq, dataReadCallback_eq, hs, ht]
      generalize hx : tryProtocols ([Protocol.simple, .http].drop c.protoIdx) c.protoIdx
        (Session.recv ⟨c.ctx, c.rbuf⟩ chunk) = x at alike
      generalize hy : tryProtocols ([Protocol.http, .simple].drop d.protoIdx) d.protoIdx
        (Session.recv ⟨d.ctx, d.rbuf⟩ chunk) = y at alike
      simp only [Session.recv] at hx hy
      simp only [hx, hy]
      cases alike with
      | fault => rfl
      | exhausted => rfl
      | waits agree => exact ih (k + 1) agree
      | @answered status i j s done =>
          cases status with
          | noEnoughData => exact absurd rfl done
          | error => rfl
          | success => rfl
          | tryAnotherProtocol => rfl
          | partSuccess => rfl

/-- On a fresh connection, the first request is dispatched with the same contents at the
same chunk, or refused at the same chunk, in whichever order the two protocols were added. -/
theorem firstRequest_order (srv : PbServer) (fd : Nat) (chunks : List Bytes) :
    { srv with protocols := [.simple, .http] }.firstRequest 0 { fd } chunks =
      { srv with protocols := [.http, .simple] }.firstRequest 0 { fd } chunks := by
  refine firstRequest_agree rfl rfl chunks 0 (.undecided ⟨Buffer.ofSize_wf _, ?_⟩ ?_)
  · change 0 < (List.replicate Buffer.initialBufferSize 0).length
    rw [List.length_replicate]
    exact Nat.zero_lt_succ 1023
  · rw [Buffer.ofSize_unread]
    exact Nat.zero_lt_succ 3

end PbServer
end SmallRpc
