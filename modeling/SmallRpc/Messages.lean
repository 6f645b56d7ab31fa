import SmallRpc.Builds
import SmallRpc.DetectionOrder
import SmallRpc.SyncCall

/-! One message on its way into a parser, in whatever pieces it comes. As long as some of it
is missing the parser waits, and with the last byte it has the message. -/
namespace SmallRpc
open Resumable

namespace Buffer
variable {b b' : Buffer} {bs : Bytes} {mem : Bytes} {mems : List Bytes}

theorem recv_windex (b : Buffer) (bs : Bytes) : (b.recv bs).windex = b.windex + bs.length := by
  have room : ∀ c : Buffer, c.makeRoom.windex = c.windex := by
    intro c
    unfold makeRoom
    split_ifs <;> rfl
  have bytes : ∀ (bs : Bytes) (c : Buffer),
      (bs.foldl (fun b x => b.makeRoom.put [x]) c).windex = c.windex + bs.length := by
    intro bs
    induction bs with
    | nil => exact fun _ => rfl
    | cons x xs ih =>
        intro c
        rw [List.foldl_cons, ih]
        change c.makeRoom.windex + 1 + xs.length = _
        rw [room, List.length_cons]
        omega
  rw [recv, bytes, room]

/-- Pieces that were appended are there, if none is so long that an `int` shows less of it. -/
theorem Wf.appendAll_ok (h : b.Wf) (appended : b.appendAll mems = .ok b')
    (small : ∀ mem ∈ mems, mem.length < 2 ^ 31) : b'.Wf ∧ b'.unread = b.unread ++ mems.flatten ∧
      b.data.length ≤ b'.data.length ∧ b'.extraIndex = b.extraIndex := by
  induction mems generalizing b with
  | nil =>
      cases appended
      exact ⟨h, by simp, le_rfl, rfl⟩
  | cons mem mems ih =>
      rw [Buffer.appendAll, List.foldlM_cons] at appended
      obtain ⟨c, one, rest⟩ := bind_ok.mp appended
      obtain ⟨short, later⟩ := List.forall_mem_cons.mp small
      obtain ⟨d, hd, _, fit, _⟩ := append_ok one
      rw [castInt_of_lt short, Int.toNat_natCast] at fit
      have room : b.Fits mem := by
        rcases hd with rfl | rfl
        · exact ⟨short, by omega⟩
        · rw [double_length] at fit
          exact ⟨short, fit⟩
      obtain ⟨c', same, done⟩ := h.append room
      obtain rfl := Except.ok.inj (one.symm.trans same)
      obtain ⟨wf, unread, storage, index⟩ := ih done.wf rest later
      refine ⟨wf, ?_, ?_, index.trans done.extraIndex⟩
      · rw [unread, done.unread, List.flatten_cons, List.append_assoc]
      · rcases done.storage with same | twice
        · omega
        · omega

end Buffer

/-- Of a field of `size` bytes, with its length at `start`, between one and four bytes are
missing when `k` bytes of the message are there. -/
def CutsField (start size k : Nat) : Prop := start + 4 ≤ k ∧ start + size ≤ k ∧ k < start + 4 + size

instance (start size k : Nat) : Decidable (CutsField start size k) :=
  inferInstanceAs (Decidable (_ ∧ _))

namespace SimpleParser
open SmallRpc.Frame

variable {stage : SimpleParser → Except Fault (Flow SimpleParser)} {last : Nat} {p : SimpleParser}
  {M : Machine UInt8 Frame ParseProtocolStatus} {s f : Frame} {w v c bytes : Bytes}

/-- The parser has received `w`, which is all that has been put into its buffer. -/
def On (M : Machine UInt8 Frame ParseProtocolStatus) (s : Frame) (w : Bytes) (p : SimpleParser) : Prop :=
  ∃ t x, Reaches M s w t x ∧ Matches p t x ∧ 0 < p.buf.data.length ∧ p.buf.windex = w.length

theorem On.recv (h : On M s w p) (c : Bytes) : On M s (w ++ c) (p.recv c) := by
  obtain ⟨t, x, reached, here, storage, windex⟩ := h
  refine ⟨t, x ++ c, reached.append c, here.recv storage c, ?_, ?_⟩
  · exact storage.trans_le (here.wf.recv storage c).storage
  · change (p.buf.recv c).windex = _
    rw [Buffer.recv_windex, windex, List.length_append]

/-- What the parser has looked at does not matter. -/
theorem On.forget (h : On M s w p) : On M s w ⟨p.ctx, p.buf, []⟩ := by
  obtain ⟨t, x, reached, here, rest⟩ := h
  exact ⟨t, x, reached, ⟨here.wf, here.unread, here.stage, here.connType, here.rpcStatus, here.service,
    here.method, here.payload⟩, rest⟩

theorem On.waits (imp : Implements stage M last) (h : On M s w p)
    (whole : Drains M s (w ++ v) (some .success) f []) (more : v ≠ [])
    (uncut : ∀ t x, Drains M s w none t x → ¬ Short last t x) :
    ∃ q, runStages stage (last - p.ctx.stage) p = .ok (.noEnoughData, q) ∧ On M s w q := by
  obtain ⟨t, x, reached, here, storage, windex⟩ := h
  obtain ⟨r, u, y, rest⟩ := Drains.total M t x
  have drains := reached.drains rest
  cases r with
  | some o =>
      have left := (drains.stops_with whole).2.2
      exact absurd (List.append_eq_nil_iff.mp left.symm).2 more
  | none =>
      obtain ⟨q, out, there, advanced⟩ := stages_wait imp here rest (uncut u y drains)
      refine ⟨q, out, u, y, drains.reaches, there, ?_, ?_⟩
      · rw [advanced.buf]
        exact storage
      · rw [advanced.buf]
        exact windex

theorem On.takes (imp : Implements stage M last) (h : On M s w p)
    (whole : Drains M s w (some .success) f []) (hb : f.payload = some bytes) :
    ∃ q, runStages stage (last - p.ctx.stage) p = .ok (.success, q) ∧ 0 < q.buf.data.length ∧
      q.ctx.connType = f.connType ∧ q.ctx.service = f.service ∧ q.ctx.method = f.method ∧
      q.ctx.payloadView.str q.buf = .ok bytes := by
  obtain ⟨t, x, reached, here, storage, _⟩ := h
  rw [← List.append_nil w] at whole
  have rest := reached.completes whole
  rw [← List.append_nil x] at here
  obtain ⟨q, out, buf, connType, _, service, method, str⟩ := SimpleContext.parse_message imp here rest hb
  refine ⟨q, out, ?_, connType, service, method, str⟩
  rw [buf]
  exact storage

/-- A payload with nothing behind it is as long as its length says. -/
theorem last_field {next : Nat} {t : Frame} {z : Bytes} (verdict : ∀ w, M.stage t w = payloadVerdict next t w)
    (finished : ∀ {s w}, next ≤ s.stage → M.stage s w = .stop .success)
    (rest : Drains M t z (some .success) f []) (hb : f.payload = some bytes) :
    word z = bytes.length ∧ z.length = 4 + bytes.length := by
  generalize hnone : ([] : Bytes) = none at rest
  cases rest with
  | stop hv =>
      rw [verdict] at hv
      exact absurd hv payloadVerdict_success
  | @advance _ _ s' n _ _ _ hv rest =>
      subst hnone
      rw [verdict, payloadVerdict] at hv
      split_ifs at hv with short
      cases hv
      have reached : next ≤ { t with payload := some ((z.drop 4).take (word z)), stage := next }.stage := le_rfl
      obtain ⟨_, rfl, none⟩ := rest.unique (.stop (finished reached))
      have same : (z.drop 4).take (word z) = bytes := Option.some.inj hb
      have left := congrArg List.length none
      have taken := congrArg List.length same
      rw [List.length_drop, List.length_nil] at left
      rw [List.length_take, List.length_drop] at taken
      omega

/-- What is short of the last field is cut there. -/
theorem cuts_last (next : Nat) {start : Nat} {t : Frame} {x : Bytes} (drains : Drains M s w none t x)
    (verdict : ∀ w, M.stage t w = payloadVerdict next t w)
    (finished : ∀ {s w}, next ≤ s.stage → M.stage s w = .stop .success)
    (whole : Drains M s (w ++ v) (some .success) f []) (hb : f.payload = some bytes)
    (len : (w ++ v).length = start + 4 + bytes.length) (short : Short last t x) :
    CutsField start bytes.length w.length := by
  obtain ⟨_, _, h4, counted, missing⟩ := short
  obtain ⟨size, all⟩ := last_field verdict finished (drains.reaches.completes whole) hb
  rw [word_append h4] at size
  rw [List.length_append] at len all
  exact ⟨by omega, by omega, by omega⟩

theorem response_uncut {start : Nat} (whole : Drains Frame.response s (w ++ v) (some .success) f [])
    (hb : f.payload = some bytes) (len : (w ++ v).length = start + 4 + bytes.length)
    (uncut : ¬ CutsField start bytes.length w.length) :
    ∀ t x, Drains Frame.response s w none t x → ¬ Short 3 t x := by
  intro t x drains short
  have ht : t.stage = 2 := by
    have low := short.1
    have high := short.2.1
    omega
  refine uncut (cuts_last 3 drains (fun w => ?_) response_implements.finished whole hb len short)
  change responseVerdict t w = _
  simp only [responseVerdict, ht]

theorem request_uncut {m : ParseProtocolStatus} {n : Nat}
    (whole : Drains (Frame.request m) {} (w ++ v) (some .success) f []) (hb : f.payload = some bytes)
    (path : word ((w ++ v).drop 8) = n) (len : (w ++ v).length = 12 + n + 4 + bytes.length)
    (uncut : ¬ (CutsField 8 n w.length ∨ CutsField (12 + n) bytes.length w.length)) :
    ∀ t x, Drains (Frame.request m) {} w none t x → ¬ Short 4 t x := by
  intro t x drains short
  rcases (by have low := short.1; have high := short.2.1; omega : t.stage = 2 ∨ t.stage = 3) with ht | ht
  · obtain ⟨_, _, h4, counted, missing⟩ := short
    obtain ⟨h8, hx⟩ := (request_path_at drains ht).2.2.1 rfl
    rw [List.drop_append_of_le_length h8, ← hx, word_append h4] at path
    have left := congrArg List.length hx
    rw [List.length_drop] at left
    exact uncut (.inl ⟨by omega, by omega, by omega⟩)
  · refine uncut (.inr (cuts_last 4 drains (fun w => ?_) (fun {s w} done => ?_) whole hb len short))
    · change requestVerdict m t w = _
      simp only [requestVerdict, ht]
    · change requestVerdict m s w = _
      unfold requestVerdict
      split <;> first | omega | rfl

end SimpleParser

namespace HTTPParser
open HTTPContext

variable {stage : HTTPParser → Except Fault (Flow HTTPParser)} {p : HTTPParser}
  {M : Machine UInt8 HTTPContext HeadEnd} {s f : HTTPContext} {w v payload : Bytes}

/-- The parser has received `w`, which is all that has been put into its buffer. -/
def On (M : Machine UInt8 HTTPContext HeadEnd) (s : HTTPContext) (w : Bytes) (p : HTTPParser) : Prop :=
  ∃ t x, Reaches M s w t x ∧ Matches p t x ∧ 0 < p.buf.data.length ∧ p.buf.windex = w.length

theorem On.recv (h : On M s w p) (c : Bytes) : On M s (w ++ c) (p.recv c) := by
  obtain ⟨t, x, reached, here, storage, windex⟩ := h
  refine ⟨t, x ++ c, reached.append c, here.recv storage c, ?_, ?_⟩
  · exact storage.trans_le (here.wf.recv storage c).storage
  · change (p.buf.recv c).windex = _
    rw [Buffer.recv_windex, windex, List.length_append]

/-- A part of the head is waited on in the head, and a part of the body behind it. -/
theorem On.waits (imp : Implements stage M) (h : On M s w p)
    (whole : Drains M s (w ++ v) (some .headed) f payload) (h2 : f.stage = 2)
    (size : f.bodySize = payload.length) (small : payload.length < 2 ^ 31) (more : v ≠ []) :
    ∃ q, runStages stage (3 - p.ctx.stage) p = .ok (.noEnoughData, q) ∧ On M s w q := by
  obtain ⟨t, x, reached, here, storage, windex⟩ := h
  obtain ⟨r, u, y, rest⟩ := Drains.total M t x
  have drains := reached.drains rest
  have kept : ∀ {q : HTTPParser} {n : Nat}, q.buf = p.buf.retrieve n → Matches q u y → On M s w q := by
    intro q n same there
    refine ⟨u, y, drains.reaches, there, ?_, ?_⟩
    · rw [same]
      exact storage
    · rw [same]
      exact windex
  have outcome := call_outcome imp here rest
  cases r with
  | none =>
      cases outcome with
      | @waits q out there same => exact ⟨q, out, kept same there⟩
  | some o =>
      obtain ⟨head, rfl, body⟩ := drains.stops_with whole
      obtain rfl := Option.some.inj head
      cases outcome with
      | @headed q out there _ same =>
          have len := congrArg List.length body
          rw [List.length_append] at len
          have missing := List.length_pos_iff.mpr more
          rw [body_call imp there h2, castInt_of_lt (by omega), if_neg (by omega)] at out
          exact ⟨q, out, kept same there⟩

theorem On.takes (imp : Implements stage M) (h : On M s w p)
    (whole : Drains M s w (some .headed) f payload) (h2 : f.stage = 2)
    (size : f.bodySize = payload.length) (small : payload.length < 2 ^ 31) :
    ∃ q, runStages stage (3 - p.ctx.stage) p = .ok (.success, q) ∧ 0 < q.buf.data.length ∧
      q.message = f.message (.ok payload) := by
  obtain ⟨t, x, reached, here, storage, _⟩ := h
  rw [← List.append_nil w] at whole
  have rest := reached.completes whole
  rw [List.append_nil] at rest
  obtain ⟨q, out, shown⟩ := parse_complete imp here rest h2 small size
  refine ⟨q, out, ?_, shown⟩
  have outcome := call_outcome imp here rest
  cases outcome with
  | @headed q' out' there _ same =>
      rw [out, body_call imp there h2, castInt_of_lt small, if_pos (by omega)] at out'
      obtain rfl := (Prod.mk.inj (Except.ok.inj out')).2
      change 0 < q'.buf.data.length
      rw [same]
      exact storage

end HTTPParser

namespace AnyContext

/-- The bytes that `pack_request` makes of a context. -/
def requestBytes : AnyContext → Bytes
  | simple ctx => ctx.requestPieces.flatten ++ ctx.payload
  | http ctx => ctx.requestPieces.flatten ++ ctx.payload

def responseBytes : AnyContext → Bytes
  | simple ctx => ctx.responsePieces.flatten ++ ctx.payload
  | http ctx => ctx.responsePieces.flatten ++ ctx.payload

end AnyContext

namespace Protocol

/-- The protocol can express the call: its names are free of the bytes that end them, and its
lengths fit in their fields. -/
def Carries : Protocol → Call → Prop
  | .simple, call => slash ∉ call.service ∧
      call.service.length + 1 + call.method.length < 2 ^ 32 ∧ call.payload.length < 2 ^ 31
  | .http, call => (47 ∉ call.service ∧ 32 ∉ call.service ∧ 13 ∉ call.service) ∧
      (32 ∉ call.method ∧ 13 ∉ call.method) ∧
      16 + call.service.length + call.method.length ≤ 65534 ∧ call.payload.length < 2 ^ 31

/-- Where the first `k` bytes of a request end in a field that the parser takes too early. -/
def CutsRequest : Protocol → Call → Nat → Prop
  | .simple, call, k => CutsField 8 (call.service.length + 1 + call.method.length) k ∨
      CutsField (12 + (call.service.length + 1 + call.method.length)) call.payload.length k
  | .http, _, _ => False

/-- The same for a response with a payload of `n` bytes. -/
def CutsResponse : Protocol → Nat → Nat → Prop
  | .simple, n, k => CutsField 12 n k
  | .http, _, _ => False

instance : ∀ (protocol : Protocol) (call : Call), Decidable (protocol.Carries call)
  | .simple, _ => inferInstanceAs (Decidable (_ ∧ _))
  | .http, _ => inferInstanceAs (Decidable (_ ∧ _))

instance : ∀ (protocol : Protocol) (call : Call) (k : Nat), Decidable (protocol.CutsRequest call k)
  | .simple, _, _ => inferInstanceAs (Decidable (_ ∨ _))
  | .http, _, _ => inferInstanceAs (Decidable False)

instance : ∀ (protocol : Protocol) (n k : Nat), Decidable (protocol.CutsResponse n k)
  | .simple, _, _ => inferInstanceAs (Decidable (CutsField _ _ _))
  | .http, _, _ => inferInstanceAs (Decidable False)

end Protocol

/-- The contexts in which a client calls. -/
def Call.simple (call : Call) : SimpleContext := { toContext := call.context }

def Call.http (call : Call) : HTTPContext := { toContext := call.context }

/-- The frame of a client that has received nothing yet. -/
def Call.frame (call : Call) : Frame :=
  { connType := call.connType, service := call.service, method := call.method }

/-- A client has received `w` of the response to its call. -/
inductive Hears (call : Call) (w : Bytes) : Protocol → Session → Prop
  | simple {ctx : SimpleContext} {buf : Buffer} :
      SimpleParser.On Frame.response call.frame w ⟨ctx, buf, []⟩ →
      Hears call w .simple ⟨some (.simple ctx), buf⟩
  | http {ctx : HTTPContext} {buf : Buffer} :
      HTTPParser.On HTTPContext.response call.http w ⟨ctx, buf⟩ →
      Hears call w .http ⟨some (.http ctx), buf⟩

/-- These bytes are a request for what the call is for. -/
inductive Requests (call : Call) (m : Bytes) : Protocol → Prop
  | simple : slash ∉ call.service → call.service.length + 1 + call.method.length < 2 ^ 32 →
      call.payload.length < 2 ^ 32 → m = (Protocol.simple.calling call).requestBytes →
      Requests call m .simple
  | http {f : HTTPContext} : (∃ name ∈ HTTPMethod.tried, name.name <+: m) → 7 ≤ m.length →
      Drains HTTPContext.request {} m (some .headed) f call.payload → f.stage = 2 →
      f.bodySize = call.payload.length → call.payload.length < 2 ^ 31 →
      (call.connType ≠ .short → f.connType ≠ .short) → f.service = call.service →
      f.method = call.method → Requests call m .http

theorem Protocol.requestBytes_length (protocol : Protocol) (call : Call) :
    7 ≤ (protocol.calling call).requestBytes.length := by
  cases protocol with
  | simple => simp [calling_simple, AnyContext.requestBytes, SimpleContext.requestPieces]; omega
  | http =>
      have post : (ascii "POST /").length = 6 := by decide
      have slash : (ascii "/").length = 1 := by decide
      rw [calling_http, AnyContext.requestBytes, HTTPContext.requestPieces]
      simp only [List.cons_append, List.nil_append, List.flatten_cons, List.length_append, post, slash]
      omega

/-- What a client packs is a request. -/
theorem Protocol.Carries.requests {protocol : Protocol} {call : Call} (h : protocol.Carries call) :
    Requests call (protocol.calling call).requestBytes protocol := by
  cases protocol with
  | simple =>
      obtain ⟨noSlash, path, payload⟩ := h
      exact .simple noSlash path (payload.trans (by decide)) rfl
  | http =>
      obtain ⟨⟨noSlash, noSpace, noCr⟩, ⟨noSpace', noCr'⟩, line, small⟩ := h
      have drains : Drains HTTPContext.request {} (call.http.requestPieces.flatten ++
          call.http.payload) (some .headed) _ call.http.payload :=
        HTTPContext.request_drains noSlash noSpace noCr noSpace' noCr' line small
      refine .http ⟨.post, by decide, ?_⟩ (requestBytes_length .http call) drains rfl rfl small
        (fun kept => ?_) rfl rfl
      · have post : ascii "POST /" = HTTPMethod.post.name ++ [32, 47] := by decide
        rw [calling_http, AnyContext.requestBytes, HTTPContext.requestPieces, List.cons_append,
          List.flatten_cons, List.append_assoc, post, List.append_assoc]
        exact List.prefix_append _ _
      · have same : HTTPContext.keptConnType call.connType = .single := if_neg kept
        exact fun short => absurd (same.symm.trans short) (by decide)

/-- The context is complete: what a handler finds in it is the call. -/
structure Asks (protocol : Protocol) (call : Call) (ctx : AnyContext) (buf : Buffer) : Prop where
  storage : 0 < buf.data.length
  protocol : ctx.protocol = protocol
  kept : call.connType ≠ .short → ctx.base.connType ≠ .short
  service : ctx.base.service = call.service
  method : ctx.base.method = call.method
  payload : ctx.base.payloadView.str buf = .ok call.payload

/-- `parse_response` in the context of a call. -/
def Session.parseResponse (s : Session) : Except Fault (ParseProtocolStatus × Session) :=
  match s.ctx with
  | none => .error .nullPointer
  | some ctx => ctx.parseResponse s.buf

namespace Hears
variable {call : Call} {w v c : Bytes} {protocol : Protocol} {s : Session} {answer : AnyContext}
  {status : RpcStatus}

theorem start {buf : Buffer} (wf : buf.Wf) (storage : 0 < buf.data.length) (windex : buf.windex = 0) :
    Hears call [] protocol ⟨some (protocol.calling call), buf⟩ := by
  have empty : buf.unread = [] := by
    rw [Buffer.unread, windex, List.take_zero, List.drop_nil]
  cases protocol with
  | simple =>
      refine .simple ⟨_, _, .refl, ⟨wf, empty, rfl, rfl, rfl, rfl, rfl, ?_⟩, storage, windex⟩
      intro payload unset
      cases unset
  | http => exact .http ⟨_, _, .refl, ⟨wf, empty, rfl⟩, storage, windex⟩

theorem recv (h : Hears call w protocol s) (c : Bytes) : Hears call (w ++ c) protocol (s.recv c) := by
  cases h with
  | simple on => exact .simple (on.recv c)
  | http on => exact .http (on.recv c)

theorem buffer (h : Hears call w protocol s) : s.buf.Wf ∧ s.buf.windex = w.length := by
  cases h with
  | simple on =>
      obtain ⟨_, _, _, here, _, windex⟩ := on
      exact ⟨here.wf, windex⟩
  | http on =>
      obtain ⟨_, _, _, here, _, windex⟩ := on
      exact ⟨here.wf, windex⟩

theorem waits (h : Hears call w protocol s) (same : answer.protocol = protocol)
    (set : answer.base.rpcStatus = some status) (small : answer.base.payload.length < 2 ^ 31)
    (whole : w ++ v = answer.responseBytes) (more : v ≠ [])
    (uncut : ¬ protocol.CutsResponse answer.base.payload.length w.length) :
    ∃ s', s.parseResponse = .ok (.noEnoughData, s') ∧ Hears call w protocol s' := by
  cases h with
  | @simple ctx buf on =>
      cases answer with
      | http answer => cases same
      | simple answer =>
          have drains := SimpleContext.response_drains (s := call.frame) rfl set
            (small.trans (by decide)) []
          rw [List.append_nil] at drains
          have len : (w ++ v).length = 12 + 4 + answer.payload.length := by
            rw [whole]
            simp [AnyContext.responseBytes, SimpleContext.responsePieces]
            omega
          change w ++ v = answer.responsePieces.flatten ++ answer.payload at whole
          rw [← whole] at drains
          obtain ⟨q, out, on⟩ := on.waits SimpleParser.response_implements drains more
            (SimpleParser.response_uncut drains rfl len uncut)
          have call : SimpleContext.parseResponse ctx buf = .ok (.noEnoughData, q) := out
          refine ⟨_, ?_, .simple on.forget⟩
          simp only [Session.parseResponse, AnyContext.parseResponse, call]
          rfl
  | @http ctx buf on =>
      cases answer with
      | simple answer => cases same
      | http answer =>
          have drains := HTTPContext.response_drains (s := call.http) rfl rfl small
          change w ++ v = answer.responsePieces.flatten ++ answer.payload at whole
          rw [← whole] at drains
          obtain ⟨q, out, on⟩ := on.waits HTTPParser.response_implements drains rfl rfl small more
          have call : HTTPParser.parseResponse ⟨ctx, buf⟩ = .ok (.noEnoughData, q) := out
          refine ⟨_, ?_, .http on⟩
          simp only [Session.parseResponse, AnyContext.parseResponse, call]
          rfl

theorem takes (h : Hears call w protocol s) (same : answer.protocol = protocol)
    (set : answer.base.rpcStatus = some status) (small : answer.base.payload.length < 2 ^ 31)
    (whole : w = answer.responseBytes) : ∃ s' ctx, s.parseResponse = .ok (.success, s') ∧
      s'.ctx = some ctx ∧ 0 < s'.buf.data.length ∧
      ctx.base.payloadView.str s'.buf = .ok answer.base.payload := by
  subst whole
  cases h with
  | @simple ctx buf on =>
      cases answer with
      | http answer => cases same
      | simple answer =>
          have drains := SimpleContext.response_drains (s := call.frame) rfl set
            (small.trans (by decide)) []
          rw [List.append_nil] at drains
          obtain ⟨q, out, storage, _, _, _, str⟩ := on.takes SimpleParser.response_implements drains rfl
          have call : SimpleContext.parseResponse ctx buf = .ok (.success, q) := out
          refine ⟨⟨some (.simple q.ctx), q.buf⟩, .simple q.ctx, ?_, rfl, storage, str⟩
          simp only [Session.parseResponse, AnyContext.parseResponse, call]
          rfl
  | @http ctx buf on =>
      cases answer with
      | simple answer => cases same
      | http answer =>
          have drains := HTTPContext.response_drains (s := call.http) rfl rfl small
          obtain ⟨q, out, storage, shown⟩ := on.takes HTTPParser.response_implements drains rfl rfl small
          have call : HTTPParser.parseResponse ⟨ctx, buf⟩ = .ok (.success, q) := out
          refine ⟨⟨some (.http q.ctx), q.buf⟩, .http q.ctx, ?_, rfl, storage,
            congrArg HTTPMessage.payload shown⟩
          simp only [Session.parseResponse, AnyContext.parseResponse, call]
          rfl

end Hears

/-- A session without a context has received `w`. -/
structure Unopened (w : Bytes) (s : Session) : Prop where
  ctx : s.ctx = none
  wf : s.buf.Wf
  storage : 0 < s.buf.data.length
  unread : s.buf.unread = w
  windex : s.buf.windex = w.length

/-- The protocol has recognised the request of which `w` has been received. -/
inductive Opened (w : Bytes) : Protocol → Session → Prop
  | simple {ctx : SimpleContext} {buf : Buffer} :
      SimpleParser.On (Frame.request .error) {} w ⟨ctx, buf, []⟩ →
      Opened w .simple ⟨some (.simple ctx), buf⟩
  | http {ctx : HTTPContext} {buf : Buffer} :
      HTTPParser.On HTTPContext.request {} w ⟨ctx, buf⟩ → Opened w .http ⟨some (.http ctx), buf⟩

section
variable {call : Call} {m w v c : Bytes} {protocol q : Protocol} {s : Session}

theorem Unopened.recv (h : Unopened w s) (c : Bytes) : Unopened (w ++ c) (s.recv c) := by
  have got := h.wf.recv h.storage c
  refine ⟨h.ctx, got.wf, h.storage.trans_le got.storage, ?_, ?_⟩
  · rw [← h.unread]
    exact got.unread
  · change (s.buf.recv c).windex = _
    rw [Buffer.recv_windex, h.windex, List.length_append]

theorem Opened.recv (h : Opened w protocol s) (c : Bytes) : Opened (w ++ c) protocol (s.recv c) := by
  cases h with
  | simple on => exact .simple (on.recv c)
  | http on => exact .http (on.recv c)

theorem Unopened.unconsumed (h : Unopened w s) : PbServer.Unconsumed s.buf := ⟨h.wf, h.storage⟩

/-- No request is over before its seventh byte. -/
theorem Requests.unfinished (h : Requests call m protocol) (whole : w ++ v = m) (few : w.length < 7) :
    v ≠ [] := by
  rintro rfl
  rw [List.append_nil] at whole
  subst whole
  cases h with
  | simple _ _ _ bytes =>
      have long := Protocol.simple.requestBytes_length call
      rw [← bytes] at long
      omega
  | http _ long _ _ _ _ _ _ _ => omega

/-- Four bytes of a binary request are its magic number. -/
theorem Requests.magic (h : Requests call m .simple) (whole : w ++ v = m) (enough : 4 ≤ w.length) :
    Magic w := by
  cases h with
  | simple _ _ _ bytes =>
      have mark : [0x19, 0x95, 0x10, 0x28] <+: m := by
        have magic : int32 magicNum = [0x19, 0x95, 0x10, 0x28] := by decide
        rw [bytes, Protocol.calling_simple, AnyContext.requestBytes, SimpleContext.requestPieces, List.flatten_cons,
          List.append_assoc, magic]
        exact List.prefix_append _ _
      rw [← whole] at mark
      obtain ⟨rest, rfl⟩ := List.prefix_of_prefix_length_le mark (List.prefix_append w v) enough
      exact (by decide : Magic [0x19, 0x95, 0x10, 0x28])

/-- A name that is tried is in front of an HTTP request. -/
theorem Requests.named (h : Requests call m .http) (whole : w ++ v = m) (enough : 7 ≤ w.length) :
    ∃ name ∈ HTTPMethod.tried, name.name <+: w := by
  cases h with
  | http named _ _ _ _ _ _ _ _ =>
      obtain ⟨name, tried, pre⟩ := named
      have longest : ∀ name ∈ HTTPMethod.tried, name.name.length ≤ 7 := by decide
      rw [← whole] at pre
      exact ⟨name, tried, List.prefix_of_prefix_length_le pre (List.prefix_append w v)
        ((longest name tried).trans enough)⟩

theorem Requests.not_magic (h : Requests call m .http) (whole : w ++ v = m) (enough : 4 ≤ w.length) :
    ¬ Magic w := by
  intro magic
  have still : Magic m := by
    rw [← whole]
    unfold Magic
    rwa [List.take_append_of_le_length enough]
  cases id h with
  | http _ long _ _ _ _ _ _ _ =>
      obtain ⟨name, tried, pre⟩ := h.named (List.append_nil m) long
      have none := PbServer.magic_no_method still (by omega)
      exact absurd (List.isPrefixOf_iff_prefix.mpr pre) (List.find?_eq_none.mp none name tried)

/-- A protocol that is not meant waits for enough bytes to see that, or lets go. -/
theorem Unopened.other (h : Unopened w s) (req : Requests call m protocol) (whole : w ++ v = m)
    (other : q ≠ protocol) : q.parseRequest s = .ok (.noEnoughData, s) ∧ v ≠ [] ∨
      q.parseRequest s = .ok (.tryAnotherProtocol, s) := by
  obtain ⟨ctx, b⟩ := s
  obtain rfl : ctx = none := h.ctx
  have buf := h.unconsumed
  have unread : b.unread = w := h.unread
  cases q with
  | simple =>
      cases protocol with
      | simple => exact absurd rfl other
      | http =>
          by_cases few : w.length < 4
          · exact .inl ⟨PbServer.simple_early buf (by rw [unread]; exact few), req.unfinished whole (by omega)⟩
          · right
            apply PbServer.simple_other buf
            · rw [unread]
              omega
            · rw [unread]
              exact req.not_magic whole (by omega)
  | http =>
      cases protocol with
      | http => exact absurd rfl other
      | simple =>
          by_cases few : w.length < 7
          · exact .inl ⟨PbServer.http_early buf (by rw [unread]; exact few), req.unfinished whole few⟩
          · right
            have magic := req.magic whole (by omega)
            rw [PbServer.http_late buf (by rw [unread]; omega), unread,
              PbServer.magic_no_method magic (by omega)]

/-- The protocol that is meant waits, or opens a context. -/
theorem Unopened.meant (h : Unopened w s) (req : Requests call m protocol) (whole : w ++ v = m) :
    protocol.parseRequest s = .ok (.noEnoughData, s) ∧ v ≠ [] ∨
      ∃ ctx, Opened w protocol ⟨some ctx, s.buf⟩ ∧
        protocol.parseRequest s = protocol.parseRequest ⟨some ctx, s.buf⟩ := by
  obtain ⟨ctx, b⟩ := s
  obtain rfl : ctx = none := h.ctx
  have buf := h.unconsumed
  have unread : b.unread = w := h.unread
  cases protocol with
  | simple =>
      by_cases few : w.length < 4
      · exact .inl ⟨PbServer.simple_early buf (by rw [unread]; exact few), req.unfinished whole (by omega)⟩
      · refine .inr ⟨.simple {}, .simple ⟨{}, w, .refl, ?_, h.storage, h.windex⟩, ?_⟩
        · refine ⟨h.wf, unread, rfl, rfl, rfl, rfl, rfl, ?_⟩
          intro payload unset
          cases unset
        · rw [PbServer.simple_marked buf (by rw [unread]; omega)]
          · rfl
          · rw [unread]
            exact req.magic whole (by omega)
  | http =>
      by_cases few : w.length < 7
      · exact .inl ⟨PbServer.http_early buf (by rw [unread]; exact few), req.unfinished whole few⟩
      · refine .inr ⟨.http {}, .http ⟨{}, w, .refl, ⟨h.wf, unread, rfl⟩, h.storage, h.windex⟩, ?_⟩
        rcases HTTPProtocol.fresh_cases (s := ⟨none, b⟩) rfl h.wf with ⟨short, _⟩ | ⟨_, ⟨none, _⟩ | ⟨_, out⟩⟩
        · change b.unread.length < 7 at short
          rw [unread] at short
          exact absurd short few
        · obtain ⟨name, tried, pre⟩ := req.named whole (by omega)
          refine absurd ?_ (none name tried)
          change name.name <+: b.unread
          rw [unread]
          exact pre
        · exact out

/-- Where the lengths of a packed request stand, and how long it is. -/
theorem SimpleContext.request_layout {ctx : SimpleContext}
    (path : ctx.service.length + 1 + ctx.method.length < 2 ^ 32) :
    Frame.word ((ctx.requestPieces.flatten ++ ctx.payload).drop 8) =
        ctx.service.length + 1 + ctx.method.length ∧
      (ctx.requestPieces.flatten ++ ctx.payload).length =
        12 + (ctx.service.length + 1 + ctx.method.length) + 4 + ctx.payload.length := by
  constructor
  · have front : (int32 magicNum ++ int32 ctx.connType.toInt).length = 8 := by simp
    have bytes : ctx.requestPieces.flatten ++ ctx.payload =
        (int32 magicNum ++ int32 ctx.connType.toInt) ++
          (int32 (ctx.service.length + 1 + ctx.method.length : Nat) ++ (ctx.service ++
            ([slash] ++ (ctx.method ++ (int32 (ctx.payload.length % 2 ^ 32) ++ ctx.payload))))) := by
      simp only [requestPieces, int32_emod, List.flatten_cons, List.flatten_nil, List.append_assoc,
        List.append_nil, Nat.cast_add, Nat.cast_one]
    rw [bytes, List.drop_left' front]
    exact word_int32_nat path
  · simp [requestPieces]
    omega

theorem Opened.waits (h : Opened w protocol s) (req : Requests call m protocol) (whole : w ++ v = m)
    (more : v ≠ []) (uncut : ¬ protocol.CutsRequest call w.length) :
    ∃ s', protocol.parseRequest s = .ok (.noEnoughData, s') ∧ Opened w protocol s' := by
  cases h with
  | @simple ctx buf on =>
      cases req with
      | simple noSlash path payload bytes =>
          have drains : Drains (Frame.request .error) {} (call.simple.requestPieces.flatten ++
              call.simple.payload ++ []) (some .success) _ [] :=
            SimpleContext.request_drains noSlash path payload []
          obtain ⟨layout, len⟩ := @SimpleContext.request_layout call.simple path
          have whole : w ++ v = call.simple.requestPieces.flatten ++ call.simple.payload := whole.trans bytes
          rw [List.append_nil, ← whole] at drains
          rw [← whole] at layout len
          obtain ⟨q, out, on⟩ := on.waits SimpleParser.request_implements drains more
            (SimpleParser.request_uncut drains rfl layout len uncut)
          exact ⟨_, SimpleProtocol.resume_ok out, .simple on.forget⟩
  | @http ctx buf on =>
      cases req with
      | http _ _ drains stage size small _ _ _ =>
          rw [← whole] at drains
          obtain ⟨q, out, on⟩ := on.waits HTTPParser.request_implements drains stage size small more
          exact ⟨_, HTTPProtocol.resume_ok out, .http on⟩

theorem Opened.takes (h : Opened w protocol s) (req : Requests call w protocol) : ∃ s' ctx,
    protocol.parseRequest s = .ok (.success, s') ∧ s'.ctx = some ctx ∧ Asks protocol call ctx s'.buf := by
  cases h with
  | @simple ctx buf on =>
      cases req with
      | simple noSlash path payload bytes =>
          have drains : Drains (Frame.request .error) {} (call.simple.requestPieces.flatten ++
              call.simple.payload ++ []) (some .success) _ [] :=
            SimpleContext.request_drains noSlash path payload []
          rw [List.append_nil] at drains
          have bytes : w = call.simple.requestPieces.flatten ++ call.simple.payload := bytes
          rw [← bytes] at drains
          obtain ⟨q, out, storage, connType, service, method, str⟩ :=
            on.takes SimpleParser.request_implements drains rfl
          exact ⟨_, .simple q.ctx, SimpleProtocol.resume_ok out, rfl, storage, rfl,
            fun kept => connType ▸ kept, service, method, str⟩
  | @http ctx buf on =>
      cases req with
      | http _ _ drains stage size small kept service method =>
          obtain ⟨q, out, storage, shown⟩ := on.takes HTTPParser.request_implements drains stage size small
          refine ⟨_, .http q.ctx, HTTPProtocol.resume_ok out, rfl, storage, rfl, fun keep short => ?_, ?_, ?_,
            congrArg HTTPMessage.payload shown⟩
          · exact kept keep ((congrArg HTTPMessage.connType shown).symm.trans short)
          · exact (congrArg HTTPMessage.service shown).trans service
          · exact (congrArg HTTPMessage.method shown).trans method

end

namespace PbServer
variable {srv : PbServer} {protocol : Protocol} {call : Call} {m w v c : Bytes} {i : Nat} {s : Session}
  {conn : TCPConnection}

/-- A server has received `w` of a request: the protocol has recognised it, or is still among
those that it will try, each of which has seen all of `w`. -/
inductive Listens (srv : PbServer) (protocol : Protocol) (w : Bytes) (i : Nat) (s : Session) : Prop
  | opened {rest : List Protocol} : srv.protocols.drop i = protocol :: rest → Opened w protocol s →
      Listens srv protocol w i s
  | undecided : protocol ∈ srv.protocols.drop i → Unopened w s → Listens srv protocol w i s

theorem Listens.recv (h : Listens srv protocol w i s) (c : Bytes) :
    Listens srv protocol (w ++ c) i (s.recv c) := by
  cases h with
  | opened there opened => exact .opened there (opened.recv c)
  | undecided there unopened => exact .undecided there (unopened.recv c)

theorem Listens.buffer (h : Listens srv protocol w i s) :
    s.buf.Wf ∧ 0 < s.buf.data.length ∧ s.buf.windex = w.length := by
  cases h with
  | undecided _ unopened => exact ⟨unopened.wf, unopened.storage, unopened.windex⟩
  | opened _ opened =>
      cases opened with
      | simple on =>
          obtain ⟨_, _, _, here, storage, windex⟩ := on
          exact ⟨here.wf, storage, windex⟩
      | http on =>
          obtain ⟨_, _, _, here, storage, windex⟩ := on
          exact ⟨here.wf, storage, windex⟩

theorem tries_waits {protocols : List Protocol} (there : protocol ∈ protocols) (h : Unopened w s)
    (req : Requests call m protocol) (whole : w ++ v = m) (more : v ≠ [])
    (uncut : ¬ protocol.CutsRequest call w.length) :
    ∃ j s', tryProtocols protocols i s = .ok (some .noEnoughData, i + j, s') ∧
      ((∃ rest, protocols.drop j = protocol :: rest ∧ Opened w protocol s') ∨
        (protocol ∈ protocols.drop j ∧ Unopened w s')) := by
  induction protocols generalizing i with
  | nil => cases there
  | cons q protocols ih =>
      by_cases same : q = protocol
      · subst same
        rcases h.meant req whole with ⟨waits, _⟩ | ⟨ctx, opened, parse⟩
        · exact ⟨0, s, tryProtocols_done waits (by simp), .inr ⟨there, h⟩⟩
        · obtain ⟨s', waits, opened⟩ := opened.waits req whole more uncut
          exact ⟨0, s', tryProtocols_done (parse.trans waits) (by simp), .inl ⟨protocols, rfl, opened⟩⟩
      · rcases h.other req whole same with ⟨waits, _⟩ | other
        · exact ⟨0, s, tryProtocols_done waits (by simp), .inr ⟨there, h⟩⟩
        · obtain ⟨j, s', tries, stays⟩ := ih (i := i + 1) ((List.mem_cons.mp there).resolve_left (Ne.symm same))
          refine ⟨j + 1, s', ?_, stays⟩
          rw [tryProtocols_next other, tries, Nat.add_assoc, Nat.add_comm 1]

theorem tries_takes {protocols : List Protocol} (there : protocol ∈ protocols) (h : Unopened w s)
    (req : Requests call w protocol) : ∃ j s' ctx rest, tryProtocols protocols i s = .ok (some .success, i + j, s') ∧
      protocols.drop j = protocol :: rest ∧ s'.ctx = some ctx ∧ Asks protocol call ctx s'.buf := by
  have all : w ++ [] = w := List.append_nil w
  induction protocols generalizing i with
  | nil => cases there
  | cons q protocols ih =>
      by_cases same : q = protocol
      · subst same
        rcases h.meant req all with ⟨_, more⟩ | ⟨_, opened, parse⟩
        · exact absurd rfl more
        · obtain ⟨s', ctx, takes, hctx, asks⟩ := opened.takes req
          exact ⟨0, s', ctx, protocols, tryProtocols_done (parse.trans takes) (by simp), rfl, hctx, asks⟩
      · rcases h.other req all same with ⟨_, more⟩ | other
        · exact absurd rfl more
        · obtain ⟨j, s', ctx, rest, tries, there, hctx, asks⟩ := ih (i := i + 1)
            ((List.mem_cons.mp there).resolve_left (Ne.symm same))
          refine ⟨j + 1, s', ctx, rest, ?_, there, hctx, asks⟩
          rw [tryProtocols_next other, tries, Nat.add_assoc, Nat.add_comm 1]

/-- Part of a request is waited on. -/
theorem Listens.waits (h : Listens srv protocol w conn.protoIdx ⟨conn.ctx, conn.rbuf⟩)
    (req : Requests call m protocol) (whole : w ++ v = m) (more : v ≠ []) (uncut : ¬ protocol.CutsRequest call w.length) :
    ∃ conn', srv.dataReadCallback conn = .ok (.wait, conn') ∧
      Listens srv protocol w conn'.protoIdx ⟨conn'.ctx, conn'.rbuf⟩ := by
  rw [dataReadCallback_eq]
  cases h with
  | opened there opened =>
      obtain ⟨s', waits, opened⟩ := opened.waits req whole more uncut
      rw [there, tryProtocols_done waits (by simp)]
      exact ⟨_, rfl, .opened there opened⟩
  | undecided there unopened =>
      obtain ⟨j, s', tries, stays⟩ := tries_waits (i := conn.protoIdx) there unopened req whole more uncut
      rw [tries]
      refine ⟨_, rfl, ?_⟩
      rcases stays with ⟨rest, there, opened⟩ | ⟨there, unopened⟩
      · exact .opened (by rw [← List.drop_drop]; exact there) opened
      · exact .undecided (by rw [← List.drop_drop]; exact there) unopened

/-- A whole request is dispatched, and the protocol is settled for the next one. -/
theorem Listens.takes (h : Listens srv protocol w conn.protoIdx ⟨conn.ctx, conn.rbuf⟩)
    (req : Requests call w protocol) :
    ∃ conn' ctx, srv.dataReadCallback conn = .ok (.request, conn') ∧ conn'.ctx = some ctx ∧
      Asks protocol call ctx conn'.rbuf ∧ protocol ∈ srv.protocols.drop conn'.protoIdx := by
  rw [dataReadCallback_eq]
  cases h with
  | opened there opened =>
      obtain ⟨s', ctx, takes, hctx, asks⟩ := opened.takes req
      rw [there, tryProtocols_done takes (by simp)]
      refine ⟨_, ctx, rfl, hctx, asks, ?_⟩
      change protocol ∈ srv.protocols.drop conn.protoIdx
      rw [there]
      exact List.mem_cons_self
  | undecided there unopened =>
      obtain ⟨j, s', ctx, rest, tries, there, hctx, asks⟩ := tries_takes (i := conn.protoIdx) there unopened req
      rw [tries]
      refine ⟨_, ctx, rfl, hctx, asks, ?_⟩
      change protocol ∈ srv.protocols.drop (conn.protoIdx + j)
      rw [← List.drop_drop, there]
      exact List.mem_cons_self

end PbServer

namespace Buffer
variable {b b' : Buffer} {m : Bytes} {r₁ r₂ : WriteResult} {t : Int} {ps : List Piece}

/-- Nothing is in the buffer, as after `clear`. -/
structure Cleared (b : Buffer) : Prop where
  rindex : b.rindex = 0
  windex : b.windex = 0
  extraIndex : b.extraIndex = 0
  storage : 0 < b.data.length

/-- This is left to be written. -/
structure Outgoing (b : Buffer) (m : Bytes) : Prop where
  wf : b.Wf
  storage : 0 < b.data.length
  index : b.extraIndex ≤ b.extraData.length
  message : b.message = m

theorem Cleared.wf (h : b.Cleared) : b.Wf := ⟨by rw [h.rindex, h.windex], by rw [h.windex]; exact Nat.zero_le _⟩

theorem Cleared.unread (h : b.Cleared) : b.unread = [] := by
  rw [Buffer.unread, h.windex, List.take_zero, List.drop_nil]

theorem cleared_clear (storage : 0 < b.data.length) : b.clear.Cleared := ⟨rfl, rfl, rfl, storage⟩

/-- All of a message is written when neither segment holds anything. -/
theorem Outgoing.done_iff (h : b.Outgoing m) : m = [] ↔ b.readable = 0 ∧ b.extraable = 0 := by
  have length : b.unsent.length = b.extraable := by
    rw [unsent, List.length_drop, extraable, sizeSub_of_le h.index]
  rw [← h.message, Buffer.message, List.append_eq_nil_iff, h.wf.readable_eq, ← length,
    List.length_eq_zero_iff, List.length_eq_zero_iff]

/-- A write that does not put payload before the rest of the head takes bytes off the front. -/
theorem Outgoing.write (h : b.Outgoing m) (write : b.writeFd r₁ r₂ = .ok (t, b', ps))
    (possible : r₁.taken ≤ b.readable ∧ r₂.taken ≤ b.extraable) (guard : HeadFirst ⟨b, []⟩ (r₁, r₂)) :
    ∃ m', m = wireBytes b ps ++ m' ∧ b'.Outgoing m' := by
  have head : headTaken b r₁ ≤ b.unread.length := by
    rw [← h.wf.readable_eq]
    unfold headTaken
    split_ifs
    · exact Nat.zero_le _
    · exact possible.1
  have unsent_length : b.unsent.length = b.extraable := by
    rw [unsent, List.length_drop, extraable, sizeSub_of_le h.index]
  have extra : extraTaken b r₁ r₂ ≤ b.unsent.length := by
    rw [unsent_length]
    unfold extraTaken
    split_ifs
    · exact Nat.zero_le _
    · exact possible.2
  have first : extraTaken b r₁ r₂ = 0 ∨ headTaken b r₁ = b.unread.length := by
    by_cases none : extraTaken b r₁ r₂ = 0
    · exact .inl none
    · rcases guard.taken none with all | more
      · exact .inr (all.trans h.wf.readable_eq)
      · have same := h.wf.readable_eq
        change b.readable < headTaken b r₁ at more
        omega
  obtain ⟨moved, same⟩ := writeFd_cases write
  have unread' : b'.unread = b.unread.drop (headTaken b r₁) := by
    rw [moved, unread, unread, List.drop_drop]
  have unsent' : b'.unsent = b.unsent.drop (extraTaken b r₁ r₂) := by
    rw [moved, unsent, unsent, List.drop_drop]
  have wire : wireBytes b ps = b.unread.take (headTaken b r₁) ++ b.unsent.take (extraTaken b r₁ r₂) := by
    have window := h.wf.window (k := 0) (n := headTaken b r₁) (by omega)
    rw [Nat.add_zero, List.drop_zero] at window
    rw [(same b).2, wireBytes_pair, window, unsent]
  have order := h.wf.order
  have length := h.wf.unread_length
  refine ⟨b'.message, ?_, ⟨?_, ?_⟩, ?_, ?_, rfl⟩
  · rw [← h.message, Buffer.message, Buffer.message, wire, unread', unsent']
    rcases first with none | all
    · rw [none, List.take_zero, List.drop_zero, List.append_nil, ← List.append_assoc, List.take_append_drop]
    · rw [all, List.take_length, List.drop_length, List.nil_append, List.append_assoc, List.take_append_drop]
  · rw [moved]
    change b.rindex + headTaken b r₁ ≤ b.windex
    omega
  · rw [moved]
    exact h.wf.bound
  · rw [moved]
    exact h.storage
  · rw [moved]
    change b.extraIndex + extraTaken b r₁ r₂ ≤ b.extraData.length
    rw [unsent, List.length_drop] at extra
    have index := h.index
    omega

/-- A head and a payload packed into an empty buffer. -/
theorem Cleared.packed {mems : List Bytes} {payload : Bytes} (h : b.Cleared)
    (out : (fun b => b.appendExtra payload) <$> b.appendAll mems = .ok b')
    (small : ∀ mem ∈ mems, mem.length < 2 ^ 31) : b'.Outgoing (mems.flatten ++ payload) := by
  obtain ⟨c, appended, made⟩ := bind_ok.mp out
  cases made
  obtain ⟨wf, unread, storage, index⟩ := h.wf.appendAll_ok appended small
  refine ⟨⟨wf.order, wf.bound⟩, h.storage.trans_le storage, ?_, ?_⟩
  · change c.extraIndex ≤ _
    rw [index, h.extraIndex]
    exact Nat.zero_le _
  · have head : (c.appendExtra payload).unread = c.unread := rfl
    rw [message, head, unread, h.unread, List.nil_append, unsent]
    change _ ++ payload.drop c.extraIndex = _
    rw [index, h.extraIndex, List.drop_zero]

end Buffer

theorem packRequest_outgoing {protocol : Protocol} {call : Call} {b b' : Buffer} (h : b.Cleared)
    (carries : protocol.Carries call) (packed : (protocol.calling call).packRequest b = .ok b') :
    b'.Outgoing (protocol.calling call).requestBytes := by
  cases protocol with
  | simple =>
      obtain ⟨_, path, _⟩ := carries
      change call.simple.packRequest b = .ok b' at packed
      have small := SimpleContext.packRequest_small path packed
      rw [SimpleContext.packRequest_eq] at packed
      exact h.packed packed (SimpleContext.requestPieces_small small)
  | http =>
      obtain ⟨_, _, line, small⟩ := carries
      change call.http.packRequest b = .ok b' at packed
      rw [HTTPContext.packRequest_eq] at packed
      refine h.packed packed ?_
      have service : call.http.service.length < 2 ^ 31 := by
        change call.service.length < _
        omega
      have method : call.http.method.length < 2 ^ 31 := by
        change call.method.length < _
        omega
      simp only [HTTPContext.requestPieces, List.forall_mem_append, List.forall_mem_cons, List.not_mem_nil,
        false_implies, implies_true, and_true]
      exact ⟨⟨by decide, service, by decide, method, by decide⟩,
        HTTPContext.headerPieces_small small⟩

theorem packResponse_outgoing {answer : AnyContext} {b b' : Buffer} (h : b.Cleared)
    (small : answer.base.payload.length < 2 ^ 31) (packed : answer.packResponse b = .ok b') :
    b'.Outgoing answer.responseBytes := by
  cases answer with
  | simple ctx =>
      change ctx.packResponse b = .ok b' at packed
      rw [SimpleContext.packResponse_eq] at packed
      refine h.packed packed ?_
      simp [SimpleContext.responsePieces]
  | http ctx =>
      change ctx.packResponse b = .ok b' at packed
      rw [HTTPContext.packResponse_eq] at packed
      refine h.packed packed ?_
      rw [HTTPContext.responsePieces, List.forall_mem_cons]
      exact ⟨by decide, HTTPContext.headerPieces_small small⟩

end SmallRpc
