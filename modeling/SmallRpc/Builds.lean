import SmallRpc.HttpRoundTrip
import SmallRpc.SimpleRoundTrip
import SmallRpc.PbClient

/-! A response on its way from the handler to the client, with and without assertions. The
serialization is the argument of one. -/
namespace SmallRpc

namespace Buffer
variable {windex size : Nat} {mems : List Bytes}

/-- Pieces no longer than the storage all fit. -/
theorem room_of_short (short : ∀ mem ∈ mems, mem.length ≤ size) (bound : windex ≤ size) :
    Room windex size mems := by
  induction mems generalizing windex size with
  | nil => trivial
  | cons mem mems ih =>
      obtain ⟨one, more⟩ := List.forall_mem_cons.mp short
      refine ⟨by omega, ?_⟩
      split_ifs with fits
      · exact ih more fits
      · exact ih (fun mem hm => (more mem hm).trans (by omega)) (by omega)

end Buffer

/-- `SerializeToString` of a response: what it leaves in the string, or nothing if it returns
`false`, as it does beyond `INT_MAX`. -/
structure Serializer (ρ : Type) where
  serializeToString : ρ → Option Bytes
  small : ∀ response str, serializeToString response = some str → str.length < 2 ^ 31

/-- Whether `assert` is compiled in, or `NDEBUG` is defined. -/
inductive Build where
  | asserting
  | ndebug
  deriving DecidableEq, Repr

/-- A connection whose request has been parsed. Its write buffer has at least the storage
that it was made with. -/
structure Responding where
  conn : TCPConnection
  ctx : AnyContext
  held : conn.ctx = some ctx
  wf : conn.wbuf.Wf
  storage : Buffer.initialBufferSize ≤ conn.wbuf.data.length

namespace PbServer
variable {ρ : Type}

/-- `std::string resp_str; assert(response->SerializeToString(&resp_str));`. -/
def respStr (build : Build) (serializer : Serializer ρ) (response : ρ) : Except Fault Bytes :=
  match build with
  | .ndebug => .ok []
  | .asserting =>
    match serializer.serializeToString response with
    | none => .error .aborted
    | some str => .ok str

/-- `response_callback`, up to the packed response. -/
def respond (build : Build) (serializer : Serializer ρ) (response : ρ) (conn : TCPConnection) :
    Except Fault TCPConnection := do
  let str ← respStr build serializer response
  let conn ← conn.withContext (.modify fun c => { c with rpcStatus := some .ok, payload := str })
  conn.packResponse

end PbServer

/-- The protocol whose context it is. -/
def AnyContext.protocol : AnyContext → Protocol
  | .simple _ => .simple
  | .http _ => .http

/-- The context that `CallMethod` makes. -/
def Protocol.calling (protocol : Protocol) (call : Call) : AnyContext :=
  protocol.newContext.modify fun c =>
    { c with connType := call.connType, method := call.method, service := call.service,
             payload := call.payload }

/-- Whatever the call, a client that has received just these bytes reads this response. -/
def Protocol.Decodes (protocol : Protocol) (w str : Bytes) : Prop :=
  ∀ (call : Call) (rd : Buffer), rd.Wf → rd.unread = w →
    ∃ s ctx, (protocol.calling call).parseResponse rd = .ok (.success, s) ∧ s.ctx = some ctx ∧
      ctx.base.payloadView.str s.buf = .ok str

/-- What is put into the write buffer is the response, and it is put there. -/
structure Delivers {ρ : Type} (build : Build) (serializer : Serializer ρ) (r : Responding)
    (response : ρ) : Prop where
  put : serializer.serializeToString response ≠ none →
    ∃ conn, PbServer.respond build serializer response r.conn = .ok conn
  exact : ∀ conn, PbServer.respond build serializer response r.conn = .ok conn →
    ∃ str head, serializer.serializeToString response = some str ∧
      conn.wbuf.unread = r.conn.wbuf.unread ++ head ∧
      r.ctx.protocol.Decodes (head ++ conn.wbuf.extraData) str

/-- What the setters of `CallMethod` leave in a context. -/
def Call.context (call : Call) : Context :=
  { connType := call.connType, service := call.service, method := call.method,
    payload := call.payload }

theorem Protocol.calling_simple (call : Call) :
    Protocol.simple.calling call = .simple { toContext := call.context } := rfl

theorem Protocol.calling_http (call : Call) :
    Protocol.http.calling call = .http { toContext := call.context } := rfl

namespace SimpleContext
variable {ctx : SimpleContext} {wr : Buffer} {status : RpcStatus}

theorem response_decodes (set : ctx.rpcStatus = some status) (small : ctx.payload.length < 2 ^ 31) :
    Protocol.simple.Decodes (ctx.responsePieces.flatten ++ ctx.payload) ctx.payload := by
  intro call rd wf arrived
  have here : SimpleParser.Matches ⟨{ toContext := call.context }, rd, []⟩
      { connType := call.connType, service := call.service, method := call.method }
      (ctx.responsePieces.flatten ++ ctx.payload ++ []) :=
    ⟨wf, by rw [List.append_nil]; exact arrived, rfl, rfl, rfl, rfl, rfl, by simp⟩
  obtain ⟨q, out, _, _, _, _, _, str⟩ := parse_message SimpleParser.response_implements here
    (response_drains rfl set (small.trans (by decide)) []) rfl
  have call : SimpleContext.parseResponse { toContext := call.context } rd = .ok (.success, q) := out
  refine ⟨⟨some (.simple q.ctx), q.buf⟩, .simple q.ctx, ?_, rfl, str⟩
  rw [Protocol.calling_simple, AnyContext.parseResponse]
  simp only [call]
  rfl

theorem packed_response (set : ctx.rpcStatus = some status) (small : ctx.payload.length < 2 ^ 31)
    (wf : wr.Wf) (storage : Buffer.initialBufferSize ≤ wr.data.length) :
    ∃ out head, ctx.packResponse wr = .ok out ∧ out.unread = wr.unread ++ head ∧
      Protocol.simple.Decodes (head ++ out.extraData) ctx.payload := by
  have short : ∀ mem ∈ ctx.responsePieces, mem.length = 4 := by
    simp [responsePieces]
  have room := Buffer.room_of_short (fun mem hm => (short mem hm).trans_le
    (le_trans (by decide) storage)) wf.bound
  obtain ⟨b, appended, _, unread, _⟩ := wf.appendAll room fun mem hm => by
    rw [short mem hm]
    decide
  exact ⟨b.appendExtra ctx.payload, _, by rw [packResponse_eq, appended]; rfl, unread,
    response_decodes set small⟩

end SimpleContext

namespace HTTPContext
variable {ctx : HTTPContext} {wr : Buffer}

theorem response_decodes (small : ctx.payload.length < 2 ^ 31) :
    Protocol.http.Decodes (ctx.responsePieces.flatten ++ ctx.payload) ctx.payload := by
  intro call rd wf arrived
  obtain ⟨q, out, shown⟩ := parse_complete (p := ⟨{ toContext := call.context }, rd⟩)
    HTTPParser.response_implements ⟨wf, arrived, rfl⟩ (response_drains rfl rfl small) rfl small rfl
  have call : HTTPParser.parseResponse ⟨{ toContext := call.context }, rd⟩ = .ok (.success, q) := out
  refine ⟨⟨some (.http q.ctx), q.buf⟩, .http q.ctx, ?_, rfl, congrArg HTTPMessage.payload shown⟩
  rw [Protocol.calling_http, AnyContext.parseResponse]
  simp only [call]
  rfl

theorem packed_response (small : ctx.payload.length < 2 ^ 31)
    (wf : wr.Wf) (storage : Buffer.initialBufferSize ≤ wr.data.length) :
    ∃ out head, ctx.packResponse wr = .ok out ∧ out.unread = wr.unread ++ head ∧
      Protocol.http.Decodes (head ++ out.extraData) ctx.payload := by
  have short : ∀ mem ∈ ctx.responsePieces, mem.length ≤ 32 := by
    rw [responsePieces, List.forall_mem_cons]
    exact ⟨by decide, headerPieces_short small⟩
  have room := Buffer.room_of_short (fun mem hm => (short mem hm).trans
    (le_trans (by decide) storage)) wf.bound
  obtain ⟨b, appended, _, unread, _⟩ := wf.appendAll room fun mem hm =>
    (short mem hm).trans_lt (by decide)
  exact ⟨b.appendExtra ctx.payload, _, by rw [packResponse_eq, appended]; rfl, unread,
    response_decodes small⟩

end HTTPContext

theorem AnyContext.packed_response {ctx : AnyContext} {wr : Buffer} {status : RpcStatus}
    (set : ctx.base.rpcStatus = some status) (small : ctx.base.payload.length < 2 ^ 31)
    (wf : wr.Wf) (storage : Buffer.initialBufferSize ≤ wr.data.length) :
    ∃ out head, ctx.packResponse wr = .ok out ∧ out.unread = wr.unread ++ head ∧
      ctx.protocol.Decodes (head ++ out.extraData) ctx.base.payload := by
  cases ctx with
  | simple ctx => exact SimpleContext.packed_response set small wf storage
  | http ctx => exact HTTPContext.packed_response small wf storage

theorem AnyContext.modify_base (ctx : AnyContext) (f : Context → Context) :
    (ctx.modify f).base = f ctx.base ∧ (ctx.modify f).protocol = ctx.protocol := by
  cases ctx <;> exact ⟨rfl, rfl⟩

/-- Whatever string the callback has, it puts a response with it into the write buffer. -/
theorem Responding.packed (r : Responding) {str : Bytes} (small : str.length < 2 ^ 31) :
    ∃ conn head, (do
      let conn ← r.conn.withContext (.modify fun c => { c with rpcStatus := some .ok, payload := str })
      conn.packResponse) = .ok conn ∧ conn.wbuf.unread = r.conn.wbuf.unread ++ head ∧
        r.ctx.protocol.Decodes (head ++ conn.wbuf.extraData) str := by
  obtain ⟨base, protocol⟩ :=
    r.ctx.modify_base fun c => { c with rpcStatus := some .ok, payload := str }
  generalize filled : r.ctx.modify (fun c => { c with rpcStatus := some .ok, payload := str }) = ctx
    at base protocol
  have ok : ctx.base.rpcStatus = some .ok := by rw [base]
  have fits : ctx.base.payload.length < 2 ^ 31 := by rwa [base]
  obtain ⟨out, head, packed, unread, decodes⟩ := AnyContext.packed_response ok fits r.wf r.storage
  rw [base, protocol] at decodes
  refine ⟨{ r.conn with ctx := some ctx, wbuf := out }, head, ?_, unread, decodes⟩
  simp only [TCPConnection.withContext, r.held, bind, Except.bind, filled, TCPConnection.packResponse,
    packed, pure, Except.pure]

/-- A stream is read as one response only. -/
theorem Protocol.Decodes.unique {protocol : Protocol} {w str str' : Bytes}
    (h : protocol.Decodes w str) (k : protocol.Decodes w str') : str = str' := by
  have wf : (⟨0, w.length, w, 0, []⟩ : Buffer).Wf := ⟨Nat.zero_le _, le_rfl⟩
  obtain ⟨s, ctx, out, made, shown⟩ := h ⟨.short, [], [], []⟩ _ wf List.take_length
  obtain ⟨s', ctx', out', made', shown'⟩ := k ⟨.short, [], [], []⟩ _ wf List.take_length
  rw [out] at out'
  cases out'
  rw [made] at made'
  cases made'
  rw [shown] at shown'
  exact Except.ok.inj shown'

section
variable {ρ : Type} {build : Build} {serializer : Serializer ρ} {r : Responding} {response : ρ}

/-- With a string the callback delivers exactly the response it is the serialization of. -/
theorem delivers_of_respStr {str : Bytes} (held : PbServer.respStr build serializer response = .ok str)
    (small : str.length < 2 ^ 31) :
    Delivers build serializer r response ↔ serializer.serializeToString response = some str := by
  obtain ⟨conn, head, packed, unread, decodes⟩ := r.packed small
  have out : PbServer.respond build serializer response r.conn = .ok conn := by
    rw [PbServer.respond, held]
    exact packed
  constructor
  · intro delivers
    obtain ⟨str', head', sent, unread', decodes'⟩ := delivers.exact conn out
    have same : head = head' := List.append_cancel_left (unread.symm.trans unread')
    rw [← same] at decodes'
    rw [sent, decodes.unique decodes']
  · intro sent
    refine ⟨fun _ => ⟨conn, out⟩, fun conn' out' => ?_⟩
    rw [out] at out'
    cases out'
    exact ⟨str, head, sent, unread, decodes⟩

/-- The response reaches the client where assertions are compiled in, and elsewhere exactly
if there is nothing in it. -/
theorem delivers_iff (build : Build) (serializer : Serializer ρ) (r : Responding) (response : ρ) :
    Delivers build serializer r response ↔
      build = .asserting ∨ serializer.serializeToString response = some [] := by
  cases build with
  | ndebug =>
      have empty : PbServer.respStr .ndebug serializer response = .ok [] := rfl
      rw [delivers_of_respStr empty (by decide)]
      simp
  | asserting =>
      refine iff_of_true ?_ (.inl rfl)
      cases sent : serializer.serializeToString response with
      | none =>
          refine ⟨fun some => absurd sent some, fun conn out => ?_⟩
          rw [PbServer.respond, PbServer.respStr, sent] at out
          cases out
      | some str =>
          have held : PbServer.respStr .asserting serializer response = .ok str := by
            rw [PbServer.respStr, sent]
          exact (delivers_of_respStr held (serializer.small _ _ sent)).mpr sent

end

/-- A message with one field that is already the bytes it is sent as. -/
def plainSerializer : Serializer (BitVec 8) where
  serializeToString c := some [10, 1, UInt8.ofBitVec c]
  small response str h := by
    cases h
    exact (by decide : 3 < 2 ^ 31)

/-- A call has been parsed on a new connection. -/
def called : Responding where
  conn := { fd := 5, ctx := some (.simple { service := ascii "E", method := ascii "e", stage := 4 }) }
  ctx := .simple { service := ascii "E", method := ascii "e", stage := 4 }
  held := rfl
  wf := Buffer.ofSize_wf _
  storage := by simp [Buffer.ofSize]

theorem not_delivers : ¬ ∀ (ρ : Type) (build : Build) (serializer : Serializer ρ) (r : Responding)
    (response : ρ), Delivers build serializer r response := by
  intro claim
  have delivers := claim _ .ndebug plainSerializer called 7
  have empty : PbServer.respStr .ndebug plainSerializer 7 = .ok [] := rfl
  have sent := (delivers_of_respStr empty (by decide)).mp delivers
  cases sent

end SmallRpc
