import SmallRpc.Messages
import SmallRpc.Replies
import SmallRpc.RequestLine

/-! The requests that a client may send, whoever made them: the binary ones, and the HTTP ones
by the grammar of their lines. -/
namespace SmallRpc
open Resumable

/-- The bytes of a well-formed request for what the call is for. A line `Connection: Keep-Alive`
keeps the connection open. -/
inductive WellFormed (call : Call) : Protocol → Bytes → Prop
  | simple : slash ∉ call.service → call.service.length + 1 + call.method.length < 2 ^ 32 →
      call.payload.length < 2 ^ 32 → WellFormed call .simple (Protocol.simple.calling call).requestBytes
  | http {r : RequestLine} {fs : List Field} : r.Valid → r.method ∈ HTTPMethod.tried →
      HTTPContext.Line r.text → (∀ f ∈ fs, f.Valid) →
      HTTPContext.DeclaredSize fs call.payload.length → call.payload.length < 2 ^ 31 →
      (call.connType ≠ .short ↔ Field.first fs (ascii "Connection") = some (ascii "Keep-Alive")) →
      r.service = call.service → r.path = call.method →
      WellFormed call .http (r.text ++ Buffer.crlf ++ (Field.lines fs ++ (Buffer.crlf ++ call.payload)))

namespace HTTPContext
variable {s : HTTPContext} {r : RequestLine} {fs : List Field} {v : Bytes}

/-- The names in the target are all that is taken from it. -/
theorem takeTarget_rest (url : Bytes) (n : Nat) : (takeTarget s url n).headers = s.headers ∧
    (takeTarget s url n).bodySize = s.bodySize ∧ (takeTarget s url n).connType = s.connType := by
  unfold takeTarget
  split
  · exact ⟨rfl, rfl, rfl⟩
  · exact ⟨rfl, rfl, rfl⟩

/-- A request line in the grammar, and what it leaves in a new context. -/
theorem requestLine_reach (valid : r.Valid) (tried : r.method ∈ HTTPMethod.tried) (line : Line r.text)
    (v : Bytes) : ∃ t, Reaches request {} (r.text ++ Buffer.crlf ++ v) t v ∧ t.stage = 1 ∧
      t.headers = [] ∧ t.bodySize = 0 ∧ t.connType = .short ∧ t.service = r.service ∧ t.method = r.path := by
  let t : HTTPContext := takeTarget { httpMethod := some r.method } (r.target ++ 32 :: r.version) r.target.length
  have found := lineEnd_first line.noBreak line.fits v
  have front : (r.text ++ Buffer.crlf ++ v).take r.text.length = r.text := by
    rw [List.append_assoc, List.take_left]
  have step : request.stage {} (r.text ++ Buffer.crlf ++ v) =
      .advance { t with stage := 1 } (r.text.length + 2) := by
    change requestLineVerdict {} _ = _
    simp only [requestLineVerdict, onLine, found, front, takeRequestLine_text valid tried]
    rfl
  have rest : (r.text ++ Buffer.crlf ++ v).drop (r.text.length + 2) = v := List.drop_left' (by simp [Buffer.crlf])
  obtain ⟨headers, bodySize, connType⟩ :=
    @takeTarget_rest { httpMethod := some r.method } (r.target ++ 32 :: r.version) r.target.length
  obtain ⟨service, method⟩ := @takeTarget_text { httpMethod := some r.method } r valid.slash rfl rfl
  refine ⟨{ t with stage := 1 }, .advance step ?_, rfl, headers, bodySize, connType, service, method⟩
  rw [rest]
  exact .refl

/-- Header lines change neither of the names. -/
theorem recordAll_names {c d : HTTPContext} (h : c.recordAll fs = .ok d) :
    d.service = c.service ∧ d.method = c.method := by
  induction fs generalizing c with
  | nil =>
      cases h
      exact ⟨rfl, rfl⟩
  | cons f fs ih =>
      rw [recordAll_cons] at h
      obtain ⟨e, one, h⟩ := bind_ok.mp h
      have first : e.service = c.service ∧ e.method = c.method := by
        cases added_of_ok one with
        | ignored _ same =>
            rw [same]
            exact ⟨rfl, rfl⟩
        | recorded _ _ same =>
            rw [same]
            exact ⟨rfl, rfl⟩
      obtain ⟨service, method⟩ := ih h
      exact ⟨service.trans first.1, method.trans first.2⟩

end HTTPContext

theorem RequestLine.named (r : RequestLine) (v : Bytes) : r.method.name <+: r.text ++ Buffer.crlf ++ v := by
  rw [RequestLine.text, List.append_assoc, List.append_assoc]
  exact List.prefix_append _ _

theorem RequestLine.Valid.long {r : RequestLine} (h : r.Valid) (v : Bytes) :
    7 ≤ (r.text ++ Buffer.crlf ++ v).length := by
  have named : 3 ≤ r.method.name.length := by
    generalize r.method = m
    cases m <;> decide
  have target : 0 < r.target.length := by
    refine List.length_pos_iff.mpr fun none => ?_
    have slash := h.slash
    rw [none] at slash
    cases slash
  have brk : Buffer.crlf.length = 2 := rfl
  simp only [RequestLine.text, List.length_append, List.length_cons, brk]
  omega

/-- The grammar is what the parsers take. -/
theorem WellFormed.requests {call : Call} {protocol : Protocol} {m : Bytes}
    (h : WellFormed call protocol m) : Requests call m protocol := by
  cases h with
  | simple noSlash path payload => exact .simple noSlash path payload rfl
  | @http r fs valid tried line fields declares small kept service method =>
      obtain ⟨s, reach, h1, fresh, zero, short, hs, hm⟩ := HTTPContext.requestLine_reach valid tried line
        (Field.lines fs ++ (Buffer.crlf ++ call.payload))
      obtain ⟨t, all, size, headed⟩ := HTTPContext.headers_headed HTTPParser.request_implements h1 fresh zero
        fields declares call.payload
      have type : s.TypeRecorded .short := by simp [HTTPContext.TypeRecorded, fresh, short]
      have length : s.LengthRecorded := by simp [HTTPContext.LengthRecorded, fresh, zero]
      have typed := (HTTPContext.recordAll_derived all type length).1
      rw [HTTPContext.TypeRecorded, HTTPContext.recordAll_lookup all, fresh] at typed
      obtain ⟨names, names'⟩ := HTTPContext.recordAll_names all
      refine .http ⟨r.method, tried, r.named _⟩ (valid.long _) (reach.drains headed) rfl size small ?_
        (names.trans (hs.trans service)) (names'.trans (hm.trans method))
      intro keep closed
      have open_ : t.connType = .single := typed.trans (if_pos (kept.mp keep))
      exact absurd (open_.symm.trans closed) (by decide)

end SmallRpc
