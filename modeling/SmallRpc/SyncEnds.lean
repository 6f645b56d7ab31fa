import SmallRpc.Builds
import SmallRpc.SyncSession

/-! When a synchronous call ends. Its loops look neither at what `write_fd` and `read_fd`
return nor at an `Error` of the parser; so it ends where everything has been written and a
response has come, and otherwise only with the process. -/
namespace SmallRpc
open Loops
open Buffer (ReadResult WriteResult)

namespace Buffer

/-- What a `::write` of `n` bytes leaves of them; with none left there is no `::write`. -/
def remaining (n : Nat) (r : WriteResult) : Option Nat :=
  if n = 0 then some 0
  else match r with
    | .wrote m => some (n - m)
    | .failed => none
    | _ => some n

/-- What one `write_fd` leaves of a head and a payload of these lengths; nothing if one of its
`::write`s fails for good. -/
def owed (n : Nat × Nat) (r : WriteResult × WriteResult) : Option (Nat × Nat) := do
  let head ← remaining n.1 r.1
  if n.1 ≠ 0 ∧ r.1.isError then return (head, n.2)
  return (head, ← remaining n.2 r.2)

def owedBehind (n : Nat × Nat) (writes : List (WriteResult × WriteResult)) : Option (Nat × Nat) :=
  writes.foldlM owed n

/-- No `::write` takes more than there is left. -/
def Offered : Nat × Nat → List (WriteResult × WriteResult) → Prop
  | _, [] => True
  | n, r :: writes => (n.1 ≠ 0 → r.1.taken ≤ n.1) ∧ (n.2 ≠ 0 → r.2.taken ≤ n.2) ∧
      ∀ m ∈ owed n r, Offered m writes

instance decidableOffered : ∀ (n : Nat × Nat) (writes : List (WriteResult × WriteResult)),
    Decidable (Offered n writes)
  | _, [] => .isTrue trivial
  | n, r :: writes =>
      have := fun m => decidableOffered m writes
      inferInstanceAs (Decidable ((n.1 ≠ 0 → r.1.taken ≤ n.1) ∧ (n.2 ≠ 0 → r.2.taken ≤ n.2) ∧
        ∀ m ∈ owed n r, Offered m writes))

variable {b : Buffer} {r : WriteResult} {rs : WriteResult × WriteResult}
  {writes : List (WriteResult × WriteResult)}

theorem writeExtra_remaining (offered : b.extraable ≠ 0 → r.taken ≤ b.extraable) (total : Int)
    (sent : List Piece) : match remaining b.extraable r with
      | none => ∃ f, b.writeExtra total sent r = .error f
      | some n => ∃ t b' ps, b.writeExtra total sent r = .ok (t, b', ps) ∧
          b'.readable = b.readable ∧ b'.extraable = n := by
  unfold remaining writeExtra
  by_cases none : b.extraable = 0
  · simp only [none, if_true]
    exact ⟨_, b, _, rfl, rfl, none⟩
  · rw [if_neg none]
    simp only [none, if_false]
    cases r with
    | failed => exact ⟨_, rfl⟩
    | wrote n => exact ⟨_, _, _, rfl, rfl, sizeSub_add (offered none)⟩
    | again => exact ⟨_, b, _, rfl, rfl, rfl⟩
    | epipe => exact ⟨_, b, _, rfl, rfl, rfl⟩

/-- One call leaves of the two segments what the counts say. -/
theorem writeFd_owed (head : b.readable ≠ 0 → rs.1.taken ≤ b.readable)
    (payload : b.extraable ≠ 0 → rs.2.taken ≤ b.extraable) :
    match owed (b.readable, b.extraable) rs with
    | none => ∃ f, b.writeFd rs.1 rs.2 = .error f
    | some n => ∃ t b' ps, b.writeFd rs.1 rs.2 = .ok (t, b', ps) ∧ (b'.readable, b'.extraable) = n := by
  obtain ⟨r₁, r₂⟩ := rs
  have behind : ∀ (c : Buffer) (total : Int) (sent : List Piece), c.extraable = b.extraable →
      match (do return (c.readable, ← remaining b.extraable r₂) : Option (Nat × Nat)) with
      | none => ∃ f, c.writeExtra total sent r₂ = .error f
      | some n => ∃ t b' ps, c.writeExtra total sent r₂ = .ok (t, b', ps) ∧
          (b'.readable, b'.extraable) = n := by
    intro c total sent same
    have extra := writeExtra_remaining (same ▸ payload) total sent
    rw [same] at extra
    cases h : remaining b.extraable r₂ with
    | none =>
        rw [h] at extra
        exact extra
    | some n =>
        rw [h] at extra
        obtain ⟨t, b', ps, out, readable, extraable⟩ := extra
        exact ⟨t, b', ps, out, by rw [readable, extraable]⟩
  unfold writeFd owed
  by_cases none : b.readable = 0
  · simp only [none, remaining, if_true, ne_eq, not_true_eq_false, false_and, if_false]
    have extra := behind b 0 [] rfl
    rw [none] at extra
    exact extra
  · rw [if_neg none]
    cases r₁ with
    | failed => simp [remaining, none]
    | again => simp [remaining, none, WriteResult.isError]
    | epipe => simp [remaining, none, WriteResult.isError]
    | wrote n =>
        have moved : ({ b with rindex := b.rindex + n } : Buffer).readable = b.readable - n :=
          sizeSub_add (head none)
        have extra := behind { b with rindex := b.rindex + n } n [⟨false, b.rindex, n⟩] rfl
        rw [moved] at extra
        simpa [remaining, none, WriteResult.isError] using extra

theorem written_owed (offered : Offered (b.readable, b.extraable) writes) :
    match owedBehind (b.readable, b.extraable) writes with
    | none => ∃ f, SyncCall.written b writes = .error f
    | some n => ∃ b', SyncCall.written b writes = .ok b' ∧ (b'.readable, b'.extraable) = n := by
  induction writes generalizing b with
  | nil => exact ⟨b, rfl, rfl⟩
  | cons r writes ih =>
      obtain ⟨head, payload, rest⟩ := offered
      have one := writeFd_owed head payload
      rw [owedBehind, List.foldlM_cons]
      cases h : owed (b.readable, b.extraable) r with
      | none =>
          rw [h] at one
          obtain ⟨f, failed⟩ := one
          exact ⟨f, SyncCall.written_error failed⟩
      | some n =>
          rw [h] at one
          obtain ⟨t, b', ps, out, rfl⟩ := one
          have more := ih (rest _ h)
          rw [SyncCall.written_cons out]
          exact more

end Buffer

/-- The pieces of the head that `pack_request` makes. -/
def AnyContext.requestPieces : AnyContext → List Bytes
  | simple ctx => ctx.requestPieces
  | http ctx => ctx.requestPieces

namespace SyncSession

/-- `parse_response` has returned `Error`, and the call goes on. -/
def Rejected (w : SyncSession) (protocol : Protocol) (call : Call) (done : Bool)
    (writes : List (WriteResult × WriteResult)) (reads : List ReadResult) : Prop :=
  ∃ w', w.callMethod protocol call done writes reads = .ok (.inside w') ∧ w'.parseError = true

/-- The peer is gone: every `::write` fails with `EPIPE` and every `::read` returns 0. -/
def Gone (writes : Nat → WriteResult × WriteResult) (reads : Nat → ReadResult) : Prop :=
  (∀ i, writes i = (.epipe, .epipe)) ∧ ∀ i, reads i = .eof

/-- Whatever comes after these results of socket calls, the loops are left after finitely
many iterations: where the peer is gone, or `parse_response` has returned `Error`. -/
def Ends (w : SyncSession) (protocol : Protocol) (call : Call) (done : Bool)
    (writes : List (WriteResult × WriteResult)) (reads : List ReadResult) : Prop :=
  ∀ moreWrites moreReads, Gone moreWrites moreReads ∨ w.Rejected protocol call done writes reads →
    ∃ n, Exits (w.callMethod protocol call done (writes ++ (List.range n).map moreWrites)
      (reads ++ (List.range n).map moreReads))

/-- The length of the head, if the write buffer can hold it. -/
def headLength (w : SyncSession) (protocol : Protocol) (call : Call) : Option Nat :=
  Buffer.filled 0 w.conn.wbuf.data.length (protocol.calling call).requestPieces

/-- The request is too long to be sent or does not fit in the write buffer; or a `::write` fails
for good; or the `::write`s take all of the request, and a `::read` fails for good or the bytes
received are a response. -/
def Concludes (w : SyncSession) (protocol : Protocol) (call : Call)
    (writes : List (WriteResult × WriteResult)) (reads : List ReadResult) : Prop :=
  PbClient.maxPayload < call.payload.length ∨
    match w.headLength protocol call with
    | none => True
    | some head =>
      match Buffer.owedBehind (head, call.payload.length) writes with
      | none => True
      | some rest => rest = (0, 0) ∧ protocol.Heard reads

variable {w w' : SyncSession} {protocol : Protocol} {call : Call} {done : Bool}
  {writes : List (WriteResult × WriteResult)} {reads : List ReadResult} {b : Buffer}

theorem packRequest_head (protocol : Protocol) (call : Call) (b : Buffer) :
    match Buffer.filled 0 b.data.length (protocol.calling call).requestPieces with
    | none => ∃ f, (protocol.calling call).packRequest b.clear = .error f
    | some head => ∃ c, (protocol.calling call).packRequest b.clear = .ok c ∧
        (c.readable, c.extraable) = (head, call.payload.length) := by
  have wf : b.clear.Wf := ⟨le_rfl, Nat.zero_le _⟩
  have packs : (protocol.calling call).packRequest b.clear =
      (fun c => c.appendExtra call.payload) <$>
        b.clear.appendAll (protocol.calling call).requestPieces := by
    cases protocol with
    | simple => exact SimpleContext.packRequest_eq
    | http => exact HTTPContext.packRequest_eq
  have filled := @Buffer.Wf.appendAll_filled b.clear (protocol.calling call).requestPieces wf
  change match Buffer.filled 0 b.data.length _ with | none => _ | some n => _ at filled
  cases h : Buffer.filled 0 b.data.length (protocol.calling call).requestPieces with
  | none =>
      rw [h] at filled
      obtain ⟨f, failed⟩ := filled
      exact ⟨f, by rw [packs, failed]; rfl⟩
  | some n =>
      rw [h] at filled
      obtain ⟨c, out, wf', rindex, rfl, index⟩ := filled
      refine ⟨c.appendExtra call.payload, by rw [packs, out]; rfl, ?_⟩
      have zero : c.rindex = 0 := rindex
      have none : c.extraIndex = 0 := index
      simp [Buffer.readable, Buffer.extraable, Buffer.appendExtra, sizeSub, zero, none]

/-- The read loop is left with the first call that succeeds, or does not return. -/
theorem exits_readLoop (hs : w.session = some ⟨done, false⟩) : Exits (w.readLoop reads) ↔
    Session.answered ⟨w.conn.ctx, w.conn.rbuf⟩ reads = true := by
  induction reads generalizing w with
  | nil =>
      rw [readLoop_nil hs rfl]
      exact iff_of_false not_exits_inside (by simp [Session.answered])
  | cons r reads ih =>
      rw [readLoop_step hs rfl]
      cases read : Session.read ⟨w.conn.ctx, w.conn.rbuf⟩ r with
      | error f =>
          rw [readFd_fault read]
          exact iff_of_true exits_error (Session.answered_error read)
      | ok result =>
          obtain ⟨status, s⟩ := result
          rw [readFd_ok read]
          by_cases success : status = .success
          · subst success
            refine iff_of_true ?_ (Session.answered_success read)
            rw [if_pos rfl]
            simp only [hs]
            refine exits_bind fun w' out => ?_
            obtain ⟨ctx, hctx⟩ := Option.ne_none_iff_exists'.mp (read_ctx read)
            simp only [responseCallback, hctx] at out
            obtain ⟨str, _, out⟩ := bind_ok.mp out
            cases done with
            | true =>
                rw [if_pos rfl] at out
                rw [readLoop_null (closeCallback_ok out).2.1]
                exact exits_error
            | false =>
                rw [if_neg (by simp)] at out
                rw [readLoop_done (closeCallback_ok out).2.1 rfl]
                exact exits_left
          · rw [if_neg success, Session.answered_other read success]
            exact ih (w := { w with
              conn := { w.conn with ctx := s.ctx, rbuf := s.buf }
              parseError := w.parseError || status = .error }) hs

/-- A call is over exactly if the request is too long to be sent, cannot be packed, or is
sent and answered; or if the process is. -/
theorem exits_iff : Exits (w.callMethod protocol call done writes reads) ↔
    PbClient.maxPayload < call.payload.length ∨
      ∀ b, (protocol.calling call).packRequest w.conn.wbuf.clear = .ok b →
        ∀ b', SyncCall.written b writes = .ok b' → b'.readable = 0 ∧ b'.extraable = 0 ∧
          Session.answered ⟨some (protocol.calling call), w.conn.rbuf.clear⟩ reads = true := by
  unfold callMethod
  by_cases long : PbClient.maxPayload < call.payload.length
  · simp only [long, if_true, true_or, iff_true]
    exact exits_left
  have packs : (w.newSession protocol call done).base.packRequest =
      (protocol.calling call).packRequest w.conn.wbuf.clear >>= fun wbuf =>
        .ok { (w.newSession protocol call done).base with
          conn := { (w.newSession protocol call done).conn with wbuf } } := rfl
  simp only [long, if_false, false_or, packs]
  cases (protocol.calling call).packRequest w.conn.wbuf.clear with
  | error f =>
      simp only [reduceCtorEq, false_implies, implies_true, iff_true]
      exact exits_error
  | ok wbuf =>
      simp only [bind, Except.bind, Except.ok.injEq, forall_eq']
      cases wrote : SyncCall.written wbuf writes with
      | error f =>
          have loop := SyncCall.run_writes_error (w := { (w.newSession protocol call done).base with
            conn := { (w.newSession protocol call done).conn with wbuf } }) wrote
          simp only [loop, reduceCtorEq, false_implies, implies_true, iff_true]
          exact exits_error
      | ok b =>
          have loop := SyncCall.run_writes (w := { (w.newSession protocol call done).base with
            conn := { (w.newSession protocol call done).conn with wbuf } }) wrote
          simp only [loop, Except.ok.injEq, forall_eq']
          by_cases taken : b.readable = 0 ∧ b.extraable = 0
          · have reading := @exits_readLoop { w.newSession protocol call done with
              conn := { (w.newSession protocol call done).conn with wbuf := b } } done reads rfl
            simp only [taken, and_self, if_true, true_and]
            refine Iff.trans ?_ reading
            cases readLoop _ reads with
            | error f => exact iff_of_true exits_error exits_error
            | ok l =>
                cases l with
                | left w' => exact iff_of_true exits_left exits_left
                | inside w' => exact iff_of_false not_exits_inside not_exits_inside
          · rw [if_neg taken]
            exact iff_of_false not_exits_inside fun all => taken ⟨all.1, all.2.1⟩

theorem fresh_newSession (protocol : Protocol) (call : Call) (b : Buffer) :
    Session.Fresh protocol ⟨some (protocol.calling call), b.clear⟩ := by
  have wf : b.clear.Wf := ⟨le_rfl, Nat.zero_le _⟩
  have empty : b.clear.unread = [] := by simp [Buffer.unread, Buffer.clear]
  cases protocol with
  | simple => exact .simple rfl wf empty
  | http => exact .http ⟨rfl, rfl, rfl⟩ wf empty

/-- What the condition comes to in terms of the buffers. -/
theorem concludes_iff (offered : ∀ head, w.headLength protocol call = some head →
      Buffer.Offered (head, call.payload.length) writes) :
    w.Concludes protocol call writes reads ↔ PbClient.maxPayload < call.payload.length ∨
      ∀ b, (protocol.calling call).packRequest w.conn.wbuf.clear = .ok b →
        ∀ b', SyncCall.written b writes = .ok b' → b'.readable = 0 ∧ b'.extraable = 0 ∧
          protocol.Heard reads := by
  unfold Concludes
  refine or_congr_right ?_
  have packed := packRequest_head protocol call w.conn.wbuf
  change match w.headLength protocol call with | none => _ | some head => _ at packed
  cases h : w.headLength protocol call with
  | none =>
      rw [h] at packed
      obtain ⟨f, failed⟩ := packed
      simp [failed]
  | some head =>
      rw [h] at packed
      obtain ⟨b, out, lengths⟩ := packed
      simp only [out, Except.ok.injEq, forall_eq']
      have taken : Buffer.Offered (b.readable, b.extraable) writes := lengths ▸ offered head h
      have wrote := Buffer.written_owed taken
      rw [lengths] at wrote
      cases h' : Buffer.owedBehind (head, call.payload.length) writes with
      | none =>
          rw [h'] at wrote
          obtain ⟨f, failed⟩ := wrote
          simp [failed]
      | some rest =>
          rw [h'] at wrote
          obtain ⟨b', written, rfl⟩ := wrote
          simp [written, and_assoc]

theorem Ends.concludes (ends : w.Ends protocol call done writes reads)
    (offered : ∀ head, w.headLength protocol call = some head →
      Buffer.Offered (head, call.payload.length) writes) :
    w.Concludes protocol call writes reads := by
  obtain ⟨n, exits⟩ := ends (fun _ => (.epipe, .epipe)) (fun _ => .eof)
    (.inl ⟨fun _ => rfl, fun _ => rfl⟩)
  rw [List.map_const', List.map_const', List.length_range, exits_iff] at exits
  refine (concludes_iff offered).mpr (exits.imp id fun all b packed b' wrote => ?_)
  have whole : SyncCall.written b (writes ++ List.replicate n (.epipe, .epipe)) = .ok b' := by
    rw [SyncCall.written_append, wrote]
    exact SyncCall.written_epipe
  obtain ⟨head, payload, answered⟩ := all b packed b' whole
  exact ⟨head, payload, (fresh_newSession protocol call w.conn.rbuf).heard answered⟩

/-- The request is taken in the second iteration of the first loop; the last one writes nothing. -/
def slowWrites : List (WriteResult × WriteResult) :=
  [(.wrote 20, .again), (.again, .again), (.wrote 5, .wrote 2)]

/-- The rpc_status is turned down, and read again as a conn_type at the end of the stream. -/
def turnedDown : List ReadResult := [.data [0x19, 0x95, 0x10, 0x28, 0, 0], .again,
  .data [0, 0, 0, 0, 0, 2, 0, 0, 0, 0, 0, 0, 0, 0]]

theorem client_headLength : client.headLength .simple SyncCall.echo = some 25 := by decide +kernel

end SyncSession
end SmallRpc
