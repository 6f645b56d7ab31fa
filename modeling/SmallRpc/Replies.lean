import SmallRpc.HeaderFields
import SmallRpc.PbClient
import SmallRpc.SimpleSafety

/-! `parse_response` called again and again: after every read of a socket, whatever it
has answered before. What comes of it depends on the bytes received, for either protocol. -/
namespace SmallRpc
open Resumable
open Buffer (ReadResult)

namespace Buffer
variable {b b' : Buffer} {bs : Bytes} {r : ReadResult} {n : Int}

/-- However many bytes are put behind the write index. -/
theorem Wf.put_unread (h : b.Wf) : (b.put bs).Wf ∧ (b.put bs).unread = b.unread ++ bs := by
  have order := h.order
  have front : (b.data.take b.windex).length = b.windex := by simp [h.bound]
  have whole : (b.data.take b.windex ++ bs).length = b.windex + bs.length := by
    rw [List.length_append, front]
  refine ⟨⟨order.trans (Nat.le_add_right _ _), ?_⟩, ?_⟩
  · simp only [Buffer.put, List.length_append, front]
    exact Nat.le_add_right _ _
  · simp only [unread, Buffer.put]
    rw [List.take_left' whole, List.drop_append_of_le_length (by rw [front]; exact order)]

theorem Wf.readFd (h : b.Wf) (read : b.readFd r = .ok (n, b')) :
    b'.Wf ∧ b'.unread = b.unread ++ r.bytes := by
  obtain ⟨wf, same, _⟩ := h.makeRoom
  cases r with
  | data bs =>
      cases read
      rw [← same]
      exact wf.put_unread
  | eof =>
      cases read
      exact ⟨wf, by simp [ReadResult.bytes, same]⟩
  | again =>
      cases read
      exact ⟨wf, by simp [ReadResult.bytes, same]⟩
  | failed => cases read

end Buffer

namespace Session
variable {s s' : Session} {r : ReadResult} {rs qs : List ReadResult} {status : ParseProtocolStatus}

/-- `read_fd` and the call of `parse_response` that follows it. -/
def read (s : Session) (r : ReadResult) : Except Fault (ParseProtocolStatus × Session) := do
  let (_, buf) ← s.buf.readFd r
  match s.ctx with
  | none => .error .nullPointer
  | some ctx => ctx.parseResponse buf

/-- One of the calls answers `Success`, or does not return. -/
def answered (s : Session) : List ReadResult → Bool
  | [] => false
  | r :: rs =>
    match s.read r with
    | .error _ => true
    | .ok (.success, _) => true
    | .ok (_, s) => s.answered rs

theorem answered_error {f : Fault} (h : s.read r = .error f) : s.answered (r :: rs) = true := by
  rw [answered, h]

theorem answered_success (h : s.read r = .ok (.success, s')) : s.answered (r :: rs) = true := by
  rw [answered, h]

theorem answered_other (h : s.read r = .ok (status, s')) (other : status ≠ .success) :
    s.answered (r :: rs) = s'.answered rs := by
  rw [answered, h]
  cases status <;> first | rfl | exact absurd rfl other

theorem answered_append (h : s.answered rs = true) : s.answered (rs ++ qs) = true := by
  induction rs generalizing s with
  | nil => cases h
  | cons r rs ih =>
      cases hr : s.read r with
      | error f => exact answered_error hr
      | ok result =>
          obtain ⟨status, t⟩ := result
          by_cases success : status = .success
          · subst success
            exact answered_success hr
          · rw [answered_other hr success] at h
            rw [List.cons_append, answered_other hr success]
            exact ih h

/-- A read that fails for good ends the process, if nothing has been answered before. -/
theorem answered_failed (h : .failed ∈ rs) : s.answered rs = true := by
  induction rs generalizing s with
  | nil => cases h
  | cons r rs ih =>
      cases read : s.read r with
      | error f => exact answered_error read
      | ok result =>
          obtain ⟨status, t⟩ := result
          by_cases success : status = .success
          · subst success
            exact answered_success read
          · rw [answered_other read success]
            rcases List.mem_cons.mp h with rfl | later
            · cases read
            · exact ih later

/-- The bytes that some reads bring. -/
def received (rs : List ReadResult) : Bytes := rs.flatMap ReadResult.bytes

theorem received_cons : received (r :: rs) = r.bytes ++ received rs := List.flatMap_cons

theorem received_append : received (rs ++ qs) = received rs ++ received qs := List.flatMap_append

theorem received_eof (n : Nat) : received (List.replicate n .eof) = [] := by
  simp [received, ReadResult.bytes]

end Session

namespace SimpleParser
open SmallRpc.Frame (word)

/-- What a call answers, the stage it leaves the context in, and the bytes it consumes. -/
structure Answer where
  status : ParseProtocolStatus
  stage : Nat
  taken : Nat
  deriving DecidableEq, Repr

def Answer.after (n : Nat) (a : Answer) : Answer := { a with taken := n + a.taken }

def payloadAnswer (w : Bytes) : Answer :=
  if w.length < 4 ∨ w.length < word w then ⟨.noEnoughData, 2, 0⟩ else ⟨.success, 3, 4 + word w⟩

/-- A conn_type is consumed even if the rpc_status behind it is turned down. -/
def statusAnswer (w : Bytes) : Answer :=
  if w.length < 8 then ⟨.noEnoughData, 1, 0⟩
  else if ConnType.ofInt (castInt (word w)) = none then ⟨.error, 1, 0⟩
  else if RpcStatus.ofInt (castInt (word (w.drop 4))) = none then ⟨.error, 1, 4⟩
  else (payloadAnswer (w.drop 8)).after 8

def magicAnswer (w : Bytes) : Answer :=
  if w.length < 4 then ⟨.noEnoughData, 0, 0⟩
  else if castInt (word w) ≠ magicNum then ⟨.error, 0, 0⟩
  else (statusAnswer (w.drop 4)).after 4

/-- What `parse_response` does with the unread bytes. -/
def answer (stage : Nat) (w : Bytes) : Answer :=
  match stage with
  | 0 => magicAnswer w
  | 1 => statusAnswer w
  | 2 => payloadAnswer w
  | _ => ⟨.success, stage, 0⟩

/-- A payload length, and no less than that many bytes from it on. -/
def Payload (w : Bytes) : Prop := 4 ≤ w.length ∧ word w ≤ w.length

/-- A conn_type and an rpc_status in front of a payload. An rpc_status that is turned down
is read once more, as a conn_type. -/
inductive Status : Bytes → Prop
  | answer {w : Bytes} : 8 ≤ w.length → ConnType.ofInt (castInt (word w)) ≠ none →
      RpcStatus.ofInt (castInt (word (w.drop 4))) ≠ none → Payload (w.drop 8) → Status w
  | again {w : Bytes} : 8 ≤ w.length → ConnType.ofInt (castInt (word w)) ≠ none →
      RpcStatus.ofInt (castInt (word (w.drop 4))) = none → Status (w.drop 4) → Status w

/-- The bytes of a response, with anything behind it. -/
def Reply (w : Bytes) : Prop := 4 ≤ w.length ∧ castInt (word w) = magicNum ∧ Status (w.drop 4)

/-- What has to be there from a stage on. -/
def Complete : Nat → Bytes → Prop
  | 0, w => Reply w
  | 1, w => Status w
  | 2, w => Payload w
  | _, _ => True

variable {p q : SimpleParser} {a : Answer} {w v : Bytes} {n k : Nat} {complete : Bytes → Prop}
  {out : Except Fault (ParseProtocolStatus × SimpleParser)}

def Answers (p : SimpleParser) (a : Answer) (out : Except Fault (ParseProtocolStatus × SimpleParser)) :
    Prop := ∃ q, out = .ok (a.status, q) ∧ q.ctx.stage = a.stage ∧ q.buf = p.buf.retrieve a.taken

theorem Answers.after (h : Answers q a out) (moved : q.buf = p.buf.retrieve n) :
    Answers p (a.after n) out := by
  obtain ⟨r, hr, stage, buf⟩ := h
  refine ⟨r, hr, stage, ?_⟩
  rw [buf, moved]
  simp only [Buffer.retrieve, Answer.after, Nat.add_assoc]

theorem peek_word (wf : p.buf.Wf) (enough : 4 ≤ p.buf.unread.length) :
    p.buf.peekInt32 = .ok (castInt (word p.buf.unread)) := wf.peekInt32_eq enough

theorem payload_answers (wf : p.buf.Wf) (h2 : p.ctx.stage = 2) :
    Answers p (payloadAnswer p.buf.unread) (runStages responseStage 1 p) := by
  have pass : responseStage p = p.stagePayload 3 := by simp only [responseStage, h2]
  have readable := wf.readable_eq
  unfold payloadAnswer
  by_cases few : p.buf.unread.length < 4
  · rw [if_pos (.inl few)]
    rw [stagePayload, readable, if_pos few] at pass
    exact ⟨p, runStages_ret pass, h2, rfl⟩
  · have peek : p.buf.peekUint32 = .ok (word p.buf.unread) := wf.peekUint32_eq (not_lt.mp few)
    rw [stagePayload, readable, if_neg few, peek] at pass
    simp only [bind, Except.bind, pure, Except.pure] at pass
    have seen : (p.look p.buf.rindex 4).buf.readable = p.buf.unread.length := readable
    rw [seen] at pass
    by_cases short : p.buf.unread.length < word p.buf.unread
    · rw [if_pos (.inr short)]
      rw [if_pos short] at pass
      exact ⟨_, runStages_ret pass, h2, rfl⟩
    · rw [if_neg (by simp [few, short])]
      rw [if_neg short] at pass
      refine ⟨_, (runStages_again pass).trans rfl, rfl, ?_⟩
      simp only [retrieve, look, Buffer.retrieve, Nat.add_assoc]

theorem status_answers (wf : p.buf.Wf) (h1 : p.ctx.stage = 1) :
    Answers p (statusAnswer p.buf.unread) (runStages responseStage 2 p) := by
  have pass : responseStage p = p.stageStatus := by simp only [responseStage, h1]
  unfold statusAnswer
  by_cases few : p.buf.unread.length < 8
  · rw [if_pos few]
    rw [stageStatus, wf.readable_eq, if_pos few] at pass
    exact ⟨p, runStages_ret pass, h1, rfl⟩
  · rw [if_neg few]
    rw [stageStatus, wf.readable_eq, if_neg few, peek_word wf (by omega)] at pass
    simp only [bind, Except.bind, pure, Except.pure] at pass
    cases hc : ConnType.ofInt (castInt (word p.buf.unread)) with
    | none =>
        rw [if_pos rfl]
        rw [hc] at pass
        exact ⟨_, runStages_ret pass, h1, rfl⟩
    | some connType =>
        rw [if_neg (Option.some_ne_none _)]
        rw [hc] at pass
        have wf' : (p.buf.retrieve 4).Wf := wf.retrieve (by omega)
        have peek : (p.buf.retrieve 4).peekInt32 = .ok (castInt (word (p.buf.unread.drop 4))) := by
          rw [wf'.peekInt32_eq (by rw [Buffer.unread_retrieve, List.length_drop]; omega),
            Buffer.unread_retrieve]
          rfl
        simp only [retrieve, look, peek] at pass
        cases hs : RpcStatus.ofInt (castInt (word (p.buf.unread.drop 4))) with
        | none =>
            rw [if_pos rfl]
            rw [hs] at pass
            exact ⟨_, runStages_ret pass, h1, rfl⟩
        | some rpcStatus =>
            rw [if_neg (Option.some_ne_none _)]
            rw [hs] at pass
            rw [runStages_again pass]
            have moved : (p.buf.retrieve 4).retrieve 4 = p.buf.retrieve 8 := by
              simp only [Buffer.retrieve, Nat.add_assoc]
            have done : ((p.buf.retrieve 4).retrieve 4).Wf := by
              rw [moved]
              exact wf.retrieve (by omega)
            rw [← Buffer.unread_retrieve, ← moved]
            exact Answers.after (payload_answers done rfl) moved

theorem magic_answers (wf : p.buf.Wf) (h0 : p.ctx.stage = 0) :
    Answers p (magicAnswer p.buf.unread) (runStages responseStage 3 p) := by
  have pass : responseStage p = p.stageMagic := by simp only [responseStage, h0]
  unfold magicAnswer
  by_cases few : p.buf.unread.length < 4
  · rw [if_pos few]
    rw [stageMagic, wf.readable_eq, if_pos few] at pass
    exact ⟨p, runStages_ret pass, h0, rfl⟩
  · rw [if_neg few]
    rw [stageMagic, wf.readable_eq, if_neg few, peek_word wf (by omega)] at pass
    simp only [bind, Except.bind, pure, Except.pure] at pass
    by_cases mismatch : castInt (word p.buf.unread) ≠ magicNum
    · rw [if_pos mismatch]
      rw [if_pos mismatch] at pass
      exact ⟨_, runStages_ret pass, h0, rfl⟩
    · rw [if_neg mismatch]
      rw [if_neg mismatch] at pass
      rw [runStages_again pass, ← Buffer.unread_retrieve]
      exact Answers.after (status_answers (wf.retrieve (by omega)) rfl) rfl

/-- `parse_response` answers what the unread bytes say, and never fails. -/
theorem parseResponse_answers (wf : p.buf.Wf) :
    Answers p (answer p.ctx.stage p.buf.unread) p.parseResponse := by
  unfold parseResponse
  generalize hk : p.ctx.stage = k
  rcases k with _ | _ | _ | k
  · exact magic_answers wf hk
  · exact status_answers wf hk
  · exact payload_answers wf hk
  · rw [show 3 - (k + 3) = 0 by omega]
    exact ⟨p, rfl, hk, rfl⟩

/-- What a call answers is kept where more bytes arrive. It succeeds on complete bytes only;
on others it takes nothing that completes them, and where they are complete it does not wait. -/
structure Reads (complete : Bytes → Prop) (reads : Bytes → Answer) : Prop where
  stable : ∀ {w} (v), (reads w).status ≠ .noEnoughData → reads (w ++ v) = reads w
  bound : ∀ {w}, (reads w).status ≠ .success → (reads w).taken ≤ w.length
  success : ∀ {w}, (reads w).status = .success → complete w
  other : ∀ {w} (v), (reads w).status ≠ .success →
    (complete (w ++ v) ↔ Complete (reads w).stage (w.drop (reads w).taken ++ v))
  ready : ∀ {w}, complete w → (reads w).status ≠ .noEnoughData ∧
    ((reads w).status ≠ .success → 0 < (reads w).taken)
  more : ∀ {w} (v), complete w → complete (w ++ v)

theorem Reads.stable_after {reads : Bytes → Answer} (h : Reads complete reads) (le : n ≤ w.length)
    (v : Bytes) (hs : ((reads (w.drop n)).after n).status ≠ .noEnoughData) :
    (reads ((w ++ v).drop n)).after n = (reads (w.drop n)).after n := by
  rw [List.drop_append_of_le_length le, h.stable v hs]

theorem Reads.bound_after {reads : Bytes → Answer} (h : Reads complete reads) (le : n ≤ w.length)
    (hs : ((reads (w.drop n)).after n).status ≠ .success) :
    ((reads (w.drop n)).after n).taken ≤ w.length := by
  have rest := h.bound hs
  rw [List.length_drop] at rest
  simp only [Answer.after]
  omega

theorem Reads.other_after {reads : Bytes → Answer} (h : Reads complete reads) (le : n ≤ w.length)
    (v : Bytes) (hs : ((reads (w.drop n)).after n).status ≠ .success) :
    complete ((w ++ v).drop n) ↔ Complete ((reads (w.drop n)).after n).stage
      (w.drop ((reads (w.drop n)).after n).taken ++ v) := by
  have rest := h.other v hs
  rw [List.drop_drop] at rest
  rw [List.drop_append_of_le_length le]
  exact rest

theorem word_append (le : 4 ≤ w.length) (v : Bytes) : word (w ++ v) = word w := Frame.word_append le v

theorem word_drop_append (le : n + 4 ≤ w.length) (v : Bytes) :
    word ((w ++ v).drop n) = word (w.drop n) := by
  rw [List.drop_append_of_le_length (by omega)]
  exact word_append (by rw [List.length_drop]; omega) v

theorem payload_reads : Reads Payload payloadAnswer where
  stable {w} v h := by
    unfold payloadAnswer at h ⊢
    split_ifs at h with few
    · exact absurd rfl h
    · have same : word (w ++ v) = word w := word_append (by omega) v
      have enough : ¬ ((w ++ v).length < 4 ∨ (w ++ v).length < word (w ++ v)) := by
        rw [same, List.length_append]
        omega
      rw [if_neg few, if_neg enough, same]
  bound {w} h := by
    unfold payloadAnswer at h ⊢
    split_ifs at h ⊢ with few
    · exact Nat.zero_le _
    · exact absurd rfl h
  success {w} h := by
    unfold payloadAnswer at h
    split_ifs at h with few
    exact ⟨by omega, by omega⟩
  other {w} v h := by
    unfold payloadAnswer at h ⊢
    split_ifs at h ⊢ with few
    · exact Iff.rfl
    · exact absurd rfl h
  ready {w} h := by
    obtain ⟨four, fits⟩ := h
    rw [payloadAnswer, if_neg (by omega)]
    simp
  more {w} v h := by
    obtain ⟨four, fits⟩ := h
    rw [Payload, word_append four, List.length_append]
    omega

/-- With both words there, they are the same in a longer stream. -/
theorem status_words (enough : 8 ≤ w.length) (v : Bytes) :
    8 ≤ (w ++ v).length ∧ word (w ++ v) = word w ∧ word ((w ++ v).drop 4) = word (w.drop 4) := by
  refine ⟨?_, word_append (by omega) v, word_drop_append (by omega) v⟩
  rw [List.length_append]
  omega

theorem Status.append (h : Status w) (v : Bytes) : Status (w ++ v) := by
  induction h with
  | @answer w enough connType rpcStatus payload =>
      obtain ⟨enough', first, second⟩ := status_words enough v
      refine .answer enough' (by rwa [first]) (by rwa [second]) ?_
      rw [List.drop_append_of_le_length enough]
      exact payload_reads.more v payload
  | @again w enough connType rpcStatus _ ih =>
      obtain ⟨enough', first, second⟩ := status_words enough v
      refine .again enough' (by rwa [first]) (by rwa [second]) ?_
      rw [List.drop_append_of_le_length (by omega)]
      exact ih

/-- Behind a valid conn_type the rpc_status decides how it goes on. -/
theorem status_iff (enough : 8 ≤ w.length) (connType : ConnType.ofInt (castInt (word w)) ≠ none) :
    Status w ↔ if RpcStatus.ofInt (castInt (word (w.drop 4))) = none then Status (w.drop 4)
      else Payload (w.drop 8) := by
  constructor
  · intro h
    cases h with
    | answer _ _ rpcStatus payload =>
        rw [if_neg rpcStatus]
        exact payload
    | again _ _ rpcStatus rest =>
        rw [if_pos rpcStatus]
        exact rest
  · intro h
    split_ifs at h with rpcStatus
    · exact .again enough connType rpcStatus h
    · exact .answer enough connType rpcStatus h

theorem status_reads : Reads Status statusAnswer where
  stable {w} v h := by
    unfold statusAnswer at h ⊢
    split_ifs at h with few connType rpcStatus
    · exact absurd rfl h
    all_goals
      obtain ⟨enough, first, second⟩ := status_words (not_lt.mp few) v
      rw [if_neg few, if_neg (not_lt.mpr enough), first, second]
    · rw [if_pos connType, if_pos connType]
    · rw [if_neg connType, if_pos rpcStatus, if_neg connType, if_pos rpcStatus]
    · rw [if_neg connType, if_neg rpcStatus, if_neg connType, if_neg rpcStatus]
      exact payload_reads.stable_after (by omega) v h
  bound {w} h := by
    unfold statusAnswer at h ⊢
    split_ifs at h ⊢ with few connType rpcStatus
    · exact Nat.zero_le _
    · exact Nat.zero_le _
    · simp only
      omega
    · exact payload_reads.bound_after (by omega) h
  success {w} h := by
    unfold statusAnswer at h
    split_ifs at h with few connType rpcStatus
    exact .answer (not_lt.mp few) connType rpcStatus (payload_reads.success h)
  other {w} v h := by
    unfold statusAnswer at h ⊢
    split_ifs at h ⊢ with few connType rpcStatus
    · exact Iff.rfl
    · exact Iff.rfl
    · obtain ⟨enough, first, second⟩ := status_words (not_lt.mp few) v
      rw [status_iff enough (by rwa [first]), second, if_pos rpcStatus,
        List.drop_append_of_le_length (by omega)]
      exact Iff.rfl
    · obtain ⟨enough, first, second⟩ := status_words (not_lt.mp few) v
      rw [status_iff enough (by rwa [first]), second, if_neg rpcStatus]
      exact payload_reads.other_after (not_lt.mp few) v h
  ready {w} h := by
    cases h with
    | answer enough connType rpcStatus payload =>
        rw [statusAnswer, if_neg (not_lt.mpr enough), if_neg connType, if_neg rpcStatus]
        exact ⟨(payload_reads.ready payload).1, fun _ => Nat.add_pos_left (by decide) _⟩
    | again enough connType rpcStatus _ =>
        rw [statusAnswer, if_neg (not_lt.mpr enough), if_neg connType, if_pos rpcStatus]
        simp
  more v h := h.append v

theorem magic_reads : Reads Reply magicAnswer where
  stable {w} v h := by
    unfold magicAnswer at h ⊢
    split_ifs at h with few mismatch
    · exact absurd rfl h
    all_goals
      have enough : ¬ (w ++ v).length < 4 := by
        rw [List.length_append]
        omega
      rw [if_neg few, if_neg enough, word_append (not_lt.mp few)]
    · rw [if_pos mismatch, if_pos mismatch]
    · rw [if_neg mismatch, if_neg mismatch]
      exact status_reads.stable_after (by omega) v h
  bound {w} h := by
    unfold magicAnswer at h ⊢
    split_ifs at h ⊢ with few mismatch
    · exact Nat.zero_le _
    · exact Nat.zero_le _
    · exact status_reads.bound_after (by omega) h
  success {w} h := by
    unfold magicAnswer at h
    split_ifs at h with few mismatch
    exact ⟨not_lt.mp few, not_not.mp mismatch, status_reads.success h⟩
  other {w} v h := by
    unfold magicAnswer at h ⊢
    split_ifs at h ⊢ with few mismatch
    · exact Iff.rfl
    · exact Iff.rfl
    · rw [← status_reads.other_after (not_lt.mp few) v h, Reply, word_append (not_lt.mp few),
        List.length_append]
      exact ⟨fun reply => reply.2.2, fun status => ⟨by omega, not_not.mp mismatch, status⟩⟩
  ready {w} h := by
    obtain ⟨enough, magic, status⟩ := h
    rw [magicAnswer, if_neg (not_lt.mpr enough), if_neg (not_not.mpr magic)]
    exact ⟨(status_reads.ready status).1, fun _ => Nat.add_pos_left (by decide) _⟩
  more {w} v h := by
    obtain ⟨enough, magic, status⟩ := h
    rw [Reply, word_append enough, List.drop_append_of_le_length enough, List.length_append]
    exact ⟨by omega, magic, status.append v⟩

theorem answer_reads (k : Nat) : Reads (Complete k) (answer k) := by
  rcases k with _ | _ | _ | k
  · exact magic_reads
  · exact status_reads
  · exact payload_reads
  · have success : ∀ w, answer (k + 3) w = ⟨.success, k + 3, 0⟩ := fun _ => rfl
    have all : ∀ w, Complete (k + 3) w := fun _ => trivial
    constructor
    all_goals simp [success, all]

end SimpleParser

namespace Session
open SimpleParser (answer Complete answer_reads parseResponse_answers)
variable {s s' : Session} {r : ReadResult} {k : Nat} {w v : Bytes} {rs later : List ReadResult}

/-- A response of the binary protocol is being read. -/
structure SimpleAt (s : Session) (k : Nat) (w : Bytes) : Prop where
  ctx : ∃ ctx, s.ctx = some (.simple ctx) ∧ ctx.stage = k
  wf : s.buf.Wf
  unread : s.buf.unread = w

theorem SimpleAt.read (h : SimpleAt s k w) (hr : r ≠ .failed) :
    ∃ s', s.read r = .ok ((answer k (w ++ r.bytes)).status, s') ∧
      ((answer k (w ++ r.bytes)).status ≠ .success → SimpleAt s' (answer k (w ++ r.bytes)).stage
        ((w ++ r.bytes).drop (answer k (w ++ r.bytes)).taken)) := by
  obtain ⟨ctx, hctx, rfl⟩ := h.ctx
  obtain ⟨n, buf, hread⟩ : ∃ n buf, s.buf.readFd r = .ok (n, buf) := by
    cases r with
    | failed => exact absurd rfl hr
    | _ => exact ⟨_, _, rfl⟩
  obtain ⟨wf, unread⟩ := h.wf.readFd hread
  rw [h.unread] at unread
  obtain ⟨q, parse, stage, buf'⟩ := @parseResponse_answers ⟨ctx, buf, []⟩ wf
  rw [unread] at parse stage buf'
  refine ⟨⟨some (.simple q.ctx), q.buf⟩, ?_, fun other => ⟨⟨q.ctx, rfl, stage⟩, ?_, ?_⟩⟩
  · simp only [Session.read, hread, hctx, bind, Except.bind, AnyContext.parseResponse,
      SimpleContext.parseResponse, parse, pure, Except.pure]
  · have bound := (answer_reads ctx.stage).bound other
    rw [← unread] at bound
    have left := wf.retrieve bound
    rw [unread] at left
    exact buf' ▸ left
  · change q.buf.unread = _
    rw [buf', Buffer.unread_retrieve, unread]

/-- Complete bytes are answered by one of the next calls, whatever else arrives: each of them
succeeds or takes some of these bytes. -/
theorem SimpleAt.answers (h : SimpleAt s k (w ++ v)) (complete : Complete k w)
    (enough : w.length < later.length) : s.answered later = true := by
  induction later generalizing s k w v with
  | nil => exact absurd enough (Nat.not_lt_zero _)
  | cons r later ih =>
      by_cases failed : r = .failed
      · exact answered_failed (failed ▸ List.mem_cons_self)
      obtain ⟨s', read, next⟩ := h.read failed
      obtain ⟨ready, takes⟩ := (answer_reads k).ready complete
      rw [List.append_assoc, (answer_reads k).stable _ ready] at read next
      by_cases success : (answer k w).status = .success
      · rw [success] at read
        exact answered_success read
      · have bound := (answer_reads k).bound success
        have rest := ((answer_reads k).other [] success).mp (by rwa [List.append_nil])
        rw [List.append_nil] at rest
        have there := next success
        rw [List.drop_append_of_le_length bound] at there
        rw [answered_other read success]
        refine ih there rest ?_
        have some := takes success
        rw [List.length_drop]
        rw [List.length_cons] at enough
        omega

/-- The same where some of them are still to be received. -/
theorem SimpleAt.arrives (h : SimpleAt s k w) (complete : Complete k (w ++ received rs))
    (enough : (w ++ received rs).length < later.length) : s.answered (rs ++ later) = true := by
  induction rs generalizing s k w with
  | nil =>
      rw [received, List.flatMap_nil, List.append_nil] at complete enough
      refine SimpleAt.answers (v := []) ?_ complete enough
      rwa [List.append_nil]
  | cons r rs ih =>
      by_cases failed : r = .failed
      · exact answered_failed (failed ▸ List.mem_cons_self)
      obtain ⟨s', read, next⟩ := h.read failed
      rw [received_cons, ← List.append_assoc] at complete enough
      by_cases success : (answer k (w ++ r.bytes)).status = .success
      · rw [success] at read
        exact answered_success read
      · rw [List.cons_append, answered_other read success]
        refine ih (next success) (((answer_reads k).other _ success).mp complete) ?_
        rw [List.length_append] at enough ⊢
        rw [List.length_drop]
        omega

/-- Nothing else is answered. -/
theorem SimpleAt.complete (h : SimpleAt s k w) (answered : s.answered rs = true)
    (sound : .failed ∉ rs) : Complete k (w ++ received rs) := by
  induction rs generalizing s k w with
  | nil => cases answered
  | cons r rs ih =>
      obtain ⟨ok, later⟩ := not_or.mp (mt List.mem_cons.mpr sound)
      obtain ⟨s', read, next⟩ := h.read (Ne.symm ok)
      rw [received_cons, ← List.append_assoc]
      by_cases success : (answer k (w ++ r.bytes)).status = .success
      · exact (answer_reads k).more _ ((answer_reads k).success success)
      · rw [answered_other read success] at answered
        exact ((answer_reads k).other _ success).mpr (ih (next success) answered later)

end Session

namespace HTTPContext

/-- A line of a head, without the line break behind it. -/
structure Line (line : Bytes) : Prop where
  noBreak : ¬ Buffer.crlf <:+: line
  fits : line.length ≤ 65534

/-- The body size that header lines declare. -/
def DeclaredSize (fs : List Field) (size : Int) : Prop :=
  match Field.first fs contentLength with
  | none => size = 0
  | some text => stoi text = .ok size

/-- The bytes of a response that are answered: a complete one with anything behind it, or a
length that `stoi` rejects. -/
inductive Reply : Bytes → Prop
  | body {line x : Bytes} {fs : List Field} {size : Int} : Line line → (∀ f ∈ fs, f.Valid) →
      DeclaredSize fs size → size ≤ castInt x.length →
      Reply (line ++ Buffer.crlf ++ (Field.lines fs ++ (Buffer.crlf ++ x)))
  | rejected {line x text : Bytes} {fs : List Field} {fault : Fault} : Line line →
      (∀ f ∈ fs, f.Valid) → Field.first fs contentLength = some text → stoi text = .error fault →
      Reply (line ++ Buffer.crlf ++ (Field.lines fs ++ x))

variable {c d s t u : HTTPContext} {f g : Field} {fs gs : List Field} {fault : Fault} {w v x y : Bytes}
  {stage : HTTPParser → Except Fault (Flow HTTPParser)} {M : Machine UInt8 HTTPContext HeadEnd}

theorem first_append (key : Bytes) :
    Field.first (fs ++ gs) key = (Field.first fs key).or (Field.first gs key) := by
  induction fs with
  | nil => rfl
  | cons f fs ih => rw [List.cons_append, first_cons, ih, ← Option.or_assoc, ← first_cons]

/-- A rejected line has the first length. -/
theorem record_fault (h : c.record f = .error fault) : c.headers.lookup contentLength = none ∧
    ∃ text, Field.first [f] contentLength = some text ∧ stoi text = .error fault := by
  obtain ⟨key, some, rejected⟩ := addHeader_fault h
  refine ⟨?_, trim f.value, ?_, rejected⟩
  · by_contra held
    rw [record, addHeader, if_neg fun new => held (key ▸ new.2.2)] at h
    cases h
  · have length : contentLength ≠ [] := by decide
    rw [Field.first, if_pos ⟨key, by rwa [key], some⟩]

/-- The lines in front of the one that is rejected. -/
theorem recordAll_fault (h : c.recordAll fs = .error fault) : ∃ gs g hs d, fs = gs ++ g :: hs ∧
    c.recordAll gs = .ok d ∧ d.record g = .error fault := by
  induction fs generalizing c with
  | nil => cases h
  | cons f fs ih =>
      rw [recordAll_cons] at h
      cases one : c.record f with
      | error fault' =>
          rw [one] at h
          cases h
          exact ⟨[], f, fs, c, rfl, rfl, one⟩
      | ok e =>
          rw [one] at h
          obtain ⟨gs, g, hs, d, rfl, all, rejected⟩ := ih h
          refine ⟨f :: gs, g, hs, d, rfl, ?_, rejected⟩
          rw [recordAll_cons, one]
          exact all

/-- A context in which no line has been read. -/
structure Blank (c : HTTPContext) : Prop where
  stage : c.stage = 0
  headers : c.headers = []
  bodySize : c.bodySize = 0

theorem Blank.behind (h : c.Blank) : ({ c with stage := 1 } : HTTPContext).headers = [] ∧
    ({ c with stage := 1 } : HTTPContext).bodySize = 0 := ⟨h.headers, h.bodySize⟩

theorem recordAll_declares (fresh : c.headers = []) (size : c.bodySize = 0)
    (h : c.recordAll fs = .ok d) : DeclaredSize fs d.bodySize := by
  have type : c.TypeRecorded c.connType := by simp [TypeRecorded, fresh]
  have length : c.LengthRecorded := by simp [LengthRecorded, fresh, size]
  have measured := (recordAll_derived h type length).2
  rw [LengthRecorded, recordAll_lookup h, fresh] at measured
  exact measured

theorem recordAll_rejects (fresh : c.headers = []) (h : c.recordAll fs = .error fault) :
    ∃ text, Field.first fs contentLength = some text ∧ stoi text = .error fault := by
  obtain ⟨gs, g, hs, d, rfl, all, one⟩ := recordAll_fault h
  obtain ⟨absent, text, first, rejected⟩ := record_fault one
  rw [recordAll_lookup all, fresh] at absent
  have before : Field.first gs contentLength = none := absent
  exact ⟨text, by rw [first_append, before, first_cons, first]; rfl, rejected⟩

/-- The head of a response is read line by line. -/
theorem line_reach (h0 : c.stage = 0) {line : Bytes} (h : Line line) (v : Bytes) :
    Reaches response c (line ++ Buffer.crlf ++ v) { c with stage := 1 } v := by
  have found := lineEnd_first h.noBreak h.fits v
  have step : response.stage c (line ++ Buffer.crlf ++ v) =
      .advance { c with stage := 1 } (line.length + 2) := by
    change responseVerdict c _ = _
    simp only [responseVerdict, h0, responseLineVerdict, onLine, found]
  have rest : (line ++ Buffer.crlf ++ v).drop (line.length + 2) = v := List.drop_left' (by simp [Buffer.crlf])
  refine .advance step ?_
  rw [rest]
  exact .refl

theorem header_verdict (imp : HTTPParser.Implements stage M) (h1 : s.stage = 1) :
    M.stage s w = shapeVerdict s (headerShape w) := (imp.headers h1).trans headerVerdict_shape

theorem lines_reach (imp : HTTPParser.Implements stage M) (valid : ∀ f ∈ fs, f.Valid) (h1 : s.stage = 1)
    (h : s.recordAll fs = .ok t) (v : Bytes) : Reaches M s (Field.lines fs ++ v) t v := by
  induction fs generalizing s with
  | nil =>
      cases h
      exact .refl
  | cons f fs ih =>
      obtain ⟨first, later⟩ := List.forall_mem_cons.mp valid
      rw [recordAll_cons] at h
      obtain ⟨d, one, h⟩ := bind_ok.mp h
      have bytes : Field.lines (f :: fs) ++ v = f.line ++ Buffer.crlf ++ (Field.lines fs ++ v) := by
        simp [Field.lines]
      have step : M.stage s (Field.lines (f :: fs) ++ v) = .advance d (f.line.length + 2) := by
        rw [header_verdict imp h1, bytes, headerShape_line first, shapeVerdict, one]
      have rest : (Field.lines (f :: fs) ++ v).drop (f.line.length + 2) = Field.lines fs ++ v := by
        rw [bytes]
        exact List.drop_left' (by simp [Buffer.crlf])
      refine .advance step ?_
      rw [rest]
      exact ih later ((addHeader_recorded one).1.trans h1) h

theorem empty_reach (imp : HTTPParser.Implements stage M) (h1 : s.stage = 1) (x : Bytes) :
    Reaches M s (Buffer.crlf ++ x) { s with stage := 2 } x := by
  have found : lineEnd (Buffer.crlf ++ x) = some 0 :=
    @lineEnd_first [] (by decide) (Nat.zero_le _) x
  have last : headerShape (Buffer.crlf ++ x) = .last := by simp only [headerShape, found, if_true]
  have step : M.stage s (Buffer.crlf ++ x) = .advance { s with stage := 2 } 2 := by
    rw [header_verdict imp h1, last]
    rfl
  exact .advance step .refl

/-- Header lines with a length that can be read, and the empty line behind them. -/
theorem headers_headed (imp : HTTPParser.Implements stage M) (h1 : s.stage = 1) (fresh : s.headers = [])
    (zero : s.bodySize = 0) (valid : ∀ f ∈ fs, f.Valid) {size : Int} (declares : DeclaredSize fs size)
    (x : Bytes) : ∃ t, s.recordAll fs = .ok t ∧ t.bodySize = size ∧
      Drains M s (Field.lines fs ++ (Buffer.crlf ++ x)) (some .headed) { t with stage := 2 } x := by
  cases all : s.recordAll fs with
  | error fault =>
      obtain ⟨text, length, rejected⟩ := recordAll_rejects fresh all
      rw [DeclaredSize, length] at declares
      simp only at declares
      rw [rejected] at declares
      cases declares
  | ok t =>
      have same := recordAll_declares fresh zero all
      have size_eq : t.bodySize = size := by
        unfold DeclaredSize at same declares
        split at same
        · rename_i none
          rw [none] at declares
          exact same.trans declares.symm
        · rename_i text length
          rw [length] at declares
          exact Except.ok.inj (same.symm.trans declares)
      have last := HTTPParser.recordAll_stage all
      exact ⟨t, rfl, size_eq, (lines_reach imp valid h1 all _).drains
        ((empty_reach imp (last.trans h1) x).drains (.stop (imp.headed le_rfl)))⟩

/-- The machine on these bytes: it stops at a length that is rejected, or behind the head
with a body that is complete. -/
def Replied (c : HTTPContext) (w : Bytes) : Prop :=
  ∃ t x, Drains response c w (some .thrown) t x ∨
    Drains response c w (some .headed) t x ∧ t.bodySize ≤ castInt x.length

theorem replied_of_reply (blank : c.Blank) (h : Reply w) : c.Replied w := by
  obtain ⟨fresh, zero⟩ := blank.behind
  cases h with
  | @body line x fs size first valid declares fits =>
      obtain ⟨t, _, rfl, headed⟩ :=
        headers_headed HTTPParser.response_implements rfl fresh zero valid declares x
      exact ⟨{ t with stage := 2 }, x, .inr ⟨(line_reach blank.stage first _).drains headed, fits⟩⟩
  | @rejected line x text fs fault first valid length bad =>
      cases all : recordAll { c with stage := 1 } fs with
      | ok t =>
          have declares := recordAll_declares fresh zero all
          rw [DeclaredSize, length] at declares
          simp only at declares
          rw [bad] at declares
          cases declares
      | error fault' =>
          obtain ⟨gs, g, hs, d, rfl, before, one⟩ := recordAll_fault all
          obtain ⟨valids, valid, _⟩ := List.forall_mem_append.mp valid |>.imp_right List.forall_mem_cons.mp
          have bytes : Field.lines (gs ++ g :: hs) ++ x =
              Field.lines gs ++ (g.line ++ Buffer.crlf ++ (Field.lines hs ++ x)) := by
            simp [Field.lines]
          have stop : response.stage d (g.line ++ Buffer.crlf ++ (Field.lines hs ++ x)) =
              .stop .thrown := by
            rw [header_verdict HTTPParser.response_implements (HTTPParser.recordAll_stage before),
              headerShape_line valid, shapeVerdict, one]
          refine ⟨d, g.line ++ Buffer.crlf ++ (Field.lines hs ++ x), .inl ?_⟩
          rw [bytes]
          have lines := lines_reach HTTPParser.response_implements valids rfl before
          exact (line_reach blank.stage first _).drains ((lines _).drains (.stop stop))

/-- Behind the first line. -/
theorem drains_line {r : Option HeadEnd} (h0 : c.stage = 0) (h : Drains response c w r t x)
    (settled : r = some .thrown ∨ r = some .headed) : ∃ line v, Line line ∧
      w = line ++ Buffer.crlf ++ v ∧ Drains response { c with stage := 1 } v r t x := by
  cases h with
  | more _ => simp at settled
  | stop hv =>
      change responseVerdict c w = _ at hv
      simp only [responseVerdict, h0, responseLineVerdict, onLine] at hv
      split at hv
      · split_ifs at hv
        cases hv
        simp at settled
      · cases hv
  | @advance _ _ s' n _ _ _ hv rest =>
      change responseVerdict c w = _ at hv
      simp only [responseVerdict, h0, responseLineVerdict] at hv
      obtain ⟨k, found, taken⟩ := onLine_advance hv
      cases taken
      obtain ⟨split, noBreak, fits⟩ := lineEnd_split found
      refine ⟨w.take k, w.drop (k + 2), ⟨noBreak, ?_⟩, split, rest⟩
      rw [List.length_take]
      omega

theorem reply_of_replied (blank : c.Blank) (h : c.Replied w) : Reply w := by
  obtain ⟨fresh, zero⟩ := blank.behind
  obtain ⟨t, x, thrown | ⟨headed, fits⟩⟩ := h
  · obtain ⟨line, v, first, rfl, rest⟩ := drains_line blank.stage thrown (.inl rfl)
    obtain ⟨fs, valid, u, all, reading⟩ := drains_fields HTTPParser.response_implements rest rfl
    rw [if_neg (by simp)] at reading
    obtain ⟨rfl, rfl⟩ := reading
    have stop := rest.stopped
    rw [header_verdict HTTPParser.response_implements (HTTPParser.recordAll_stage all)] at stop
    cases shape : headerShape x with
    | field f =>
        obtain ⟨valid', bytes⟩ := headerShape_field shape
        rw [shape, shapeVerdict] at stop
        cases one : t.record f with
        | ok u =>
            rw [one] at stop
            cases stop
        | error fault =>
            have reject : recordAll { c with stage := 1 } (fs ++ [f]) = .error fault := by
              rw [recordAll_append, all]
              change t.recordAll [f] = _
              rw [recordAll_cons, one]
              rfl
            obtain ⟨text, length, bad⟩ := recordAll_rejects fresh reject
            have whole : Field.lines fs ++ x =
                Field.lines (fs ++ [f]) ++ x.drop (f.line.length + 2) := by
              conv_lhs => rw [bytes]
              simp [Field.lines]
            rw [whole]
            refine .rejected first (List.forall_mem_append.mpr ⟨valid, ?_⟩) length bad
            simpa using valid'
    | _ =>
        rw [shape] at stop
        cases stop
  · obtain ⟨line, v, first, rfl, rest⟩ := drains_line blank.stage headed (.inr rfl)
    obtain ⟨fs, valid, u, all, reading⟩ := drains_fields HTTPParser.response_implements rest rfl
    rw [if_pos rfl] at reading
    obtain ⟨rfl, rfl⟩ := reading
    have bytes : Field.lines fs ++ Buffer.crlf ++ x = Field.lines fs ++ (Buffer.crlf ++ x) :=
      List.append_assoc _ _ _
    rw [bytes]
    exact .body first valid (recordAll_declares fresh zero all) fits

theorem replied_iff (blank : c.Blank) : c.Replied w ↔ Reply w :=
  ⟨reply_of_replied blank, replied_of_reply blank⟩

/-- Of the context, only the stage counts where a line is turned down. -/
theorem failed_again (h : response.stage s w = .stop .failed) (same : t.stage = s.stage) :
    response.stage t w = .stop .failed := by
  change responseVerdict s w = _ at h
  change responseVerdict t w = _
  unfold responseVerdict at h ⊢
  rw [same]
  split at h
  · unfold HTTPContext.responseLineVerdict HTTPContext.onLine at h ⊢
    cases hl : lineEnd w with
    | none =>
        rw [hl] at h
        exact h
    | some n =>
        rw [hl] at h
        cases h
  · unfold HTTPContext.headerVerdict HTTPContext.onLine at h ⊢
    cases hl : lineEnd w with
    | none =>
        rw [hl] at h
        exact h
    | some n =>
        simp only [hl] at h ⊢
        split_ifs at h ⊢ with last
        cases colon : FirstMatch.firstMatch [58] (w.take n) with
        | none => simp only [HTTPContext.takeHeader, colon]
        | some tmp =>
            cases tmp with
            | zero => simp only [HTTPContext.takeHeader, colon]
            | succ tmp =>
                simp only [HTTPContext.takeHeader, colon] at h
                split at h
                · exact absurd ‹some _ = none› (Option.some_ne_none _)
                · cases h
                · cases h
  · cases h

/-- Of a response `w` has been received and not been answered: the head is not complete, or
the body is not, or a line has been turned down. -/
inductive Heard (c : HTTPContext) (w : Bytes) (t : HTTPContext) (x : Bytes) : Prop
  | head : Reaches response c w t x → response.stage t x = .more → Heard c w t x
  | body : Reaches response c w t x → t.stage = 2 → ¬ t.bodySize ≤ castInt x.length → Heard c w t x
  | failed {u : HTTPContext} {y : Bytes} : Drains response c w (some .failed) u y →
      response.stage t x = .stop .failed → Heard c w t x

theorem Heard.unanswered (h : Heard c w t x) : ¬ c.Replied w := by
  rintro ⟨u, y, replied⟩
  cases h with
  | head reach more =>
      rcases replied with thrown | ⟨headed, _⟩
      · cases (thrown.unique (reach.drains (.more more))).1
      · cases (headed.unique (reach.drains (.more more))).1
  | body reach h2 short =>
      have drains := reach.drains (.stop (HTTPParser.response_implements.headed h2.ge))
      rcases replied with thrown | ⟨headed, fits⟩
      · cases (thrown.unique drains).1
      · obtain ⟨_, rfl, rfl⟩ := headed.unique drains
        exact short fits
  | failed drains _ =>
      rcases replied with thrown | ⟨headed, _⟩
      · cases (thrown.unique drains).1
      · cases (headed.unique drains).1

end HTTPContext

namespace HTTPParser
open HTTPContext
variable {p q : HTTPParser} {c t u : HTTPContext} {w v x y : Bytes}

/-- What a call makes of the bytes that have been received by then: it does not succeed and has
not answered them, or it succeeds or throws and they are a response. -/
inductive Hears (c : HTTPContext) (w : Bytes) (out : Except Fault (ParseProtocolStatus × HTTPParser)) :
    Prop
  | other {status : ParseProtocolStatus} {q : HTTPParser} {u : HTTPContext} {y : Bytes} :
      out = .ok (status, q) → status ≠ .success → Matches q u y → Heard c w u y → Hears c w out
  | success {q : HTTPParser} : out = .ok (.success, q) → c.Replied w → Hears c w out
  | thrown {fault : Fault} : out = .error fault → c.Replied w → Hears c w out

/-- A line that was turned down will be turned down again. -/
theorem failed_call {d : HTTPContext} {z : Bytes} (here : Matches p t x)
    (drains : Drains response t x (some .failed) u y)
    (whole : Drains response c w (some .failed) d z) : Hears c w p.parseResponse := by
  have outcome := call_outcome response_implements here drains
  cases outcome with
  | @failed q hq kept moved =>
      obtain ⟨front, rfl⟩ := drains.suffix
      have left := here.retrieve (n := front.length) (by simp)
      rw [List.drop_left] at left
      rw [List.length_append, Nat.add_sub_cancel] at moved
      refine .other hq (by simp) (u := q.ctx.bare) (y := y) ⟨?_, ?_, rfl⟩ (.failed whole ?_)
      · rw [moved]
        exact left.wf
      · rw [moved]
        exact left.unread
      · exact failed_again drains.stopped kept.stage

/-- The rest of a head, or of a body. -/
theorem reading_call (low : c.stage ≤ 2) (reach : Reaches response c w t x)
    (here : Matches p t (x ++ v)) : Hears c (w ++ v) p.parseResponse := by
  obtain ⟨r, u, y, drains⟩ := Drains.total response t (x ++ v)
  have whole := (reach.append v).drains drains
  have bound : u.stage ≤ 2 :=
    whole.invariant (P := fun s => s.stage ≤ 2) low fun hv _ => (response_keeps hv).1
  have outcome := call_outcome response_implements here drains
  cases outcome with
  | waits hq there _ => exact .other hq (by simp) there (.head whole.reaches drains.at_rest)
  | failed _ _ _ => exact failed_call here drains whole
  | thrown hq => exact .thrown hq ⟨u, y, .inl whole⟩
  | @headed q hq there h2 _ =>
      have body : u.stage = 2 := le_antisymm bound h2
      rw [body_call response_implements there body] at hq
      split_ifs at hq with fits
      · exact .success hq ⟨u, y, .inr ⟨whole, fits⟩⟩
      · exact .other hq (by simp) there (.body whole.reaches body fits)

theorem Heard.call (h : Heard c w t x) (low : c.stage ≤ 2) (here : Matches p t (x ++ v)) :
    Hears c (w ++ v) p.parseResponse := by
  cases h with
  | head reach _ => exact reading_call low reach here
  | body reach _ _ => exact reading_call low reach here
  | failed drains stop =>
      have again : response.stage t (x ++ v) = .stop .failed := by
        rw [response.stable v (by simp [stop]), stop]
      exact failed_call here (.stop again) (drains.stop_append v)

end HTTPParser

namespace Session
open HTTPContext (Blank Replied Heard)
open HTTPParser (Matches)
variable {s s' : Session} {c : HTTPContext} {r : ReadResult} {rs : List ReadResult} {w : Bytes} {n : Nat}

/-- A response of the text protocol is being read; `w` of it has not been answered. -/
structure HttpAt (c : HTTPContext) (s : Session) (w : Bytes) : Prop where
  heard : ∃ ctx t x, s.ctx = some (.http ctx) ∧ Matches ⟨ctx, s.buf⟩ t x ∧ Heard c w t x

theorem HttpAt.unanswered (h : HttpAt c s w) : ¬ c.Replied w := by
  obtain ⟨_, _, _, _, _, heard⟩ := h.heard
  exact heard.unanswered

/-- One call: the response is there, or the session goes on. -/
theorem HttpAt.read (h : HttpAt c s w) (low : c.stage ≤ 2) (hr : r ≠ .failed) :
    (c.Replied (w ++ r.bytes) ∧ ∀ rs, s.answered (r :: rs) = true) ∨
      ∃ s', HttpAt c s' (w ++ r.bytes) ∧ ∀ rs, s.answered (r :: rs) = s'.answered rs := by
  obtain ⟨ctx, t, x, hctx, here, heard⟩ := h.heard
  obtain ⟨n, buf, hread⟩ : ∃ n buf, s.buf.readFd r = .ok (n, buf) := by
    cases r with
    | failed => exact absurd rfl hr
    | _ => exact ⟨_, _, rfl⟩
  obtain ⟨wf, unread⟩ := here.wf.readFd hread
  have arrived : Matches ⟨ctx, buf⟩ t (x ++ r.bytes) :=
    ⟨wf, by rw [← here.unread]; exact unread, here.bare⟩
  have read : s.read r = HTTPParser.parseResponse ⟨ctx, buf⟩ >>= fun out =>
      .ok (out.1, ⟨some (.http out.2.ctx), out.2.buf⟩) := by
    simp only [Session.read, hread, hctx, bind, Except.bind, AnyContext.parseResponse]
    rfl
  cases HTTPParser.Heard.call heard low arrived with
  | @other status q u y out ne there rest =>
      rw [out] at read
      exact .inr ⟨_, ⟨q.ctx, u, y, rfl, there, rest⟩, fun rs => answered_other read ne⟩
  | success out replied =>
      rw [out] at read
      exact .inl ⟨replied, fun rs => answered_success read⟩
  | thrown out replied =>
      rw [out] at read
      exact .inl ⟨replied, fun rs => answered_error read⟩

/-- The reads are answered exactly if one of them fails for good or completes a response. -/
theorem HttpAt.answered_iff (h : HttpAt c s w) (low : c.stage ≤ 2) : s.answered rs = true ↔
    .failed ∈ rs ∨ ∃ n, c.Replied (w ++ received (rs.take n)) := by
  induction rs generalizing s w with
  | nil =>
      refine iff_of_false (by simp [answered]) ?_
      rintro (failed | ⟨n, replied⟩)
      · cases failed
      · rw [List.take_nil, received, List.flatMap_nil, List.append_nil] at replied
        exact h.unanswered replied
  | cons r rs ih =>
      by_cases failed : r = .failed
      · have here : .failed ∈ r :: rs := failed ▸ List.mem_cons_self
        exact iff_of_true (answered_failed here) (.inl here)
      rcases h.read low failed with ⟨replied, all⟩ | ⟨s', next, same⟩
      · refine iff_of_true (all rs) (.inr ⟨1, ?_⟩)
        rw [List.take_succ_cons, List.take_zero, received_cons, received, List.flatMap_nil,
          List.append_nil]
        exact replied
      · rw [same, ih next, List.mem_cons, or_iff_right (Ne.symm failed)]
        refine or_congr_right ⟨?_, ?_⟩
        · rintro ⟨n, replied⟩
          refine ⟨n + 1, ?_⟩
          rw [List.take_succ_cons, received_cons, ← List.append_assoc]
          exact replied
        · rintro ⟨n, replied⟩
          cases n with
          | zero =>
              rw [List.take_zero, received, List.flatMap_nil, List.append_nil] at replied
              exact absurd replied h.unanswered
          | succ n =>
              rw [List.take_succ_cons, received_cons, ← List.append_assoc] at replied
              exact ⟨n, replied⟩

end Session

/-- The bytes of a response. -/
def Protocol.Reply : Protocol → Bytes → Prop
  | .simple => SimpleParser.Reply
  | .http => HTTPContext.Reply

/-- A read fails for good, or some reads bring a response. -/
def Protocol.Heard (protocol : Protocol) (reads : List ReadResult) : Prop :=
  .failed ∈ reads ∨ ∃ n, protocol.Reply (Session.received (reads.take n))

namespace Session
variable {s : Session} {protocol : Protocol} {reads later : List ReadResult} {n : Nat}

/-- A call that has received nothing yet. -/
inductive Fresh : Protocol → Session → Prop
  | simple {ctx : SimpleContext} {buf : Buffer} : ctx.stage = 0 → buf.Wf → buf.unread = [] →
      Fresh .simple ⟨some (.simple ctx), buf⟩
  | http {ctx : HTTPContext} {buf : Buffer} : ctx.bare.Blank → buf.Wf → buf.unread = [] →
      Fresh .http ⟨some (.http ctx), buf⟩

theorem take_eofs (reads : List ReadResult) (n m : Nat) :
    received ((reads ++ List.replicate n ReadResult.eof).take m) = received (reads.take m) := by
  rw [List.take_append, received_append, List.take_replicate, received_eof, List.append_nil]

/-- A response among the bytes received is answered by then, or soon after, whatever the
later reads bring. -/
theorem Fresh.answered (h : Fresh protocol s) (heard : protocol.Heard reads)
    (enough : (received reads).length < later.length) : s.answered (reads ++ later) = true := by
  rcases heard with failed | ⟨n, reply⟩
  · exact answered_failed (List.mem_append_left later failed)
  cases h with
  | simple stage wf unread =>
      have start : SimpleAt ⟨some (.simple _), _⟩ 0 [] := ⟨⟨_, rfl, stage⟩, wf, unread⟩
      refine start.arrives ?_ (by rwa [List.nil_append])
      have whole : received reads = received (reads.take n) ++ received (reads.drop n) := by
        rw [← received_append, List.take_append_drop]
      rw [List.nil_append, whole]
      exact SimpleParser.magic_reads.more _ reply
  | @http ctx buf blank wf unread =>
      have start : HttpAt ctx.bare ⟨some (.http ctx), buf⟩ [] :=
        ⟨ctx, ctx.bare, [], rfl, ⟨wf, unread, rfl⟩, .head .refl (by
          change HTTPContext.responseVerdict ctx.bare [] = _
          rw [HTTPContext.responseVerdict, blank.stage]
          rfl)⟩
      refine answered_append ((start.answered_iff (by rw [blank.stage]; decide)).mpr (.inr ⟨n, ?_⟩))
      rw [List.nil_append]
      exact (HTTPContext.replied_iff blank).mpr reply

/-- Ends of stream alone make nothing of what is not a response. -/
theorem Fresh.heard (h : Fresh protocol s)
    (answered : s.answered (reads ++ List.replicate n .eof) = true) : protocol.Heard reads := by
  by_cases failed : .failed ∈ reads
  · exact .inl failed
  have sound : ReadResult.failed ∉ reads ++ List.replicate n .eof := by
    simp [failed]
  refine .inr ?_
  cases h with
  | simple stage wf unread =>
      have start : SimpleAt ⟨some (.simple _), _⟩ 0 [] := ⟨⟨_, rfl, stage⟩, wf, unread⟩
      have complete := start.complete answered sound
      rw [List.nil_append, received_append, received_eof, List.append_nil] at complete
      refine ⟨reads.length, ?_⟩
      rw [List.take_length]
      exact complete
  | @http ctx buf blank wf unread =>
      have start : HttpAt ctx.bare ⟨some (.http ctx), buf⟩ [] :=
        ⟨ctx, ctx.bare, [], rfl, ⟨wf, unread, rfl⟩, .head .refl (by
          change HTTPContext.responseVerdict ctx.bare [] = _
          rw [HTTPContext.responseVerdict, blank.stage]
          rfl)⟩
      rcases (start.answered_iff (by rw [blank.stage]; decide)).mp answered with bad | ⟨m, replied⟩
      · exact absurd bad sound
      · rw [List.nil_append, take_eofs] at replied
        exact ⟨m, (HTTPContext.replied_iff blank).mp replied⟩

end Session
end SmallRpc
