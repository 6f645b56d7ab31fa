import SmallRpc.Packing
import SmallRpc.SimpleFragments

/-! Packing and parsing the binary protocol. What one side packs the other side parses,
and what a parser accepts packs to the bytes it was read from. -/
namespace SmallRpc
open Resumable
open FirstMatch (firstMatch firstMatch_append firstMatch_bound)
open SmallRpc.Frame (word)

/-- An `int32_t` or `uint32_t` in network byte order. -/
def int32 (num : Int) : Bytes := BigEndian.encode 4 (num % 2 ^ 32).toNat

variable {num : Int} {w v : Bytes} {n : Nat}

@[simp] theorem int32_length : (int32 num).length = 4 := BigEndian.encode_length 4 _

theorem int32_emod : int32 (num % 2 ^ 32) = int32 num := by
  rw [int32, Int.emod_emod_of_dvd num (dvd_refl _), int32]

theorem word_int32 : word (int32 num ++ v) = (num % 2 ^ 32).toNat := by
  rw [word, List.take_left' int32_length, int32, BigEndian.decode_encode]
  omega

theorem word_int32_nat (h : n < 2 ^ 32) : word (int32 n ++ v) = n := by
  rw [word_int32]
  omega

theorem castInt_word (low : -2 ^ 31 ≤ num) (high : num < 2 ^ 31) :
    castInt (word (int32 num ++ v)) = num := by
  rw [word_int32]
  unfold castInt
  split_ifs <;> omega

theorem word_lt (w : Bytes) : word w < 2 ^ 32 := by
  have bound := BigEndian.decode_lt (w.take 4)
  have short : (w.take 4).length ≤ 4 := List.length_take_le 4 w
  exact bound.trans_le (by simpa using Nat.pow_le_pow_right (by decide : 0 < 256) short)

/-- The first word of a stream, written again. -/
theorem int32_word (h : 4 ≤ w.length) (same : num = word w ∨ num = castInt (word w)) :
    int32 num = w.take 4 := by
  have small := word_lt w
  have digits : (num % 2 ^ 32).toNat = word w := by
    rcases same with rfl | rfl
    · omega
    · unfold castInt
      split_ifs <;> omega
  have len : (w.take 4).length = 4 := by rw [List.length_take, Nat.min_eq_left h]
  have again := BigEndian.encode_decode (w.take 4)
  rw [len] at again
  rw [int32, digits]
  exact again

theorem ConnType.ofInt_toInt (c : ConnType) : ConnType.ofInt c.toInt = some c := by
  cases c <;> rfl

theorem ConnType.toInt_of_ofInt {c : ConnType} (h : ConnType.ofInt num = some c) : c.toInt = num := by
  unfold ConnType.ofInt at h
  split at h <;> cases h <;> rfl

theorem RpcStatus.ofInt_toInt (s : RpcStatus) : RpcStatus.ofInt s.toInt = some s := by
  cases s <;> rfl

theorem ConnType.toInt_bounds (c : ConnType) : -2 ^ 31 ≤ c.toInt ∧ c.toInt < 2 ^ 31 := by
  cases c <;> decide

theorem RpcStatus.toInt_bounds (s : RpcStatus) : -2 ^ 31 ≤ s.toInt ∧ s.toInt < 2 ^ 31 := by
  cases s <;> decide

namespace SimpleContext

/-- The pieces of `pack_request`, in order. -/
def requestPieces (ctx : SimpleContext) : List Bytes :=
  [int32 magicNum, int32 ctx.connType.toInt,
    int32 ((ctx.service.length + 1 + ctx.method.length) % 2 ^ 32), ctx.service, [slash], ctx.method,
    int32 (ctx.payload.length % 2 ^ 32)]

def responsePieces (ctx : SimpleContext) : List Bytes :=
  [int32 magicNum, int32 ctx.connType.toInt, int32 (ctx.rpcStatus.elim 0 RpcStatus.toInt),
    int32 (ctx.payload.length % 2 ^ 32)]

variable {ctx : SimpleContext} {wr out : Buffer} {status : RpcStatus} {m : ParseProtocolStatus}

theorem packRequest_eq : ctx.packRequest wr =
    (fun b => b.appendExtra ctx.payload) <$> wr.appendAll ctx.requestPieces := by
  simp only [packRequest, Buffer.appendAll, requestPieces, Buffer.appendInt32, List.foldlM_cons,
    List.foldlM_nil, bind_pure, map_eq_pure_bind, bind_assoc, int32]

theorem packResponse_eq : ctx.packResponse wr =
    (fun b => b.appendExtra ctx.payload) <$> wr.appendAll ctx.responsePieces := by
  simp only [packResponse, Buffer.appendAll, responsePieces, Buffer.appendInt32, List.foldlM_cons,
    List.foldlM_nil, bind_pure, map_eq_pure_bind, bind_assoc, int32]

section Stages
open SmallRpc.Frame
variable {s : Frame}

theorem magicVerdict_int32 (mismatch : ParseProtocolStatus) (v : Bytes) :
    magicVerdict mismatch s (int32 magicNum ++ v) = .advance { s with stage := 1 } 4 := by
  have long : ¬ (int32 magicNum ++ v).length < 4 := by simp
  have magic : castInt (word (int32 magicNum ++ v)) = magicNum :=
    castInt_word (by decide) (by decide)
  rw [magicVerdict, if_neg long, if_neg (not_not_intro magic)]

theorem connTypeVerdict_int32 (c : ConnType) (v : Bytes) :
    connTypeVerdict s (int32 c.toInt ++ v) = .advance { s with connType := c, stage := 2 } 4 := by
  have long : ¬ (int32 c.toInt ++ v).length < 4 := by simp
  rw [connTypeVerdict, if_neg long, castInt_word c.toInt_bounds.1 c.toInt_bounds.2, c.ofInt_toInt]

theorem statusVerdict_int32 (c : ConnType) (r : RpcStatus) (v : Bytes) :
    statusVerdict s (int32 c.toInt ++ (int32 r.toInt ++ v)) =
      .advance { s with connType := c, rpcStatus := some r, stage := 2 } 8 := by
  have long : ¬ (int32 c.toInt ++ (int32 r.toInt ++ v)).length < 8 := by
    simp only [List.length_append, int32_length]
    omega
  rw [statusVerdict, if_neg long, castInt_word c.toInt_bounds.1 c.toInt_bounds.2, c.ofInt_toInt,
    List.drop_left' int32_length, castInt_word r.toInt_bounds.1 r.toInt_bounds.2, r.ofInt_toInt]

theorem pathVerdict_int32 {service method : Bytes} (noSlash : slash ∉ service)
    (h : service.length + 1 + method.length < 2 ^ 32) (v : Bytes) :
    pathVerdict s (int32 (service.length + 1 + method.length : Nat) ++
        (service ++ slash :: method ++ v)) =
      .advance { s with service, method, stage := 3 }
        (4 + (service.length + 1 + method.length)) := by
  have len : (service ++ slash :: method).length = service.length + 1 + method.length := by
    rw [List.length_append, List.length_cons]
    omega
  have path : ((int32 (service.length + 1 + method.length : Nat) ++
      (service ++ slash :: method ++ v)).drop 4).take (service.length + 1 + method.length) =
      service ++ slash :: method := by
    rw [List.drop_left' int32_length, List.take_left' len]
  have long : ¬ ((int32 (service.length + 1 + method.length : Nat) ++
      (service ++ slash :: method ++ v)).length < 4 ∨
      (int32 (service.length + 1 + method.length : Nat) ++
        (service ++ slash :: method ++ v)).length < 4 + (service.length + 1 + method.length)) := by
    rw [List.length_append, List.length_append, int32_length, len]
    omega
  rw [pathVerdict, word_int32_nat h, if_neg long, path,
    FirstMatch.firstMatch_singleton_append noSlash]
  simp only [List.take_left, List.drop_append, List.drop_eq_nil_of_le (Nat.le_succ _),
    Nat.add_sub_cancel_left, List.drop_succ_cons, List.drop_zero, List.nil_append]

theorem payloadVerdict_int32 {next : Nat} {payload : Bytes} (h : payload.length < 2 ^ 32)
    (v : Bytes) : payloadVerdict next s (int32 (payload.length : Nat) ++ (payload ++ v)) =
      .advance { s with payload := some payload, stage := next } (4 + payload.length) := by
  have long : ¬ ((int32 (payload.length : Nat) ++ (payload ++ v)).length < 4 ∨
      (int32 (payload.length : Nat) ++ (payload ++ v)).length < 4 + payload.length) := by
    simp only [List.length_append, int32_length]
    omega
  rw [payloadVerdict, word_int32_nat h, if_neg long, List.drop_left' int32_length, List.take_left]

end Stages

/-- The machine reads what `pack_request` writes. -/
theorem request_drains (noSlash : slash ∉ ctx.service)
    (path : ctx.service.length + 1 + ctx.method.length < 2 ^ 32)
    (payload : ctx.payload.length < 2 ^ 32) (rest : Bytes) :
    Drains (Frame.request m) {} (ctx.requestPieces.flatten ++ ctx.payload ++ rest) (some .success)
      { stage := 4, connType := ctx.connType, service := ctx.service, method := ctx.method,
        payload := some ctx.payload } rest := by
  have bytes : ctx.requestPieces.flatten ++ ctx.payload ++ rest =
      int32 magicNum ++ (int32 ctx.connType.toInt ++
        (int32 (ctx.service.length + 1 + ctx.method.length : Nat) ++
          (ctx.service ++ slash :: ctx.method ++
            (int32 (ctx.payload.length : Nat) ++ (ctx.payload ++ rest))))) := by
    simp only [requestPieces, int32_emod, List.flatten_cons, List.flatten_nil, List.append_assoc,
      List.append_nil, List.cons_append, List.nil_append, Nat.cast_add, Nat.cast_one]
  have magicRead : ∀ v, (Frame.request m).stage {} (int32 magicNum ++ v) =
      .advance { stage := 1 } 4 := fun v => magicVerdict_int32 m v
  have connTypeRead : ∀ v, (Frame.request m).stage { stage := 1 } (int32 ctx.connType.toInt ++ v) =
      .advance { connType := ctx.connType, stage := 2 } 4 := fun v => connTypeVerdict_int32 _ v
  have pathRead : ∀ v, (Frame.request m).stage { connType := ctx.connType, stage := 2 }
      (int32 (ctx.service.length + 1 + ctx.method.length : Nat) ++
        (ctx.service ++ slash :: ctx.method ++ v)) = .advance _ _ :=
    fun v => pathVerdict_int32 noSlash path v
  have payloadRead : ∀ v, (Frame.request m).stage
      { connType := ctx.connType, service := ctx.service, method := ctx.method, stage := 3 }
      (int32 (ctx.payload.length : Nat) ++ (ctx.payload ++ v)) = .advance _ _ :=
    fun v => payloadVerdict_int32 payload v
  rw [bytes]
  apply Drains.advance (magicRead _)
  rw [List.drop_left' int32_length]
  apply Drains.advance (connTypeRead _)
  rw [List.drop_left' int32_length]
  apply Drains.advance (pathRead _)
  rw [← List.append_assoc (int32 _), List.drop_left' (by simp; omega)]
  apply Drains.advance (payloadRead _)
  rw [← List.append_assoc (int32 _), List.drop_left' (by simp)]
  exact .stop rfl

theorem response_drains {s : Frame} (h0 : s.stage = 0) (set : ctx.rpcStatus = some status)
    (payload : ctx.payload.length < 2 ^ 32) (rest : Bytes) :
    Drains Frame.response s (ctx.responsePieces.flatten ++ ctx.payload ++ rest) (some .success)
      { s with stage := 3, connType := ctx.connType, rpcStatus := some status,
               payload := some ctx.payload } rest := by
  have bytes : ctx.responsePieces.flatten ++ ctx.payload ++ rest =
      int32 magicNum ++ (int32 ctx.connType.toInt ++ (int32 status.toInt ++
        (int32 (ctx.payload.length : Nat) ++ (ctx.payload ++ rest)))) := by
    simp only [responsePieces, set, Option.elim, int32_emod, List.flatten_cons, List.flatten_nil,
      List.append_assoc, List.append_nil]
  have magicRead : ∀ v, Frame.response.stage s (int32 magicNum ++ v) =
      .advance { s with stage := 1 } 4 := by
    intro v
    change Frame.responseVerdict s _ = _
    rw [Frame.responseVerdict, h0]
    exact magicVerdict_int32 .error v
  have statusRead : ∀ v, Frame.response.stage { s with stage := 1 }
      (int32 ctx.connType.toInt ++ (int32 status.toInt ++ v)) =
        .advance { s with connType := ctx.connType, rpcStatus := some status, stage := 2 } 8 :=
    fun v => statusVerdict_int32 _ _ v
  have payloadRead : ∀ v, Frame.response.stage
      { s with connType := ctx.connType, rpcStatus := some status, stage := 2 }
      (int32 (ctx.payload.length : Nat) ++ (ctx.payload ++ v)) = .advance _ _ :=
    fun v => payloadVerdict_int32 payload v
  rw [bytes]
  apply Drains.advance (magicRead _)
  rw [List.drop_left' int32_length]
  apply Drains.advance (statusRead _)
  rw [← List.append_assoc (int32 _), List.drop_left' (by simp)]
  apply Drains.advance (payloadRead _)
  rw [← List.append_assoc (int32 _), List.drop_left' (by simp)]
  exact .stop rfl

/-- Packed and parsed again: every parser whose buffer starts with the bytes of `pack_request`
takes exactly these and ends up with the fields that were packed. -/
def RequestTrip (ctx : SimpleContext) (wr : Buffer) : Prop :=
  ∃ out head, ctx.packRequest wr = .ok out ∧ out.unread = wr.unread ++ head ∧
    ∀ rd rest, Buffer.Wf rd → rd.unread = head ++ out.extraData ++ rest →
      ∃ p, parseRequest {} rd = .ok (.success, p) ∧
        p.buf = rd.retrieve (head ++ out.extraData).length ∧ p.ctx.connType = ctx.connType ∧
        p.ctx.service = ctx.service ∧ p.ctx.method = ctx.method ∧
        p.ctx.payloadView.str p.buf = .ok ctx.payload

def ResponseTrip (ctx : SimpleContext) (wr : Buffer) : Prop :=
  ∃ out head, ctx.packResponse wr = .ok out ∧ out.unread = wr.unread ++ head ∧
    ∀ rd rest, Buffer.Wf rd → rd.unread = head ++ out.extraData ++ rest →
      ∃ p, parseResponse {} rd = .ok (.success, p) ∧
        p.buf = rd.retrieve (head ++ out.extraData).length ∧ p.ctx.connType = ctx.connType ∧
        p.ctx.rpcStatus = ctx.rpcStatus ∧ p.ctx.payloadView.str p.buf = .ok ctx.payload

/-- Packing these fields writes the first bytes of `w`, all but `rest`. -/
def Repacks (ctx : SimpleContext) (wr : Buffer) (w rest : Bytes) : Prop :=
  ∃ out head, ctx.packRequest wr = .ok out ∧ out.unread = wr.unread ++ head ∧
    w = head ++ out.extraData ++ rest

/-- Every byte that the request in front of `w` declares is there. -/
def Declared (w : Bytes) : Prop :=
  12 ≤ w.length ∧ 16 + word (w.drop 8) ≤ w.length ∧
    16 + word (w.drop 8) + word (w.drop (12 + word (w.drop 8))) ≤ w.length

section Parsing
open SimpleParser
variable {M : Machine UInt8 Frame ParseProtocolStatus} {last : Nat} {t : Frame} {rd : Buffer}
  {msg rest bytes : Bytes} {stage : SimpleParser → Except Fault (Flow SimpleParser)}

/-- Where the machine succeeds on a message, the parser takes it and shows its fields. -/
theorem parse_message (imp : Implements stage M last) {p : SimpleParser} {s : Frame}
    (here : Matches p s (msg ++ rest)) (drains : Drains M s (msg ++ rest) (some .success) t rest)
    (hb : t.payload = some bytes) :
    ∃ q, runStages stage (last - p.ctx.stage) p = .ok (.success, q) ∧
      q.buf = p.buf.retrieve msg.length ∧ q.ctx.connType = t.connType ∧
      q.ctx.rpcStatus = t.rpcStatus ∧ q.ctx.service = t.service ∧ q.ctx.method = t.method ∧
      q.ctx.payloadView.str q.buf = .ok bytes := by
  obtain ⟨q, n, out, advanced, hn, _, done⟩ := stages_stop imp here drains
  have shown := done rfl
  have taken : n = msg.length := by
    have left := shown.unread
    rw [advanced.buf] at left
    have len := congrArg List.length left
    rw [Buffer.unread_retrieve, List.length_drop, here.unread] at len
    rw [List.length_append] at len hn
    omega
  have str := congrArg Decoded.payload (shown.decoded hb)
  rw [Frame.decoded, hb] at str
  exact ⟨q, out, by rw [advanced.buf, taken], shown.connType, shown.rpcStatus, shown.service,
    shown.method, str⟩

theorem fresh_matches (wf : rd.Wf) : Matches (fresh rd) {} rd.unread :=
  ⟨wf, rfl, rfl, rfl, rfl, rfl, rfl, by simp⟩

theorem parse_packed (noSlash : slash ∉ ctx.service)
    (path : ctx.service.length + 1 + ctx.method.length < 2 ^ 32)
    (payload : ctx.payload.length < 2 ^ 32) (wf : rd.Wf)
    (unread : rd.unread = ctx.requestPieces.flatten ++ ctx.payload ++ rest) :
    ∃ p, parseRequest {} rd = .ok (.success, p) ∧
      p.buf = rd.retrieve (ctx.requestPieces.flatten ++ ctx.payload).length ∧
      p.ctx.connType = ctx.connType ∧ p.ctx.service = ctx.service ∧ p.ctx.method = ctx.method ∧
      p.ctx.payloadView.str p.buf = .ok ctx.payload := by
  have here := fresh_matches wf
  rw [unread] at here
  obtain ⟨p, out, buf, connType, _, service, method, str⟩ := parse_message request_implements here
    (request_drains noSlash path payload rest) rfl
  exact ⟨p, out, buf, connType, service, method, str⟩

end Parsing

theorem requestPieces_small (h : ctx.service.length < 2 ^ 31 ∧ ctx.method.length < 2 ^ 31) :
    ∀ mem ∈ ctx.requestPieces, mem.length < 2 ^ 31 := by
  simp only [requestPieces, List.forall_mem_cons, int32_length, List.length_singleton,
    List.not_mem_nil, false_implies, implies_true, and_true, h]
  decide

/-- A head whose path fits in a word is packed exactly if both its names fit in an `int`. -/
theorem packRequest_small (path : ctx.service.length + 1 + ctx.method.length < 2 ^ 32)
    (packed : ctx.packRequest wr = .ok out) :
    ctx.service.length < 2 ^ 31 ∧ ctx.method.length < 2 ^ 31 := by
  rw [packRequest_eq] at packed
  obtain ⟨b, appended, _⟩ := bind_ok.mp packed
  have short : ∀ mem ∈ ctx.requestPieces, mem.length < 2 ^ 32 → mem.length < 2 ^ 31 := by
    intro mem hm word
    obtain ⟨_, _, one⟩ := Buffer.appended_of_appendAll appended hm
    exact Buffer.lt_of_append one word
  exact ⟨short _ (by simp [requestPieces]) (by omega), short _ (by simp [requestPieces]) (by omega)⟩

theorem packRequest_ok (wf : wr.Wf) (room : Buffer.Room wr.windex wr.data.length ctx.requestPieces)
    (small : ctx.service.length < 2 ^ 31 ∧ ctx.method.length < 2 ^ 31) :
    ∃ out, ctx.packRequest wr = .ok out ∧ out.unread = wr.unread ++ ctx.requestPieces.flatten ∧
      out.extraData = ctx.payload := by
  obtain ⟨b, appended, _, unread, _⟩ := wf.appendAll room (requestPieces_small small)
  exact ⟨b.appendExtra ctx.payload, by rw [packRequest_eq, appended]; rfl, unread, rfl⟩

theorem requestTrip_iff (wf : wr.Wf) (noSlash : slash ∉ ctx.service)
    (path : ctx.service.length + 1 + ctx.method.length < 2 ^ 32)
    (payload : ctx.payload.length < 2 ^ 32)
    (room : Buffer.Room wr.windex wr.data.length ctx.requestPieces) :
    RequestTrip ctx wr ↔ ctx.service.length < 2 ^ 31 ∧ ctx.method.length < 2 ^ 31 := by
  constructor
  · rintro ⟨out, _, packed, _⟩
    exact packRequest_small path packed
  · intro small
    obtain ⟨out, packed, unread, extra⟩ := packRequest_ok wf room small
    refine ⟨out, _, packed, unread, fun rd rest wf' arrived => ?_⟩
    rw [extra] at arrived ⊢
    exact parse_packed noSlash path payload wf' arrived

theorem responseTrip (wf : wr.Wf) (set : ctx.rpcStatus = some status)
    (payload : ctx.payload.length < 2 ^ 32)
    (room : Buffer.Room wr.windex wr.data.length ctx.responsePieces) : ResponseTrip ctx wr := by
  have small : ∀ mem ∈ ctx.responsePieces, mem.length < 2 ^ 31 := by
    simp [responsePieces]
  obtain ⟨b, appended, _, unread, _⟩ := wf.appendAll room small
  refine ⟨b.appendExtra ctx.payload, _, by rw [packResponse_eq, appended]; rfl, unread,
    fun rd rest wf' arrived => ?_⟩
  have here := fresh_matches wf'
  rw [arrived] at here
  obtain ⟨p, out, buf, connType, rpcStatus, _, _, str⟩ := parse_message
    SimpleParser.response_implements here (response_drains rfl set payload rest) rfl
  exact ⟨p, out, buf, connType, rpcStatus.trans set.symm, str⟩

section Repacking
open SmallRpc.Frame SimpleParser

/-- The fields of an accepted head, written again, are the bytes they were read from. -/
theorem packed_split (h : Declared w) {connType : ConnType} {tmp : Nat}
    (magic : castInt (word w) = magicNum)
    (conn : ConnType.ofInt (castInt (word (w.drop 4))) = some connType)
    (found : firstMatch [slash] (((w.drop 8).drop 4).take (word (w.drop 8))) = some tmp) :
    ∃ (ctx : SimpleContext) (rest : Bytes), slash ∉ ctx.service ∧
      ctx.service.length + 1 + ctx.method.length < 2 ^ 32 ∧ ctx.payload.length < 2 ^ 32 ∧
      w = ctx.requestPieces.flatten ++ ctx.payload ++ rest := by
  obtain ⟨head, pathThere, payloadThere⟩ := h
  have pathWord := word_lt (w.drop 8)
  generalize hL : word (w.drop 8) = pathLen at pathThere payloadThere found pathWord
  have payloadWord := word_lt (w.drop (12 + pathLen))
  generalize hP : word (w.drop (12 + pathLen)) = payloadLen at payloadThere payloadWord
  generalize hpath : ((w.drop 8).drop 4).take pathLen = path at found
  have len : path.length = pathLen := by
    rw [← hpath, List.length_take, List.length_drop, List.length_drop]
    omega
  obtain ⟨inside, _, noSlash⟩ := FirstMatch.firstMatch_singleton_some found
  have split := FirstMatch.firstMatch_singleton_split found
  have pathLength : (path.take tmp).length + 1 + (path.drop (tmp + 1)).length = pathLen := by
    rw [List.length_take, List.length_drop]
    omega
  have payloadLength : ((w.drop (12 + pathLen + 4)).take payloadLen).length = payloadLen := by
    rw [List.length_take, List.length_drop]
    omega
  refine ⟨{ connType, service := path.take tmp, method := path.drop (tmp + 1),
            payload := (w.drop (12 + pathLen + 4)).take payloadLen },
    w.drop (12 + pathLen + 4 + payloadLen), noSlash, pathLength.trans_lt pathWord,
    payloadLength.trans_lt payloadWord, ?_⟩
  have magicBytes : int32 magicNum = w.take 4 := int32_word (by omega) (Or.inr magic.symm)
  have connBytes : int32 connType.toInt = (w.drop 4).take 4 :=
    int32_word (by rw [List.length_drop]; omega) (Or.inr (ConnType.toInt_of_ofInt conn))
  have pathBytes : int32 ((path.take tmp).length + 1 + (path.drop (tmp + 1)).length) =
      (w.drop 8).take 4 :=
    int32_word (by rw [List.length_drop]; omega) (Or.inl (by rw [hL, ← pathLength]; push_cast; rfl))
  have payloadBytes : int32 (((w.drop (12 + pathLen + 4)).take payloadLen).length : Nat) =
      (w.drop (12 + pathLen)).take 4 :=
    int32_word (by rw [List.length_drop]; omega) (Or.inl (by rw [payloadLength, hP]))
  have cut : ∀ n k, (w.drop n).take k ++ w.drop (n + k) = w.drop n := by
    intro n k
    rw [← List.drop_drop, List.take_append_drop]
  have joined : ∀ v, path.take tmp ++ slash :: (path.drop (tmp + 1) ++ v) = path ++ v := by
    intro v
    rw [← List.cons_append, ← List.append_assoc, ← split]
  simp only [requestPieces, int32_emod, List.flatten_cons, List.flatten_nil, List.append_assoc,
    List.append_nil, List.cons_append, List.nil_append, magicBytes, connBytes, pathBytes,
    payloadBytes]
  rw [cut, cut, joined, ← hpath, List.drop_drop, cut, cut, cut, List.take_append_drop]

/-- A stream that holds all it declares is turned down by the machine, or begins with
the bytes that `pack_request` writes for its fields. -/
theorem declared_cases (h : Declared w) :
    (∃ o t x, o ≠ .success ∧ Drains (Frame.request .error) {} w (some o) t x) ∨
      ∃ (ctx : SimpleContext) (rest : Bytes), slash ∉ ctx.service ∧
        ctx.service.length + 1 + ctx.method.length < 2 ^ 32 ∧ ctx.payload.length < 2 ^ 32 ∧
        w = ctx.requestPieces.flatten ++ ctx.payload ++ rest := by
  obtain ⟨head, pathThere, _⟩ := id h
  by_cases magic : castInt (word w) = magicNum
  swap
  · refine Or.inl ⟨.error, {}, w, by simp, .stop ?_⟩
    have long : ¬ w.length < 4 := by omega
    exact (if_neg long).trans (if_pos magic)
  have first : (Frame.request .error).stage {} w = .advance { stage := 1 } 4 :=
    request_first rfl (by omega) magic
  have long₁ : ¬ (w.drop 4).length < 4 := by
    rw [List.length_drop]
    omega
  cases conn : ConnType.ofInt (castInt (word (w.drop 4))) with
  | none =>
      refine Or.inl ⟨.error, _, _, by simp, .advance first (.stop ?_)⟩
      change connTypeVerdict _ _ = _
      rw [connTypeVerdict, if_neg long₁, conn]
  | some connType =>
      have second : (Frame.request .error).stage { stage := 1 } (w.drop 4) =
          .advance { connType, stage := 2 } 4 := by
        change connTypeVerdict _ _ = _
        rw [connTypeVerdict, if_neg long₁, conn]
      have long₂ : ¬ ((w.drop 8).length < 4 ∨ (w.drop 8).length < 4 + word (w.drop 8)) := by
        rw [List.length_drop]
        omega
      cases found : firstMatch [slash] (((w.drop 8).drop 4).take (word (w.drop 8))) with
      | none =>
          refine Or.inl ⟨.error, _, _, by simp, .advance first (.advance second (.stop ?_))⟩
          change pathVerdict _ _ = _
          rw [List.drop_drop, pathVerdict, if_neg long₂, found]
      | some tmp => exact Or.inr (packed_split h magic conn found)

/-- A complete request that is accepted was written by `pack_request` for its fields. -/
theorem accepted_packed {rd : Buffer} {p : SimpleParser} (wf : rd.Wf) (declared : Declared rd.unread)
    (accepted : parseRequest {} rd = .ok (.success, p)) :
    ∃ ctx : SimpleContext, ctx.service.length + 1 + ctx.method.length < 2 ^ 32 ∧
      rd.unread = ctx.requestPieces.flatten ++ ctx.payload ++ p.buf.unread ∧
      p.ctx.connType = ctx.connType ∧ p.ctx.service = ctx.service ∧ p.ctx.method = ctx.method ∧
      p.ctx.payloadView.str p.buf = .ok ctx.payload := by
  rcases declared_cases declared with ⟨o, t, x, other, drains⟩ |
    ⟨ctx, rest, noSlash, path, payload, bytes⟩
  · have here : Matches (fresh rd) {} rd.unread := ⟨wf, rfl, rfl, rfl, rfl, rfl, rfl, by simp⟩
    obtain ⟨q, _, out, _⟩ := stages_stop request_implements here drains
    obtain ⟨rfl, _⟩ := Prod.mk.inj (Except.ok.inj (accepted.symm.trans out))
    exact absurd rfl other
  · obtain ⟨q, out, buf, connType, service, method, str⟩ := parse_packed noSlash path payload wf bytes
    obtain ⟨_, rfl⟩ := Prod.mk.inj (Except.ok.inj (accepted.symm.trans out))
    refine ⟨ctx, path, ?_, connType, service, method, str⟩
    rw [buf, Buffer.unread_retrieve, bytes, List.drop_left]

theorem repacks_iff {rd : Buffer} {p : SimpleParser} {payload : Bytes} (wf : rd.Wf)
    (declared : Declared rd.unread) (accepted : parseRequest {} rd = .ok (.success, p))
    (view : p.ctx.payloadView.str p.buf = .ok payload) (wf' : wr.Wf)
    (room : Buffer.Room wr.windex wr.data.length { p.ctx with payload }.requestPieces) :
    Repacks { p.ctx with payload } wr rd.unread p.buf.unread ↔
      p.ctx.service.length < 2 ^ 31 ∧ p.ctx.method.length < 2 ^ 31 := by
  obtain ⟨ctx, path, bytes, connType, service, method, str⟩ := accepted_packed wf declared accepted
  obtain rfl := Except.ok.inj (view.symm.trans str)
  have same : { p.ctx with payload := ctx.payload }.requestPieces = ctx.requestPieces := by
    simp only [requestPieces, connType, service, method]
  constructor
  · rintro ⟨out, _, packed, _⟩
    have path' : p.ctx.service.length + 1 + p.ctx.method.length < 2 ^ 32 := by
      rw [service, method]
      exact path
    exact @packRequest_small { p.ctx with payload := ctx.payload } wr out path' packed
  · intro small
    obtain ⟨out, packed, unread, extra⟩ := packRequest_ok wf' room small
    exact ⟨out, _, packed, unread, by rw [extra, same]; exact bytes⟩

end Repacking

/-- Packing and parsing invert each other both ways, wherever the head fits in the write
buffer; for a request exactly if its service and its method fit in an `int`. -/
theorem round_trip_iff {wr : Buffer} (wf : wr.Wf) :
    (∀ ctx : SimpleContext, slash ∉ ctx.service →
      ctx.service.length + 1 + ctx.method.length < 2 ^ 32 → ctx.payload.length < 2 ^ 32 →
      Buffer.Room wr.windex wr.data.length ctx.requestPieces →
      (RequestTrip ctx wr ↔ ctx.service.length < 2 ^ 31 ∧ ctx.method.length < 2 ^ 31)) ∧
    (∀ (ctx : SimpleContext) (status : RpcStatus), ctx.rpcStatus = some status →
      ctx.payload.length < 2 ^ 32 →
      Buffer.Room wr.windex wr.data.length ctx.responsePieces → ResponseTrip ctx wr) ∧
    ∀ (rd : Buffer) (p : SimpleParser) (payload : Bytes), rd.Wf → Declared rd.unread →
      parseRequest {} rd = .ok (.success, p) → p.ctx.payloadView.str p.buf = .ok payload →
      Buffer.Room wr.windex wr.data.length { p.ctx with payload }.requestPieces →
      (Repacks { p.ctx with payload } wr rd.unread p.buf.unread ↔
        p.ctx.service.length < 2 ^ 31 ∧ p.ctx.method.length < 2 ^ 31) :=
  ⟨fun _ noSlash path payload room => requestTrip_iff wf noSlash path payload room,
    fun _ _ set payload room => responseTrip wf set payload room,
    fun _ _ _ wf' declared accepted view room =>
      repacks_iff wf' declared accepted view wf room⟩

/-- `EchoService/echo` with the payload of the unit test. -/
def echoCall : SimpleContext :=
  { connType := .single, service := [69, 99, 104, 111], method := [101], payload := [104, 105] }

theorem echoCall_trip : RequestTrip echoCall (Buffer.ofSize 16) :=
  ((round_trip_iff (Buffer.ofSize_wf 16)).1 echoCall (by decide) (by decide) (by decide)
    (by decide)).mpr ⟨by decide, by decide⟩

/-- A call whose service has `n` bytes. -/
def wordyCall (n : Nat) : SimpleContext := { service := List.replicate n 97 }

theorem wordyCall_room {n : Nat} (long : 16 ≤ n) : Buffer.Room (Buffer.ofSize n).windex
    (Buffer.ofSize n).data.length (wordyCall n).requestPieces := by
  have storage : (Buffer.ofSize n).data.length = n := List.length_replicate
  have service : (wordyCall n).service.length = n := List.length_replicate
  have method : (wordyCall n).method.length = 0 := rfl
  change Buffer.Room 0 _ _
  rw [storage]
  simp only [Buffer.Room, requestPieces, int32_length, service, method, List.length_singleton,
    and_true]
  split_ifs <;> omega

/-- From 2^31 bytes on the service fits in the write buffer and its length in the path
length, but the `int` that `append` copies by is negative. -/
theorem wordyCall_lost {n : Nat} (long : 2 ^ 31 ≤ n) (word : n + 1 < 2 ^ 32) :
    ¬ ∀ (ctx : SimpleContext) (wr : Buffer), wr.Wf → slash ∉ ctx.service →
      ctx.service.length + 1 + ctx.method.length < 2 ^ 32 → ctx.payload.length < 2 ^ 32 →
      Buffer.Room wr.windex wr.data.length ctx.requestPieces → RequestTrip ctx wr := by
  intro claim
  have service : (wordyCall n).service.length = n := List.length_replicate
  have noSlash : slash ∉ (wordyCall n).service := by
    intro found
    exact absurd (List.eq_of_mem_replicate found) (by decide)
  have path : (wordyCall n).service.length + 1 + (wordyCall n).method.length < 2 ^ 32 := by
    rw [service]
    exact word
  obtain ⟨_, _, packed, _⟩ := claim (wordyCall n) (Buffer.ofSize n) (Buffer.ofSize_wf n) noSlash path
    (Nat.two_pow_pos 32) (wordyCall_room (by omega))
  have small := (packRequest_small path packed).1
  omega

theorem huge_service_lost : ¬ ∀ (ctx : SimpleContext) (wr : Buffer), wr.Wf → slash ∉ ctx.service →
    ctx.service.length + 1 + ctx.method.length < 2 ^ 32 → ctx.payload.length < 2 ^ 32 →
    Buffer.Room wr.windex wr.data.length ctx.requestPieces → RequestTrip ctx wr :=
  wordyCall_lost (n := 2 ^ 31) le_rfl (by decide)

end SimpleContext
end SmallRpc
