import SmallRpc.SimpleFraming

/-! The parsers of `SimpleContext` against the format. As long as no pass starts on
a short field the two agree pass by pass, and the parser looks only at received
bytes. -/
namespace SmallRpc
open Resumable
open FirstMatch (firstMatch firstMatch_append firstMatch_bound)

namespace SimpleParser
open SmallRpc.Frame

/-- A parser before its first call. -/
def fresh (b : Buffer) : SimpleParser := ⟨{}, b, []⟩

def recv (p : SimpleParser) (chunk : Bytes) : SimpleParser := { p with buf := p.buf.recv chunk }

variable {p q : SimpleParser} {s s' : Frame} {w : Bytes} {n m last : Nat}

/-- The payload view of the context shows `bytes`, all of them consumed. -/
def Shows (p : SimpleParser) (bytes : Bytes) : Prop :=
  ∃ start, p.ctx.payloadView = ⟨true, start, start + bytes.length⟩ ∧
    start + bytes.length ≤ p.buf.rindex ∧ (p.buf.data.drop start).take bytes.length = bytes

structure Matches (p : SimpleParser) (s : Frame) (w : Bytes) : Prop where
  wf : p.buf.Wf
  unread : p.buf.unread = w
  stage : p.ctx.stage = s.stage
  connType : p.ctx.connType = s.connType
  rpcStatus : p.ctx.rpcStatus = s.rpcStatus
  service : p.ctx.service = s.service
  method : p.ctx.method = s.method
  payload : ∀ bytes, s.payload = some bytes → p.Shows bytes

/-- From `p` to `q` the buffer only gave up `n` bytes, and every look was inside. -/
structure Advanced (p q : SimpleParser) (n : Nat) : Prop where
  buf : q.buf = p.buf.retrieve n
  looked : ∃ new, q.looked = p.looked ++ new ∧ ∀ a ∈ new, a.Inside

theorem Advanced.refl (p : SimpleParser) : Advanced p p 0 := ⟨rfl, [], by simp, by simp⟩

theorem Advanced.trans {r : SimpleParser} (h : Advanced p q n) (k : Advanced q r m) :
    Advanced p r (n + m) := by
  obtain ⟨new, hnew, inside⟩ := h.looked
  obtain ⟨new', hnew', inside'⟩ := k.looked
  refine ⟨?_, new ++ new', by rw [hnew', hnew, List.append_assoc], ?_⟩
  · rw [k.buf, h.buf]
    simp only [Buffer.retrieve, Nat.add_assoc]
  · intro a ha
    exact (List.mem_append.mp ha).elim (inside a) (inside' a)

/-- Looking at the next `k` unread bytes, from offset `i` on. -/
theorem advanced_look (wf : p.buf.Wf) {i k : Nat} (h : i + k ≤ p.buf.unread.length) :
    Advanced p (p.look (p.buf.rindex + i) k) 0 := by
  refine ⟨rfl, _, rfl, ?_⟩
  intro a ha
  rw [List.mem_singleton.mp ha]
  have hlen := wf.unread_length
  have ho := wf.order
  exact fun _ => ⟨by simp, by simp; omega⟩

theorem advanced_retrieve (p : SimpleParser) (n : Nat) : Advanced p (p.retrieve n) n :=
  ⟨rfl, [], by simp [retrieve], by simp⟩

/-- A change of context leaves the buffer and the log alone. -/
theorem Advanced.withCtx (h : Advanced p q n) (ctx : SimpleContext) :
    Advanced p { q with ctx } n := ⟨h.buf, h.looked⟩

/-- How one pass of the loop answers a verdict of the format. -/
inductive Follows (p : SimpleParser) (s : Frame) (w : Bytes)
    (pass : Except Fault (Flow SimpleParser)) : FrameVerdict → Prop
  | more {q : SimpleParser} : pass = .ok (.ret .noEnoughData q) → q.ctx = p.ctx → Advanced p q 0 →
      Follows p s w pass .more
  | stop {q : SimpleParser} {n : Nat} {o} : pass = .ok (.ret o q) → n ≤ w.length →
      Advanced p q n → q.ctx.stage = s.stage → (o = .success → Matches q s w) →
      Follows p s w pass (.stop o)
  | advance {q : SimpleParser} {s' : Frame} {n : Nat} : pass = .ok (.again q) →
      Matches q s' (w.drop n) → Advanced p q n → Follows p s w pass (.advance s' n)

/-- The declared field is not complete, but its length is no more than the number
of bytes unread, those of the length included. -/
def Short (last : Nat) (s : Frame) (w : Bytes) : Prop :=
  2 ≤ s.stage ∧ s.stage < last ∧ 4 ≤ w.length ∧ word w ≤ w.length ∧ w.length < 4 + word w

theorem Matches.readable (h : Matches p s w) : p.buf.readable = w.length := by
  rw [h.wf.readable_eq, h.unread]

theorem Matches.peekInt32 (h : Matches p s w) (h4 : 4 ≤ w.length) :
    p.buf.peekInt32 = .ok (castInt (word w)) := by
  rw [h.wf.peekInt32_eq (by rw [h.unread]; exact h4), h.unread]
  rfl

theorem Matches.peekUint32 (h : Matches p s w) (h4 : 4 ≤ w.length) :
    p.buf.peekUint32 = .ok (word w) := by
  rw [h.wf.peekUint32_eq (by rw [h.unread]; exact h4), h.unread]
  rfl

theorem Matches.look (h : Matches p s w) {k : Nat} (hk : k ≤ w.length) :
    Advanced p (p.look p.buf.rindex k) 0 :=
  advanced_look h.wf (i := 0) (by rw [h.unread]; omega)

/-- Consuming unread bytes keeps the correspondence; a view is only shown once. -/
theorem Matches.retrieve (h : Matches p s w) (hn : n ≤ w.length) :
    Matches (p.retrieve n) s (w.drop n) := by
  refine ⟨h.wf.retrieve (by rw [h.unread]; exact hn), ?_, h.stage, h.connType, h.rpcStatus,
    h.service, h.method, ?_⟩
  · show (p.buf.retrieve n).unread = w.drop n
    rw [Buffer.unread_retrieve, h.unread]
  · intro bytes hb
    obtain ⟨start, hv, hle, hd⟩ := h.payload bytes hb
    exact ⟨start, hv, hle.trans (Nat.le_add_right _ _), hd⟩

theorem Matches.looked (h : Matches p s w) (start k : Nat) : Matches (p.look start k) s w :=
  ⟨h.wf, h.unread, h.stage, h.connType, h.rpcStatus, h.service, h.method, h.payload⟩

theorem Matches.idle (h : Matches p s w) (same : q.ctx = p.ctx) (adv : Advanced p q 0) :
    Matches q s w := by
  have hbuf : q.buf = p.buf := adv.buf
  obtain ⟨wf, unread, stage, connType, rpcStatus, service, method, payload⟩ := h
  refine ⟨?_, ?_, ?_, ?_, ?_, ?_, ?_, ?_⟩ <;> simp only [Shows, hbuf, same] <;> assumption

theorem Matches.recv (h : Matches p s w) (hpos : 0 < p.buf.data.length) (c : Bytes) :
    Matches (p.recv c) s (w ++ c) := by
  have got := h.wf.recv hpos c
  refine ⟨got.wf, by rw [← h.unread]; exact got.unread, h.stage, h.connType, h.rpcStatus,
    h.service, h.method, fun bytes hb => ?_⟩
  obtain ⟨start, hv, hle, hd⟩ := h.payload bytes hb
  exact ⟨start, hv, hle.trans got.rindex.ge, (got.window (hle.trans h.wf.order)).trans hd⟩

theorem stageMagic_follows (h : Matches p s w) :
    Follows p s w p.stageMagic (magicVerdict .error s w) := by
  unfold stageMagic magicVerdict
  rw [h.readable]
  by_cases hw : w.length < 4
  · rw [if_pos hw, if_pos hw]
    exact .more rfl rfl (.refl p)
  rw [if_neg hw, if_neg hw, h.peekInt32 (by omega)]
  simp only [bind, Except.bind, pure, Except.pure]
  by_cases hm : castInt (word w) = magicNum
  · rw [if_neg (not_not_intro hm), if_neg (not_not_intro hm)]
    have seen := h.looked p.buf.rindex 4
    have moved := seen.retrieve (n := 4) (by omega)
    exact .advance rfl { moved with stage := rfl }
      (((h.look (by omega)).trans (advanced_retrieve _ 4)).withCtx _)
  · rw [if_pos hm, if_pos hm]
    exact .stop rfl (Nat.zero_le _) (h.look (by omega)) h.stage (by simp)

theorem stageConnType_follows (h : Matches p s w) :
    Follows p s w p.stageConnType (connTypeVerdict s w) := by
  unfold stageConnType connTypeVerdict
  rw [h.readable]
  by_cases hw : w.length < 4
  · rw [if_pos hw, if_pos hw]
    exact .more rfl rfl (.refl p)
  rw [if_neg hw, if_neg hw, h.peekInt32 (by omega)]
  simp only [bind, Except.bind, pure, Except.pure]
  cases ConnType.ofInt (castInt (word w)) with
  | none => exact .stop rfl (Nat.zero_le _) (h.look (by omega)) h.stage (by simp)
  | some connType =>
      have seen := h.looked p.buf.rindex 4
      have moved := seen.retrieve (n := 4) (by omega)
      exact .advance rfl { moved with stage := rfl, connType := rfl }
        (((h.look (by omega)).trans (advanced_retrieve _ 4)).withCtx _)

theorem stageStatus_follows (h : Matches p s w) :
    Follows p s w p.stageStatus (statusVerdict s w) := by
  unfold stageStatus statusVerdict
  rw [h.readable]
  by_cases hw : w.length < 8
  · rw [if_pos hw, if_pos hw]
    exact .more rfl rfl (.refl p)
  rw [if_neg hw, if_neg hw, h.peekInt32 (by omega)]
  simp only [bind, Except.bind, pure, Except.pure]
  cases hc : ConnType.ofInt (castInt (word w)) with
  | none => exact .stop rfl (Nat.zero_le _) (h.look (by omega)) h.stage (by simp)
  | some connType =>
      have seen := h.looked p.buf.rindex 4
      have moved := seen.retrieve (n := 4) (by omega)
      have first := ((h.look (k := 4) (by omega)).trans (advanced_retrieve _ 4)).withCtx
        { p.ctx with connType }
      have second : Matches { (p.look p.buf.rindex 4).retrieve 4 with
          ctx := { p.ctx with connType } } { s with connType } (w.drop 4) :=
        { moved with connType := rfl }
      have h4 : 4 ≤ (w.drop 4).length := by rw [List.length_drop]; omega
      have peeked := second.peekInt32 h4
      have looked := first.trans (second.look (k := 4) h4)
      simp only [look, SimpleParser.retrieve] at peeked looked ⊢
      rw [peeked]
      simp only []
      cases RpcStatus.ofInt (castInt (word (w.drop 4))) with
      | none => exact .stop rfl (by omega) looked h.stage (by simp)
      | some rpcStatus =>
          have done := (second.looked (p.buf.rindex + 4) 4).retrieve (n := 4) h4
          rw [List.drop_drop] at done
          exact .advance rfl { done with stage := rfl, rpcStatus := rfl }
            ((looked.trans (advanced_retrieve _ 4)).withCtx _)

/-- Both tests of the two length-prefixed fields, away from a short field. -/
theorem complete_of_not_short (hs : 2 ≤ s.stage) (hlast : s.stage < last)
    (hshort : ¬ Short last s w) (h4 : ¬ w.length < 4) :
    w.length < 4 + word w ↔ w.length < word w := by
  constructor
  · intro missing
    by_contra counted
    exact hshort ⟨hs, hlast, by omega, by omega, missing⟩
  · omega

theorem takePath_found (h : Matches p s w) {tmp : Nat} (hn : n ≤ w.length)
    (hf : firstMatch [slash] (w.take n) = some tmp) : ∃ q, p.takePath n = .ok (.again q) ∧
      Advanced p q n ∧ Matches q
        { s with service := (w.take n).take tmp, method := (w.take n).drop (tmp + 1), stage := 3 }
        (w.drop n) := by
  have hb := firstMatch_bound hf
  rw [List.length_take, Nat.min_eq_left hn, List.length_singleton] at hb
  have found := h.wf.search_eq (k := 0) (n := n) (by rw [h.unread]; omega) [slash]
  have service := h.wf.copy_eq (k := 0) (n := tmp) (by rw [h.unread]; omega)
  have method := h.wf.copy_eq (k := tmp + 1) (n := n - 1 - tmp) (by rw [h.unread]; omega)
  rw [h.unread, Nat.add_zero, List.drop_zero] at found service
  rw [h.unread, ← Nat.add_assoc] at method
  have hit := h.looked p.buf.rindex (tmp + 1)
  have whole := (hit.looked p.buf.rindex n).retrieve hn
  have looked := ((h.look (k := tmp + 1) (by omega)).trans (hit.look hn)).trans
    (advanced_retrieve _ n)
  rw [Nat.zero_add] at looked
  unfold takePath
  rw [found, hf]
  simp only [bind, Except.bind, pure, Except.pure, look, SimpleParser.retrieve, service, method]
  refine ⟨_, rfl, ⟨looked.buf, looked.looked⟩,
    { whole with stage := rfl, service := ?_, method := ?_ }⟩
  · show List.take tmp w = _
    rw [List.take_take, Nat.min_eq_left (by omega)]
  · show List.take (n - 1 - tmp) (w.drop (tmp + 1)) = _
    rw [List.drop_take, Nat.sub_sub, Nat.add_comm 1 tmp]

theorem stagePath_entered (h : Matches p s w) (h4 : 4 ≤ w.length) (hn : word w ≤ w.length) :
    p.stagePath = ((p.look p.buf.rindex 4).retrieve 4).takePath (word w) := by
  rw [stagePath, h.readable, if_neg (by omega), h.peekUint32 h4]
  simp only [bind, Except.bind]
  rw [(h.looked p.buf.rindex 4).readable, if_neg (by omega)]

theorem stagePath_follows (h : Matches p s w) (hs : s.stage = 2) (hshort : ¬ Short 4 s w) :
    Follows p s w p.stagePath (pathVerdict s w) := by
  unfold pathVerdict
  by_cases hw : w.length < 4
  · rw [if_pos (Or.inl hw), stagePath, h.readable, if_pos hw]
    exact .more rfl rfl (.refl p)
  have tests := complete_of_not_short (by omega) (by omega) hshort hw
  have seen := h.looked p.buf.rindex 4
  have saw := h.look (k := 4) (by omega)
  by_cases hl : w.length < word w
  · rw [if_pos (Or.inr (tests.mpr hl)), stagePath, h.readable, if_neg hw, h.peekUint32 (by omega)]
    simp only [bind, Except.bind, pure, Except.pure]
    rw [seen.readable, if_pos hl]
    exact .more rfl rfl saw
  rw [if_neg (by rw [tests]; exact not_or.mpr ⟨hw, hl⟩), stagePath_entered h (by omega) (by omega)]
  have moved := seen.retrieve (n := 4) (by omega)
  have past := saw.trans (advanced_retrieve _ 4)
  have hfit : word w ≤ (w.drop 4).length := by
    rw [List.length_drop]
    omega
  cases hf : firstMatch [slash] ((w.drop 4).take (word w)) with
  | none =>
      have found := moved.wf.search_eq (k := 0) (n := word w) (by rw [moved.unread]; omega) [slash]
      rw [moved.unread, Nat.add_zero, List.drop_zero, hf] at found
      rw [takePath, found]
      exact .stop rfl (by omega) (past.trans (moved.look hfit)) h.stage (by simp)
  | some tmp =>
      obtain ⟨q, hq, adv, done⟩ := takePath_found moved hfit hf
      rw [List.drop_drop] at done
      exact .advance hq done (past.trans adv)

theorem stagePayload_follows (h : Matches p s w) {next : Nat} (hs : s.stage + 1 = next)
    (h2 : 2 ≤ s.stage) (hshort : ¬ Short next s w) :
    Follows p s w (p.stagePayload next) (payloadVerdict next s w) := by
  unfold stagePayload payloadVerdict
  rw [h.readable]
  by_cases hw : w.length < 4
  · rw [if_pos hw, if_pos (Or.inl hw)]
    exact .more rfl rfl (.refl p)
  have tests := complete_of_not_short h2 (by omega) hshort hw
  rw [if_neg hw, h.peekUint32 (by omega)]
  simp only [bind, Except.bind, pure, Except.pure]
  have seen := h.looked p.buf.rindex 4
  have saw := h.look (k := 4) (by omega)
  rw [seen.readable]
  by_cases hl : w.length < word w
  · rw [if_pos hl, if_pos (Or.inr (tests.mpr hl))]
    exact .more rfl rfl saw
  rw [if_neg hl, if_neg (by rw [tests]; exact not_or.mpr ⟨hw, hl⟩)]
  have moved := seen.retrieve (n := 4) (by omega)
  have past := saw.trans (advanced_retrieve _ 4)
  have hfit : word w ≤ (w.drop 4).length := by rw [List.length_drop]; omega
  have done := moved.retrieve hfit
  rw [List.drop_drop] at done
  refine .advance rfl { done with stage := rfl, payload := ?_ }
    ((past.withCtx _).trans (advanced_retrieve _ _))
  intro bytes hb
  obtain rfl := Option.some.inj hb
  have hlen : ((w.drop 4).take (word w)).length = word w := by
    rw [List.length_take, Nat.min_eq_left hfit]
  refine ⟨p.buf.rindex + 4, ?_, ?_, ?_⟩
  · rw [hlen]
    rfl
  · rw [hlen]
    rfl
  · rw [hlen]
    have window := moved.wf.window (k := 0) (n := word w) (by rw [moved.unread]; omega)
    rw [moved.unread] at window
    exact window

/-- The parser `stage` works through its `last` stages as `M` says, short fields apart. -/
structure Implements (stage : SimpleParser → Except Fault (Flow SimpleParser))
    (M : Machine UInt8 Frame ParseProtocolStatus) (last : Nat) : Prop where
  finished : ∀ {s w}, last ≤ s.stage → M.stage s w = .stop .success
  success : ∀ {s w}, M.stage s w = .stop .success → last ≤ s.stage
  next : ∀ {s w s' n}, M.stage s w = .advance s' n → s'.stage = s.stage + 1 ∧ s.stage < last
  payload : ∀ {s w s' n}, M.stage s w = .advance s' n → last ≤ s'.stage →
    ∃ bytes, s'.payload = some bytes
  short : ∀ {s w}, Short last s w → M.stage s w = .more
  follows : ∀ {p s w}, Matches p s w → s.stage < last → ¬ Short last s w →
    Follows p s w (stage p) (M.stage s w)

theorem request_implements : Implements requestStage (Frame.request .error) 4 where
  finished {s w} h := by
    show requestVerdict .error s w = _
    unfold requestVerdict
    split <;> first | omega | rfl
  success {s w} h := by
    change requestVerdict .error s w = _ at h
    unfold requestVerdict at h
    generalize s.stage = k at h ⊢
    rcases k with _ | _ | _ | _ | k
    · exact absurd h magicVerdict_success
    · exact absurd h connTypeVerdict_success
    · exact absurd h pathVerdict_success
    · exact absurd h payloadVerdict_success
    · omega
  payload {s w s' n} h hlast := by
    change requestVerdict .error s w = _ at h
    unfold requestVerdict at h
    generalize s.stage = k at h
    rcases k with _ | _ | _ | _ | k
    · exact absurd (magicVerdict_next h).1 (by omega)
    · exact absurd (connTypeVerdict_next h).1 (by omega)
    · exact absurd (pathVerdict_next h) (by omega)
    · exact (payloadVerdict_next h).2
    · cases h
  next {s w s' n} h := by
    change requestVerdict .error s w = _ at h
    unfold requestVerdict at h
    generalize s.stage = k at h ⊢
    rcases k with _ | _ | _ | _ | k
    · exact ⟨(magicVerdict_next h).1, by omega⟩
    · exact ⟨(connTypeVerdict_next h).1, by omega⟩
    · exact ⟨pathVerdict_next h, by omega⟩
    · exact ⟨(payloadVerdict_next h).1, by omega⟩
    · cases h
  short {s w} h := by
    obtain ⟨h2, h4, _, _, missing⟩ := h
    show requestVerdict .error s w = _
    unfold requestVerdict
    generalize s.stage = k at h2 h4 ⊢
    obtain rfl | rfl : k = 2 ∨ k = 3 := by omega
    · exact if_pos (Or.inr missing)
    · exact if_pos (Or.inr missing)
  follows {p s w} h hlast hshort := by
    show Follows p s w p.requestStage (requestVerdict .error s w)
    unfold requestStage requestVerdict
    rw [h.stage]
    generalize hs : s.stage = k at hlast ⊢
    rcases k with _ | _ | _ | _ | k
    · exact stageMagic_follows h
    · exact stageConnType_follows h
    · exact stagePath_follows h hs hshort
    · exact stagePayload_follows h (by omega) (by omega) hshort
    · omega

theorem response_implements : Implements responseStage Frame.response 3 where
  finished {s w} h := by
    show responseVerdict s w = _
    unfold responseVerdict
    split <;> first | omega | rfl
  success {s w} h := by
    change responseVerdict s w = _ at h
    unfold responseVerdict at h
    generalize s.stage = k at h ⊢
    rcases k with _ | _ | _ | k
    · exact absurd h magicVerdict_success
    · exact absurd h statusVerdict_success
    · exact absurd h payloadVerdict_success
    · omega
  payload {s w s' n} h hlast := by
    change responseVerdict s w = _ at h
    unfold responseVerdict at h
    generalize s.stage = k at h
    rcases k with _ | _ | _ | k
    · exact absurd (magicVerdict_next h).1 (by omega)
    · exact absurd (statusVerdict_next h) (by omega)
    · exact (payloadVerdict_next h).2
    · cases h
  next {s w s' n} h := by
    change responseVerdict s w = _ at h
    unfold responseVerdict at h
    generalize s.stage = k at h ⊢
    rcases k with _ | _ | _ | k
    · exact ⟨(magicVerdict_next h).1, by omega⟩
    · exact ⟨statusVerdict_next h, by omega⟩
    · exact ⟨(payloadVerdict_next h).1, by omega⟩
    · cases h
  short {s w} h := by
    obtain ⟨h2, h3, _, _, missing⟩ := h
    show responseVerdict s w = _
    unfold responseVerdict
    generalize s.stage = k at h2 h3 ⊢
    obtain rfl : k = 2 := by omega
    exact if_pos (Or.inr missing)
  follows {p s w} h hlast hshort := by
    show Follows p s w p.responseStage (responseVerdict s w)
    unfold responseStage responseVerdict
    rw [h.stage]
    generalize hs : s.stage = k at hlast ⊢
    rcases k with _ | _ | _ | k
    · exact stageMagic_follows h
    · exact stageStatus_follows h
    · exact stagePayload_follows h (by omega) (by omega) hshort
    · omega

section Calls
variable {stage : SimpleParser → Except Fault (Flow SimpleParser)}
  {M : Machine UInt8 Frame ParseProtocolStatus} {r : Option ParseProtocolStatus} {t : Frame}
  {x : Bytes}

/-- The loop goes on from where the machine comes to rest. -/
theorem stages_reach (imp : Implements stage M last) (h : Matches p s w)
    (drains : Drains M s w r t x) :
    ∃ q, Matches q t x ∧ Advanced p q (w.length - x.length) ∧
      runStages stage (last - p.ctx.stage) p = runStages stage (last - q.ctx.stage) q := by
  induction drains generalizing p with
  | more _ => exact ⟨p, h, by rw [Nat.sub_self]; exact .refl p, rfl⟩
  | stop _ => exact ⟨p, h, by rw [Nat.sub_self]; exact .refl p, rfl⟩
  | @advance s w s' n r t x hv rest ih =>
      obtain ⟨hnext, hlast⟩ := imp.next hv
      have hshort : ¬ Short last s w := fun hs => by rw [imp.short hs] at hv; cases hv
      have pass := imp.follows h hlast hshort
      rw [hv] at pass
      cases pass with
      | advance hp moved adv =>
          obtain ⟨q, match_q, adv_q, hloop⟩ := ih moved
          refine ⟨q, match_q, ?_, ?_⟩
          · have le := rest.suffix.length_le
            have hn := (M.progress hv).2
            rw [List.length_drop] at adv_q le
            rw [show w.length - x.length = n + (w.length - n - x.length) by omega]
            exact adv.trans adv_q
          · rw [← hloop, h.stage, moved.stage, hnext,
              show last - s.stage = last - (s.stage + 1) + 1 by omega]
            exact runStages_again hp

/-- Where the machine stops, the call returns its verdict. -/
theorem stages_stop (imp : Implements stage M last) (h : Matches p s w) {o : ParseProtocolStatus}
    (drains : Drains M s w (some o) t x) :
    ∃ q n, runStages stage (last - p.ctx.stage) p = .ok (o, q) ∧ Advanced p q n ∧ n ≤ w.length ∧
      q.ctx.stage = t.stage ∧ (o = .success → Matches q t x) := by
  obtain ⟨q, here, adv, hloop⟩ := stages_reach imp h drains
  have hv := drains.stopped
  have le := drains.suffix.length_le
  rw [hloop, here.stage]
  by_cases hlast : t.stage < last
  · have hshort : ¬ Short last t x := fun hs => by rw [imp.short hs] at hv; cases hv
    have pass := imp.follows here hlast hshort
    rw [hv] at pass
    cases pass with
    | @stop q' n _ hq hn adv' hstage final =>
        rw [show last - t.stage = last - t.stage - 1 + 1 by omega]
        exact ⟨q', _, runStages_ret hq, adv.trans adv', by omega, hstage, final⟩
  · rw [imp.finished (by omega)] at hv
    cases hv
    rw [show last - t.stage = 0 by omega]
    exact ⟨q, _, rfl, adv, by omega, here.stage, fun _ => here⟩

/-- Where the machine waits, and no field is short, the call waits too. -/
theorem stages_wait (imp : Implements stage M last) (h : Matches p s w)
    (drains : Drains M s w none t x) (hshort : ¬ Short last t x) :
    ∃ q, runStages stage (last - p.ctx.stage) p = .ok (.noEnoughData, q) ∧ Matches q t x ∧
      Advanced p q (w.length - x.length) := by
  obtain ⟨q, here, adv, hloop⟩ := stages_reach imp h drains
  have hv := drains.at_rest
  rw [hloop, here.stage]
  have hlast : t.stage < last := by
    by_contra hge
    rw [imp.finished (by omega)] at hv
    cases hv
  have pass := imp.follows here hlast hshort
  rw [hv] at pass
  cases pass with
  | @more q' hq same adv' =>
      rw [show last - t.stage = last - t.stage - 1 + 1 by omega]
      exact ⟨q', runStages_ret hq, here.idle same adv', adv.trans adv'⟩

end Calls

end SimpleParser
end SmallRpc
