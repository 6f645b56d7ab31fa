import SmallRpc.Feeding
import SmallRpc.SimpleSafety
import SmallRpc.Protocols

/-! The binary protocol under fragmentation: how a stream is cut matters exactly when
a cut leaves fewer than four bytes of a declared field missing. -/
namespace SmallRpc
open Resumable
open FirstMatch (firstMatch)

namespace Buffer
variable {b : Buffer}

/-- The buffer after all chunks, had nothing been consumed. -/
def recvs (b : Buffer) (chunks : List Bytes) : Buffer := chunks.foldl recv b

theorem recv_retrieve (n : Nat) (chunk : Bytes) :
    (b.retrieve n).recv chunk = (b.recv chunk).retrieve n := by
  have room : ∀ c : Buffer, (c.retrieve n).makeRoom = c.makeRoom.retrieve n := by
    intro c
    unfold makeRoom
    rw [show (c.retrieve n).writeable = c.writeable from rfl]
    split_ifs <;> rfl
  have bytes : ∀ (chunk : Bytes) (c : Buffer),
      chunk.foldl (fun b x => b.makeRoom.put [x]) (c.retrieve n) =
        (chunk.foldl (fun b x => b.makeRoom.put [x]) c).retrieve n := by
    intro chunk
    induction chunk with
    | nil => exact fun _ => rfl
    | cons x xs ih =>
        intro c
        rw [List.foldl_cons, List.foldl_cons, room, show (c.makeRoom.retrieve n).put [x] =
          (c.makeRoom.put [x]).retrieve n from rfl, ih]
  rw [recv, room, bytes, recv]

theorem Wf.recvs (h : b.Wf) (hpos : 0 < b.data.length) (chunks : List Bytes) :
    Received b (b.recvs chunks) chunks.flatten := by
  induction chunks generalizing b with
  | nil => exact ⟨h, by simp [Buffer.recvs], rfl, le_rfl, le_rfl, rfl⟩
  | cons c cs ih =>
      have first := h.recv hpos c
      exact first.trans (ih first.wf (hpos.trans_le first.storage))

theorem recvs_snoc (chunks : List Bytes) (c : Bytes) :
    b.recvs (chunks ++ [c]) = (b.recvs chunks).recv c := by
  rw [recvs, List.foldl_append]
  rfl

end Buffer

namespace SimpleParser
open SmallRpc.Frame

variable {p q : SimpleParser} {s t u : Frame} {w x y c : Bytes} {last : Nat}
  {stage : SimpleParser → Except Fault (Flow SimpleParser)}
  {M : Machine UInt8 Frame ParseProtocolStatus} {b : Buffer} {ds : List Bytes}

/-- The buffer of a parser that has received `ds` and left `x` unread. -/
def Fed (b : Buffer) (ds : List Bytes) (x : Bytes) (buf : Buffer) : Prop :=
  buf = (b.recvs ds).retrieve (ds.flatten.length - x.length)

theorem Fed.recv (h : Fed b ds x p.buf) (c : Bytes) :
    Fed b (ds ++ [c]) (x ++ c) (p.buf.recv c) := by
  unfold Fed at h ⊢
  rw [h, Buffer.recv_retrieve, Buffer.recvs_snoc, List.flatten_append, List.flatten_singleton,
    List.length_append, List.length_append, Nat.add_sub_add_right]

/-- A finished parser shows the caller what the frame holds. -/
theorem Matches.decoded (h : Matches p s w) {bytes : Bytes} (hb : s.payload = some bytes) :
    p.ctx.toContext.decoded p.buf = s.decoded p.buf.rindex := by
  obtain ⟨start, hv, hle, hd⟩ := h.payload bytes hb
  have inside : start + bytes.length ≤ p.buf.data.length :=
    (hle.trans h.wf.order).trans h.wf.bound
  have str : p.ctx.payloadView.str p.buf = .ok bytes := by
    rw [hv]
    show (if start ≤ start + bytes.length then
      p.buf.copy start (start + bytes.length - start) else _) = _
    rw [if_pos (Nat.le_add_right _ _), Nat.add_sub_cancel_left, Buffer.copy, if_pos inside, hd]
  rw [Context.decoded, Frame.decoded, h.connType, h.rpcStatus, h.service, h.method, str, hb]
  rfl

/-- With nothing unread at the start, the read index counts the bytes consumed. -/
theorem Matches.rindex_eq (h : Matches q u y) (got : Buffer.Received b (b.recvs ds) ds.flatten)
    (hempty : b.unread = []) (same : q.buf.windex = (b.recvs ds).windex)
    (hy : y.length ≤ ds.flatten.length) :
    q.buf.rindex = b.rindex + (ds.flatten.length - y.length) := by
  have hlen := h.wf.unread_length
  have hall := got.wf.unread_length
  have ho := h.wf.order
  have hr := got.rindex
  rw [h.unread, same] at hlen
  rw [got.unread, hempty, List.nil_append] at hall
  have := got.wf.order
  rw [same] at ho
  omega

/-- A parser that has received `ds` and waits for more. -/
structure Waits (M : Machine UInt8 Frame ParseProtocolStatus) (last : Nat) (b : Buffer)
    (ds : List Bytes) (p : SimpleParser) (t : Frame) (x : Bytes) : Prop where
  drains : Drains M {} ds.flatten none t x
  unfinished : t.stage < last
  long : ¬ Short last t x
  here : Matches p t x
  storage : 0 < p.buf.data.length
  fed : Fed b ds x p.buf

theorem Waits.rest (h : Waits M last b ds p t x) {r : Option ParseProtocolStatus}
    (drains : Drains M {} (ds ++ [c]).flatten r u y) : Drains M t (x ++ c) r u y := by
  rw [List.flatten_append, List.flatten_singleton] at drains
  obtain ⟨r', u', y', k⟩ := Drains.total M t (x ++ c)
  obtain ⟨rfl, rfl, rfl⟩ := drains.unique (h.drains.resume k)
  exact k

theorem Waits.start (hlast : 0 < last) (wf : b.Wf) (storage : 0 < b.data.length)
    (hempty : b.unread = []) (hmore : M.stage {} [] = .more) :
    Waits M last b [] (fresh b) {} [] :=
  ⟨.more hmore, hlast, fun h => absurd h.2.2.1 (by simp),
    ⟨wf, hempty, rfl, rfl, rfl, rfl, rfl, nofun⟩, storage, rfl⟩

section
variable {M' : Machine UInt8 Frame ParseProtocolStatus}

theorem Waits.stop (imp : Implements stage M last) (wf : b.Wf) (storage : 0 < b.data.length)
    (hempty : b.unread = []) (h : Waits M' last b ds p t x) {o : ParseProtocolStatus}
    (rest : Drains M t (x ++ c) (some o) u y) :
    ∃ q, runStages stage (last - p.ctx.stage) (p.recv c) = .ok (o, q) ∧ (o = .success →
      q.ctx.toContext.decoded q.buf =
        u.decoded (b.rindex + ((ds ++ [c]).flatten.length - y.length))) := by
  obtain ⟨q, n, hq, adv, _, _, final⟩ := stages_stop imp (h.here.recv h.storage c) rest
  refine ⟨q, hq, fun ho => ?_⟩
  subst ho
  have here := final rfl
  obtain ⟨bytes, hb⟩ := rest.invariant
    (P := fun s => last ≤ s.stage → ∃ bytes, s.payload = some bytes)
    (fun hle => absurd hle (Nat.not_le.mpr h.unfinished)) (fun hv _ => imp.payload hv)
    (imp.success rest.stopped)
  have got := wf.recvs storage (ds ++ [c])
  have same : q.buf.windex = (b.recvs (ds ++ [c])).windex := by
    have hp : Fed b (ds ++ [c]) (x ++ c) (p.recv c).buf := h.fed.recv c
    rw [adv.buf, hp]
    rfl
  have hy : y.length ≤ (ds ++ [c]).flatten.length := by
    have h₁ := rest.suffix.length_le
    have h₂ := h.drains.suffix.length_le
    rw [List.length_append] at h₁
    rw [List.flatten_append, List.flatten_singleton, List.length_append]
    omega
  rw [here.decoded hb, here.rindex_eq got hempty same hy]

/-- Where the machine waits the call goes on from a parser in that place. -/
theorem Waits.reach (imp : Implements stage M last) (h : Waits M' last b ds p t x)
    (rest : Drains M t (x ++ c) none u y) :
    ∃ q, Matches q u y ∧ 0 < q.buf.data.length ∧ Fed b (ds ++ [c]) y q.buf ∧
      u.stage < last ∧ runStages stage (last - p.ctx.stage) (p.recv c) =
        runStages stage (last - q.ctx.stage) q := by
  obtain ⟨q, here, adv, hq⟩ := stages_reach imp (h.here.recv h.storage c) rest
  have got := h.here.wf.recv h.storage c
  refine ⟨q, here, ?_, ?_, ?_, hq⟩
  · rw [adv.buf]
    exact h.storage.trans_le got.storage
  · have hp : Fed b (ds ++ [c]) (x ++ c) (p.recv c).buf := h.fed.recv c
    have h₁ := rest.suffix.length_le
    have h₂ := h.drains.suffix.length_le
    rw [Fed, adv.buf, hp]
    simp only [Buffer.retrieve, Nat.add_assoc, List.flatten_append, List.flatten_singleton,
      List.length_append] at h₁ ⊢
    congr 2
    omega
  · by_contra hge
    have hv := rest.at_rest
    rw [imp.finished (by omega)] at hv
    cases hv

theorem Waits.wait (imp : Implements stage M last) (h : Waits M' last b ds p t x)
    (drains : Drains M' {} (ds ++ [c]).flatten none u y) (rest : Drains M t (x ++ c) none u y)
    (long : ¬ Short last u y) :
    ∃ q, runStages stage (last - p.ctx.stage) (p.recv c) = .ok (.noEnoughData, q) ∧
      Waits M' last b (ds ++ [c]) q u y := by
  obtain ⟨q, here, storage, fed, unfinished, hq⟩ := h.reach imp rest
  obtain ⟨q', hq', here', adv⟩ := stages_wait imp here (.more rest.at_rest) long
  rw [Nat.sub_self] at adv
  have same : q'.buf = q.buf := adv.buf
  exact ⟨q', hq.trans hq', drains, unfinished, long, here', by rw [same]; exact storage,
    by rw [same]; exact fed⟩

end

theorem Waits.forget (h : Waits M last b ds p t x) : Waits M last b ds ⟨p.ctx, p.buf, []⟩ t x := by
  obtain ⟨drains, unfinished, long, here, storage, fed⟩ := h
  obtain ⟨wf, unread, stage, connType, rpcStatus, service, method, payload⟩ := here
  exact ⟨drains, unfinished, long, ⟨wf, unread, stage, connType, rpcStatus, service, method,
    payload⟩, storage, fed⟩

theorem responses_track (wf : b.Wf) (storage : 0 < b.data.length) (hempty : b.unread = []) :
    Tracks Frame.response 3 responses (fresh b) (fun p => some (p.ctx.toContext.decoded p.buf))
      b.rindex (fun ds p => ∃ t x, Waits Frame.response 3 b ds p t x) (fun _ => False) where
  start := ⟨_, _, Waits.start (by omega) wf storage hempty rfl⟩
  conclusive := responseVerdict_conclusive
  waiting := fun ⟨t, x, h⟩ => ⟨t, x, h.drains⟩
  stop := fun ⟨_, _, h⟩ drains => by
    obtain ⟨q, hq, hobs⟩ := h.stop response_implements wf storage hempty (h.rest drains)
    exact ⟨q, hq, fun ho => congrArg some (hobs ho)⟩
  wait := fun ⟨_, _, h⟩ drains long => by
    obtain ⟨q, hq, hwait⟩ := h.wait response_implements drains (h.rest drains) long
    exact ⟨q, hq, _, _, hwait⟩
  escape := fun _ _ esc => esc.elim
  trip := fun ⟨_, _, h⟩ ⟨u, y, drains, short⟩ _ => by
    obtain ⟨q, here, _, _, _, hq⟩ := h.reach response_implements (h.rest drains)
    have hs : u.stage = 2 := by
      obtain ⟨h2, h3, _⟩ := short
      omega
    obtain ⟨q', hq', _⟩ := short_payload here short (by omega)
      (show responseStage q = _ by simp only [responseStage, here.stage, hs])
    exact Or.inr ⟨q', hq.trans hq'⟩

end SimpleParser

namespace SimpleProtocol
open SmallRpc.Frame SimpleParser

variable {s : Session} {t u : Frame} {w x y c : Bytes} {b : Buffer} {ds chunks : List Bytes}

def requests : Reader Session := ⟨fun s c => { s with buf := s.buf.recv c }, parseRequest⟩

/-- The request format as the protocol sees it before there is a context. -/
abbrev format : Machine UInt8 Frame ParseProtocolStatus := Frame.request .tryAnotherProtocol

/-- The stream ends in the middle of a short path. -/
def CutPath (w : Bytes) : Prop := ∃ t x, Drains format {} w none t x ∧ Short 4 t x ∧ t.stage = 2

/-- Between the path length and the end it declares the storage holds no slash. -/
def SlashFree (b : Buffer) (ds : List Bytes) : Prop :=
  (b.recvs ds).NoSlash (b.rindex + 12) (word (ds.flatten.drop 8))

/-- No prefix of the chunks ends in a short field; or the first that does ends in a
path, and no slash is in sight then or when the whole stream is in the buffer. -/
def CutsClean (b : Buffer) (chunks : List Bytes) : Prop :=
  ∀ k, CutShort format 4 (chunks.take k).flatten → ∃ j ≤ k,
    CutPath (chunks.take j).flatten ∧ SlashFree b (chunks.take j) ∧ SlashFree b [chunks.flatten]

/-- A session without a context has consumed nothing; with one it is past the magic. -/
inductive Opened (s : Session) : SimpleContext → Frame → Prop
  | unknown : s.ctx = none → Opened s {} {}
  | known {c : SimpleContext} {t : Frame} : s.ctx = some (.simple c) → 1 ≤ t.stage → Opened s c t

/-- A session that has received `ds` and waits for more. -/
def At (b : Buffer) (ds : List Bytes) (s : Session) : Prop :=
  ∃ ctx t x, Opened s ctx t ∧ Waits format 4 b ds ⟨ctx, s.buf, []⟩ t x

theorem resume_ok {ctx : SimpleContext} {buf : Buffer} {status : ParseProtocolStatus}
    {q : SimpleParser} (h : SimpleParser.parseRequest ⟨ctx, buf, []⟩ = .ok (status, q)) :
    resume ctx buf = .ok (status, ⟨some (.simple q.ctx), q.buf⟩) := by
  rw [resume, SimpleContext.parseRequest, h]
  rfl

theorem resume_fault {ctx : SimpleContext} {buf : Buffer} {f : Fault}
    (h : SimpleParser.parseRequest ⟨ctx, buf, []⟩ = .error f) : resume ctx buf = .error f := by
  rw [resume, SimpleContext.parseRequest, h]
  rfl

/-- What `parse_request` does with `w` unread: it asks for the first word, or for another
protocol, or it goes on inside a context. -/
theorem parseRequest_cases {ctx : SimpleContext} (opened : Opened s ctx t)
    (h : Matches ⟨ctx, s.buf, []⟩ t w) :
    (ctx = {} ∧ t = {} ∧ s.ctx = none ∧ format.stage t w = .more ∧
        parseRequest s = .ok (.noEnoughData, s)) ∨
      (format.stage t w = .stop .tryAnotherProtocol ∧
        parseRequest s = .ok (.tryAnotherProtocol, s)) ∨
      ((1 ≤ t.stage ∨ 4 ≤ w.length ∧ castInt (word w) = magicNum) ∧
        parseRequest s = resume ctx s.buf) := by
  cases opened with
  | known hs ht =>
      refine Or.inr (Or.inr ⟨Or.inl ht, ?_⟩)
      simp only [parseRequest, hs]
  | unknown hs =>
      have hr : s.buf.readable = w.length := h.readable
      have entered : parseRequest s = if s.buf.readable < 4 then .ok (.noEnoughData, s)
          else (do
            if (← s.buf.peekInt32) ≠ magicNum then return (.tryAnotherProtocol, s)
            resume {} s.buf) := by
        simp only [parseRequest, hs]
      rw [hr] at entered
      by_cases hw : w.length < 4
      · rw [if_pos hw] at entered
        exact Or.inl ⟨rfl, rfl, hs, if_pos hw, entered⟩
      have peek : s.buf.peekInt32 = .ok (castInt (word w)) := h.peekInt32 (by omega)
      rw [if_neg hw, peek] at entered
      by_cases hm : castInt (word w) = magicNum
      · refine Or.inr (Or.inr ⟨Or.inr ⟨by omega, hm⟩, ?_⟩)
        rw [entered]
        simp only [bind, Except.bind, hm, ne_eq, not_true_eq_false, if_false]
      · refine Or.inr (Or.inl ⟨?_, ?_⟩)
        · show magicVerdict .tryAnotherProtocol {} w = _
          rw [magicVerdict, if_neg hw, if_pos hm]
        · rw [entered]
          simp only [bind, Except.bind, hm, ne_eq, not_false_eq_true, if_true]
          rfl

theorem Opened.recv {ctx : SimpleContext} (h : Opened s ctx t) (buf : Buffer) :
    Opened { s with buf } ctx t := by
  cases h with
  | unknown hs => exact .unknown hs
  | known hs ht => exact .known hs ht

/-- The session at a short field: its parser, there, decides the call. -/
theorem At.short (h : At b ds s) (drains : Drains format {} (ds ++ [c]).flatten none u y)
    (short : Short 4 u y) : ∃ ctx q, Matches q u y ∧ Fed b (ds ++ [c]) y q.buf ∧
      parseRequest { s with buf := s.buf.recv c } = resume ctx (s.buf.recv c) ∧
      SimpleParser.parseRequest ⟨ctx, s.buf.recv c, []⟩ =
        runStages requestStage (4 - q.ctx.stage) q := by
  obtain ⟨ctx, t, x, opened, waits⟩ := h
  have rest := waits.rest drains
  have h2 := short.1
  rcases parseRequest_cases (opened.recv (s.buf.recv c)) (waits.here.recv waits.storage c) with
    ⟨_, rfl, _, hv, _⟩ | ⟨hv, _⟩ | ⟨known, hparse⟩
  · obtain ⟨_, rfl, _⟩ := rest.unique (.more hv)
    exact absurd h2 (by simp)
  · exact absurd (rest.unique (.stop hv)).1 (by simp)
  · obtain ⟨q, here, _, fed, _, hq⟩ := waits.reach request_implements (drains_agree rest known)
    exact ⟨ctx, q, here, fed, hparse, hq⟩

theorem noSlash_iff (wf : b.Wf) (storage : 0 < b.data.length) {q : SimpleParser}
    (drains : Drains format {} ds.flatten none u y) (hu : u.stage = 2) (fed : Fed b ds y q.buf) :
    q.buf.NoSlash (q.buf.rindex + 4) (word y) ↔ SlashFree b ds := by
  obtain ⟨h8, hy⟩ := (request_path_at drains hu).2.2.1 rfl
  have hr : q.buf.rindex = b.rindex + 8 := by
    rw [fed, hy]
    simp only [Buffer.retrieve_rindex, (wf.recvs storage ds).rindex, List.length_drop]
    omega
  rw [hr, SlashFree, ← hy, Nat.add_assoc, fed]
  rfl

theorem requests_track (wf : b.Wf) (storage : 0 < b.data.length) (hempty : b.unread = []) :
    Tracks format 4 requests ⟨none, b⟩ (fun s => s.ctx.map fun c => c.base.decoded s.buf)
      b.rindex (At b) (fun ds => CutPath ds.flatten ∧ SlashFree b ds) where
  start := ⟨{}, {}, [], .unknown rfl, Waits.start (M := format) (by omega) wf storage hempty rfl⟩
  conclusive := requestVerdict_conclusive (by simp)
  waiting := fun ⟨_, t, x, _, h⟩ => ⟨t, x, h.drains⟩
  stop {ds s c o u y} := fun ⟨ctx, t, x, opened, waits⟩ drains => by
    have rest := waits.rest drains
    rcases parseRequest_cases (opened.recv (s.buf.recv c)) (waits.here.recv waits.storage c) with
      ⟨_, _, _, hv, _⟩ | ⟨hv, hparse⟩ | ⟨known, hparse⟩
    · exact absurd (rest.unique (.more hv)).1 (by simp)
    · obtain ⟨ho, _⟩ := rest.unique (.stop hv)
      cases ho
      exact ⟨_, hparse, nofun⟩
    · obtain ⟨q, hq, hobs⟩ := waits.stop request_implements wf storage hempty
        (drains_agree rest known)
      exact ⟨_, hparse.trans (resume_ok hq), fun ho => congrArg some (hobs ho)⟩
  wait {ds s c u y} := fun ⟨ctx, t, x, opened, waits⟩ drains long => by
    have rest := waits.rest drains
    rcases parseRequest_cases (opened.recv (s.buf.recv c)) (waits.here.recv waits.storage c) with
      ⟨rfl, rfl, hs, hv, hparse⟩ | ⟨hv, _⟩ | ⟨known, hparse⟩
    · obtain ⟨_, rfl, rfl⟩ := rest.unique (.more hv)
      have got := waits.here.wf.recv waits.storage c
      exact ⟨_, hparse, {}, {}, _, .unknown hs, drains, by simp, long,
        waits.here.recv waits.storage c, waits.storage.trans_le got.storage, waits.fed.recv c⟩
    · exact absurd (rest.unique (.stop hv)).1 (by simp)
    · have rest' : Drains (Frame.request .error) t (x ++ c) none u y := drains_agree rest known
      obtain ⟨q, hq, done⟩ := waits.wait request_implements drains rest' long
      refine ⟨_, hparse.trans (resume_ok hq), q.ctx, u, y, .known rfl ?_, done.forget⟩
      exact drains_started rest' known
  escape {ds s c} := fun h _ ⟨⟨u, y, drains, short, hu⟩, free⟩ => by
    obtain ⟨ctx, q, here, fed, hparse, hq⟩ := h.short drains short
    obtain ⟨q', hq', _⟩ := short_path_error here short hu
      ((noSlash_iff wf storage drains hu fed).mpr free)
    exact ⟨_, hparse.trans (resume_ok (hq.trans hq'))⟩
  trip {ds s c} := fun h ⟨u, y, drains, short⟩ esc => by
    obtain ⟨ctx, q, here, fed, hparse, hq⟩ := h.short drains short
    rcases (by obtain ⟨h2, h4, _⟩ := short; omega : u.stage = 2 ∨ u.stage = 3) with hu | hu
    · have free : ¬ q.buf.NoSlash (q.buf.rindex + 4) (word y) := fun free =>
        esc ⟨⟨u, y, drains, short, hu⟩, (noSlash_iff wf storage drains hu fed).mp free⟩
      rcases short_path_overruns here short hu free with ⟨f, hf⟩ | ⟨q', hq', _⟩
      · exact Or.inl ⟨f, hparse.trans (resume_fault (hq.trans hf))⟩
      · exact Or.inr ⟨_, hparse.trans (resume_ok (hq.trans hq'))⟩
    · obtain ⟨q', hq', _⟩ := short_payload here short (by omega)
        (show requestStage q = _ by simp only [requestStage, here.stage, hu])
      exact Or.inr ⟨_, hparse.trans (resume_ok (hq.trans hq'))⟩

theorem slashFree_whole (wf : b.Wf) (storage : 0 < b.data.length) (hempty : b.unread = [])
    (hall : 12 + word (w.drop 8) ≤ w.length) :
    SlashFree b [w] ↔ firstMatch [slash] ((w.drop 12).take (word (w.drop 8))) = none := by
  have got := wf.recvs storage [w]
  have hlen := got.wf.unread_length
  have hb := got.wf.bound
  have hr := got.rindex
  have unread : (b.recvs [w]).unread = w := by
    rw [got.unread, hempty, List.nil_append, List.flatten_singleton]
  rw [unread] at hlen
  have window := got.wf.window (k := 12) (n := word (w.drop 8)) (by rw [unread]; exact hall)
  rw [unread, hr] at window
  rw [SlashFree, Buffer.NoSlash, List.flatten_singleton, window]
  exact and_iff_right (by omega)

/-- A stream whose path was cut short is turned down as a whole when no slash shows. -/
theorem rejects_whole (wf : b.Wf) (storage : 0 < b.data.length) (hempty : b.unread = [])
    {v : Bytes} (cut : CutPath w) :
    (∃ s, requests.feed ⟨none, b⟩ [w ++ v] = .ok (.error, s)) ↔ SlashFree b [w ++ v] := by
  have tracks := requests_track wf storage hempty
  obtain ⟨t, x, drains, ⟨_, _, h4, counted, missing⟩, ht⟩ := cut
  obtain ⟨h8, hx⟩ := (request_path_at drains ht).2.2.1 rfl
  have hx8 : (w ++ v).drop 8 = x ++ v := by rw [List.drop_append_of_le_length h8, hx]
  have hword : word (x ++ v) = word x := word_append h4 v
  have hlen : (w ++ v).length = 8 + (x ++ v).length := by
    rw [← hx8, List.length_drop, List.length_append]
    omega
  have long : x.length ≤ (x ++ v).length := by simp
  have hv : format.stage t (x ++ v) = pathVerdict t (x ++ v) := by
    show requestVerdict _ t (x ++ v) = _
    simp only [requestVerdict, ht]
  by_cases hmore : (x ++ v).length < 4 + word x
  · have stays : format.stage t (x ++ v) = .more := by
      rw [hv, pathVerdict, hword, if_pos (Or.inr hmore)]
    have all := drains.resume (.more stays)
    have still : Short 4 t (x ++ v) :=
      ⟨by omega, by omega, by omega, by rw [hword]; omega, by rw [hword]; exact hmore⟩
    rw [tracks.whole_error all, List.flatten_singleton]
    exact ⟨fun both => both.2.2, fun free => ⟨still, ⟨t, _, all, still, ht⟩, free⟩⟩
  · have hpath : ((w ++ v).drop 12).take (word ((w ++ v).drop 8)) =
        ((x ++ v).drop 4).take (word x) := by
      rw [hx8, hword, ← hx8, List.drop_drop]
    rw [slashFree_whole wf storage hempty (by rw [hx8, hword]; omega), hpath]
    have taken : pathVerdict t (x ++ v) = _ := if_neg (by rw [hword]; omega)
    rw [hword] at taken
    cases hf : firstMatch [slash] (((x ++ v).drop 4).take (word x)) with
    | none =>
        rw [hf] at taken
        exact iff_of_true (tracks.whole_stop (drains.resume (.stop (hv.trans taken)))) rfl
    | some tmp =>
        rw [hf] at taken
        refine iff_of_false ?_ (by simp)
        obtain ⟨r, u, y, rest⟩ := Drains.total format _ _
        have all := drains.resume (.advance (hv.trans taken) rest)
        cases r with
        | some o =>
            obtain ⟨s', hs'⟩ := tracks.whole_stop all
            rw [payload_succeeds rest le_rfl] at hs'
            rw [hs']
            simp
        | none =>
            rw [tracks.whole_error all, List.flatten_singleton]
            rintro ⟨_, ⟨t', x', all', _, ht'⟩, _⟩
            obtain ⟨_, rfl, _⟩ := all.unique all'
            exact absurd (request_path_at rest ht').2.2.2 (by simp)

/-- How a stream is cut makes no difference to either parser exactly if its cuts are
clean: a response must not be cut in a short field at all. -/
theorem fragmentation_iff (wf : b.Wf) (storage : 0 < b.data.length) (hempty : b.unread = [])
    (chunks : List Bytes) :
    (FragmentFree format requests ⟨none, b⟩ (fun s => s.ctx.map fun c => c.base.decoded s.buf)
      chunks ↔ CutsClean b chunks) ∧
    (FragmentFree Frame.response responses (fresh b)
      (fun p => some (p.ctx.toContext.decoded p.buf)) chunks ↔
        ∀ k, ¬ CutShort Frame.response 3 (chunks.take k).flatten) := by
  constructor
  · rw [(requests_track wf storage hempty).fragmentFree_iff (fun w => SlashFree b [w])
      fun {ds v} _ esc => rejects_whole wf storage hempty esc.1]
    refine forall_congr' fun k => imp_congr_right fun _ => exists_congr fun j =>
      and_congr_right fun _ => ?_
    constructor
    · rintro ⟨_, ⟨cut, free⟩, whole⟩
      exact ⟨cut, free, whole⟩
    · rintro ⟨cut, free, whole⟩
      obtain ⟨t, x, drains, short, _⟩ := id cut
      exact ⟨⟨t, x, drains, short⟩, ⟨cut, free⟩, whole⟩
  · rw [(responses_track wf storage hempty).fragmentFree_iff (fun _ => True)
      fun _ esc => esc.elim]
    refine forall_congr' fun k => imp_congr_right fun _ => ?_
    simp

/-- A request cut in the middle of the magic number and of the payload. -/
def requestChunks : List Bytes :=
  [headOfRequest.take 2, headOfRequest.drop 2 ++ [1], [2, 3, 4]]

/-- A response with two bytes, cut in its status and in its payload length. -/
def responseChunks : List Bytes :=
  [[0x19, 0x95, 0x10, 0x28, 0, 0, 0, 0, 0, 0], [0, 0, 0, 0, 0], [2, 104, 105]]

theorem cut_messages_fragmentFree_iff :
    (FragmentFree format requests ⟨none, Buffer.ofSize 64⟩
        (fun s => s.ctx.map fun c => c.base.decoded s.buf) requestChunks ↔
      CutsClean (Buffer.ofSize 64) requestChunks) ∧
    (FragmentFree Frame.response responses (fresh (Buffer.ofSize 64))
        (fun p => some (p.ctx.toContext.decoded p.buf)) responseChunks ↔
      ∀ k, ¬ CutShort Frame.response 3 (responseChunks.take k).flatten) :=
  ⟨(fragmentation_iff (Buffer.ofSize_wf 64) (by decide) (Buffer.ofSize_unread 64) requestChunks).1,
    (fragmentation_iff (Buffer.ofSize_wf 64) (by decide) (Buffer.ofSize_unread 64) responseChunks).2⟩

/-- Cut right behind the payload length, the request is dispatched with four zeros. -/
theorem fragments_change_payload :
    ¬ ∀ b : Buffer, b.Wf → 0 < b.data.length → b.unread = [] → ∀ chunks : List Bytes,
      FragmentFree format requests ⟨none, b⟩ (fun s => s.ctx.map fun c => c.base.decoded s.buf)
          chunks ∧
        FragmentFree Frame.response responses (fresh b)
          (fun p => some (p.ctx.toContext.decoded p.buf)) chunks := by
  intro claim
  have free := (claim (Buffer.ofSize 64) (Buffer.ofSize_wf 64) (by decide)
    (Buffer.ofSize_unread 64) [headOfRequest, [1, 2, 3, 4]]).1
  have differs : ¬ SameOutcome (fun s : Session => s.ctx.map fun c => c.base.decoded s.buf)
      (requests.feed ⟨none, Buffer.ofSize 64⟩ [headOfRequest, [1, 2, 3, 4]])
      (requests.feed ⟨none, Buffer.ofSize 64⟩ [[headOfRequest, [1, 2, 3, 4]].flatten]) := by
    decide +kernel
  exact differs free.same

end SimpleProtocol
end SmallRpc
