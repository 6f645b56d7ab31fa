import SmallRpc.HttpParsing
import SmallRpc.SimpleContext

/-! Views outlive the storage that they were taken of. They are kept as indices, and no
operation but `clear` writes below the write index. -/
namespace SmallRpc

theorem map_ok {α β : Type} {x : Except Fault α} {f : α → β} {y : β} :
    f <$> x = .ok y ↔ ∃ a, x = .ok a ∧ f a = y := by
  cases x with
  | error e => simp [Functor.map, Except.map]
  | ok a => simp [Functor.map, Except.map]

/-- What a pass goes on or returns with. -/
def Flow.state {σ : Type} : Flow σ → σ
  | .ret _ s => s
  | .again s => s

/-- What every pass of a loop does to its state, the loop does. -/
theorem runStages_rel {σ : Type} {stage : σ → Except Fault (Flow σ)} {R : σ → σ → Prop}
    {k : Nat} {s t : σ} {status : ParseProtocolStatus} (h : runStages stage k s = .ok (status, t))
    (refl : ∀ s, R s s) (trans : ∀ s t u, R s t → R t u → R s u)
    (pass : ∀ s flow, stage s = .ok flow → R s flow.state) : R s t := by
  induction k generalizing s with
  | zero =>
      cases h
      exact refl _
  | succ k ih =>
      obtain ⟨flow, hflow, h⟩ := bind_ok.mp h
      have first := pass s flow hflow
      cases flow with
      | ret status u =>
          cases h
          exact first
      | again u => exact trans _ _ _ first (ih h)

namespace Buffer

/-- The operations on a buffer, `clear` apart; an integer is appended as its bytes. -/
inductive Change where
  | retrieve (n : Nat)
  | read (r : ReadResult)
  | append (mem : Bytes)
  | write (r₁ r₂ : WriteResult)
  | appendExtra (extra : Bytes)
  deriving DecidableEq, Repr

def apply (b : Buffer) : Change → Except Fault Buffer
  | .retrieve n => .ok (b.retrieve n)
  | .read r => (·.2) <$> b.readFd r
  | .append mem => b.append mem
  | .write r₁ r₂ => (·.2.1) <$> b.writeFd r₁ r₂
  | .appendExtra extra => .ok (b.appendExtra extra)

/-- Where a sequence of operations leads, if all of them return. -/
def applyAll (b : Buffer) (ops : List Change) : Except Fault Buffer := ops.foldlM apply b

/-- What lies below the write index of `b` is the same in `b'`. -/
structure Extends (b b' : Buffer) : Prop where
  windex : b.windex ≤ b'.windex
  bound : b'.windex ≤ b'.data.length
  kept : b'.data.take b.windex = b.data.take b.windex

variable {b b' c : Buffer} {bs mem : Bytes} {op : Change} {ops : List Change} {start n : Nat}
  {r : ReadResult} {r₁ r₂ : WriteResult}

theorem Extends.of_data (bound : b.windex ≤ b.data.length) (data : b'.data = b.data)
    (windex : b'.windex = b.windex) : Extends b b' :=
  ⟨windex.ge, by rw [windex, data]; exact bound, by rw [data]⟩

theorem Extends.trans (h : Extends b b') (k : Extends b' c) : Extends b c where
  windex := h.windex.trans k.windex
  bound := k.bound
  kept := by
    have kept := congrArg (List.take b.windex) k.kept
    rw [List.take_take, List.take_take, Nat.min_eq_left h.windex, h.kept] at kept
    exact kept

/-- A window below the write index reads the same. -/
theorem Extends.copy_eq (h : Extends b b') (bound : b.windex ≤ b.data.length)
    (below : start + n ≤ b.windex) :
    ∃ bytes, b.copy start n = .ok bytes ∧ b'.copy start n = .ok bytes := by
  have window : ∀ data : Bytes,
      (data.drop start).take n = ((data.take b.windex).drop start).take n := by
    intro data
    rw [List.drop_take, List.take_take, Nat.min_eq_left (by omega)]
  have inside : start + n ≤ b'.data.length := below.trans (h.windex.trans h.bound)
  refine ⟨(b.data.drop start).take n, if_pos (below.trans bound), ?_⟩
  rw [copy, if_pos inside, window b'.data, h.kept, ← window]

/-- Doubling the storage keeps what is in it. -/
theorem Extends.double (bound : b.windex ≤ b.data.length) : Extends b b.double where
  windex := le_rfl
  bound := by
    change b.windex ≤ (b.data ++ _).length
    rw [List.length_append]
    omega
  kept := List.take_append_of_le_length bound

/-- Bytes are put behind what is there. -/
theorem Extends.put (bound : b.windex ≤ b.data.length) : Extends b (b.put bs) where
  windex := Nat.le_add_right _ _
  bound := by
    change b.windex + bs.length ≤ (b.data.take b.windex ++ bs ++ _).length
    rw [List.length_append, List.length_append, List.length_take]
    omega
  kept := by
    change (b.data.take b.windex ++ bs ++ _).take b.windex = _
    rw [List.append_assoc, List.take_left' (List.length_take_of_le bound)]

theorem Extends.makeRoom (bound : b.windex ≤ b.data.length) : Extends b b.makeRoom := by
  unfold Buffer.makeRoom
  split_ifs
  · exact .double bound
  · exact .of_data bound rfl rfl

theorem Extends.readFd (bound : b.windex ≤ b.data.length) {t : Int}
    (h : b.readFd r = .ok (t, b')) : Extends b b' := by
  have room := Extends.makeRoom bound
  cases r with
  | data bs =>
      obtain ⟨_, rfl⟩ := Prod.mk.inj (Except.ok.inj h)
      exact room.trans (.put room.bound)
  | eof =>
      obtain ⟨_, rfl⟩ := Prod.mk.inj (Except.ok.inj h)
      exact room
  | again =>
      obtain ⟨_, rfl⟩ := Prod.mk.inj (Except.ok.inj h)
      exact room
  | failed => cases h

theorem Extends.append (bound : b.windex ≤ b.data.length) (h : b.append mem = .ok b') :
    Extends b b' := by
  obtain ⟨d, hd, _, _, rfl⟩ := append_ok h
  rcases hd with rfl | rfl
  · exact .put bound
  · have twice := Extends.double bound
    exact twice.trans (.put twice.bound)

/-- Writing to the socket moves the read index and the index into the extra segment. -/
theorem writeFd_storage {t : Int} {sent : List Piece} (h : b.writeFd r₁ r₂ = .ok (t, b', sent)) :
    b'.data = b.data ∧ b'.windex = b.windex := by
  have extra : ∀ {d : Buffer} {total : Int} {pieces : List Piece},
      d.writeExtra total pieces r₂ = .ok (t, b', sent) → b'.data = d.data ∧ b'.windex = d.windex := by
    intro d total pieces hx
    unfold writeExtra at hx
    split_ifs at hx
    · cases hx
      exact ⟨rfl, rfl⟩
    · cases r₂ <;> cases hx <;> exact ⟨rfl, rfl⟩
  simp only [writeFd] at h
  split_ifs at h
  · exact extra h
  · cases r₁ with
    | wrote n => exact extra (d := { b with rindex := b.rindex + n }) h
    | again =>
        cases h
        exact ⟨rfl, rfl⟩
    | epipe =>
        cases h
        exact ⟨rfl, rfl⟩
    | failed => cases h

theorem Extends.apply (bound : b.windex ≤ b.data.length) (h : b.apply op = .ok b') :
    Extends b b' := by
  cases op with
  | retrieve n =>
      obtain rfl := Except.ok.inj h
      exact .of_data bound rfl rfl
  | read r =>
      obtain ⟨⟨t, c⟩, hread, rfl⟩ := map_ok.mp h
      exact .readFd bound hread
  | append mem => exact .append bound h
  | write r₁ r₂ =>
      obtain ⟨⟨t, c, sent⟩, hwrite, rfl⟩ := map_ok.mp h
      obtain ⟨data, windex⟩ := writeFd_storage hwrite
      exact .of_data bound data windex
  | appendExtra extra =>
      obtain rfl := Except.ok.inj h
      exact .of_data bound rfl rfl

theorem Extends.applyAll (bound : b.windex ≤ b.data.length) (h : b.applyAll ops = .ok b') :
    Extends b b' := by
  induction ops generalizing b with
  | nil =>
      obtain rfl := Except.ok.inj h
      exact .of_data bound rfl rfl
  | cons op ops ih =>
      rw [Buffer.applyAll, List.foldlM_cons] at h
      obtain ⟨c, first, others⟩ := bind_ok.mp h
      have step := Extends.apply bound first
      exact step.trans (ih step.bound others)

end Buffer
namespace BufferView

/-- `begin <= end <= _rindex`. -/
def Behind (v : BufferView) (b : Buffer) : Prop := v.beginIdx ≤ v.endIdx ∧ v.endIdx ≤ b.rindex

/-- The view has its bytes in the one buffer and the same bytes in the other. -/
def SameIn (v : BufferView) (b b' : Buffer) : Prop :=
  ∃ bytes, v.str b = .ok bytes ∧ v.str b' = .ok bytes

variable {v : BufferView} {b b' : Buffer}

theorem Behind.mono (h : v.Behind b) (le : b.rindex ≤ b'.rindex) : v.Behind b' := ⟨h.1, h.2.trans le⟩

theorem Behind.inside (h : v.Behind b) (wf : b.Wf) : v.Inside b := ⟨h.1, h.2.trans wf.order⟩

theorem null_inside : null.Inside b := ⟨le_rfl, Nat.zero_le _⟩

theorem Inside.grown (h : v.Inside b) (le : b.windex ≤ b'.windex) : v.Inside b' :=
  ⟨h.1, h.2.trans le⟩

theorem ofLength_nat (start n : Nat) : ofLength start n = ⟨true, start, start + n⟩ := by
  rw [ofLength, shift, if_pos (Int.natCast_nonneg n)]
  rfl

/-- As long as nothing is cleared the view reads the same. -/
theorem Inside.same (h : v.Inside b) (wf : b.Wf) (grown : b.Extends b') : v.SameIn b b' := by
  unfold SameIn str
  split_ifs
  · exact grown.copy_eq wf.bound (by have := h.1; have := h.2; omega)
  · exact absurd h.1 (by assumption)
  · exact ⟨[], rfl, rfl⟩

end BufferView

namespace SimpleParser
open BufferView (Behind)

variable {p q : SimpleParser} {flow : Flow SimpleParser} {status : ParseProtocolStatus} {k n : Nat}

/-- What a pass does to the buffer: it consumes, and puts no view in front of the index. -/
structure Passed (p q : SimpleParser) : Prop where
  rindex : p.buf.rindex ≤ q.buf.rindex
  windex : q.buf.windex = p.buf.windex
  data : q.buf.data = p.buf.data
  view : q.ctx.payloadView = p.ctx.payloadView ∨ q.ctx.payloadView.Behind q.buf

theorem Passed.trans {r : SimpleParser} (h : Passed p q) (k : Passed q r) : Passed p r where
  rindex := h.rindex.trans k.rindex
  windex := k.windex.trans h.windex
  data := k.data.trans h.data
  view := by
    rcases k.view with same | new
    · rw [same]
      exact h.view.imp_right fun behind => behind.mono k.rindex
    · exact .inr new

/-- A pass that takes `n` bytes and leaves the view as it is. -/
theorem Passed.taken (buf : q.buf = p.buf.retrieve n)
    (view : q.ctx.payloadView = p.ctx.payloadView) : Passed p q where
  rindex := by
    rw [buf]
    exact Nat.le_add_right _ _
  windex := by rw [buf]; rfl
  data := by rw [buf]; rfl
  view := .inl view

theorem Passed.same (buf : q.buf = p.buf) (view : q.ctx.payloadView = p.ctx.payloadView) :
    Passed p q := .taken (n := 0) buf view

theorem stageMagic_passed (h : p.stageMagic = .ok flow) : Passed p flow.state := by
  unfold stageMagic at h
  split_ifs at h
  · cases h
    exact .same rfl rfl
  · obtain ⟨magic, _, h⟩ := bind_ok.mp h
    dsimp only at h
    split_ifs at h
    · cases h
      exact .same rfl rfl
    · cases h
      exact .taken (n := 4) rfl rfl

theorem stageConnType_passed (h : p.stageConnType = .ok flow) : Passed p flow.state := by
  unfold stageConnType at h
  split_ifs at h
  · cases h
    exact .same rfl rfl
  · obtain ⟨connType, _, h⟩ := bind_ok.mp h
    dsimp only at h
    split at h
    · cases h
      exact .same rfl rfl
    · cases h
      exact .taken (n := 4) rfl rfl

theorem stageStatus_passed (h : p.stageStatus = .ok flow) : Passed p flow.state := by
  unfold stageStatus at h
  split_ifs at h
  · cases h
    exact .same rfl rfl
  · obtain ⟨connType, _, h⟩ := bind_ok.mp h
    dsimp only at h
    split at h
    · cases h
      exact .same rfl rfl
    · obtain ⟨rpcStatus, _, h⟩ := bind_ok.mp h
      split at h
      · cases h
        exact .taken (n := 4) rfl rfl
      · cases h
        exact .taken (n := 4 + 4) rfl rfl

theorem takePath_passed (h : p.takePath k = .ok flow) : Passed p flow.state := by
  obtain ⟨found, _, h⟩ := bind_ok.mp h
  cases found with
  | none =>
      cases h
      exact .same rfl rfl
  | some tmp =>
      obtain ⟨service, _, h⟩ := bind_ok.mp h
      obtain ⟨method, _, h⟩ := bind_ok.mp h
      cases h
      exact .taken (n := k) rfl rfl

theorem stagePath_passed (h : p.stagePath = .ok flow) : Passed p flow.state := by
  unfold stagePath at h
  split_ifs at h
  · cases h
    exact .same rfl rfl
  · obtain ⟨pathLen, _, h⟩ := bind_ok.mp h
    dsimp only at h
    split_ifs at h
    · cases h
      exact .same rfl rfl
    · have first : Passed p ((p.look p.buf.rindex 4).retrieve 4) := .taken (n := 4) rfl rfl
      exact first.trans (takePath_passed h)

theorem stagePayload_passed (h : p.stagePayload k = .ok flow) : Passed p flow.state := by
  unfold stagePayload at h
  split_ifs at h
  · cases h
    exact .same rfl rfl
  · obtain ⟨payloadLen, _, h⟩ := bind_ok.mp h
    dsimp only at h
    split_ifs at h
    · cases h
      exact .same rfl rfl
    · cases h
      refine ⟨(Nat.le_add_right _ _).trans (Nat.le_add_right _ _), rfl, rfl, .inr ?_⟩
      change (BufferView.ofLength (p.buf.rindex + 4) payloadLen).Behind _
      rw [BufferView.ofLength_nat]
      exact ⟨Nat.le_add_right _ _, le_rfl⟩

theorem requestStage_passed (h : p.requestStage = .ok flow) : Passed p flow.state := by
  unfold requestStage at h
  split at h
  · exact stageMagic_passed h
  · exact stageConnType_passed h
  · exact stagePath_passed h
  · exact stagePayload_passed h
  · cases h
    exact .same rfl rfl

theorem responseStage_passed (h : p.responseStage = .ok flow) : Passed p flow.state := by
  unfold responseStage at h
  split at h
  · exact stageMagic_passed h
  · exact stageStatus_passed h
  · exact stagePayload_passed h
  · cases h
    exact .same rfl rfl

theorem parse_passed (h : p.parseRequest = .ok (status, q) ∨ p.parseResponse = .ok (status, q)) :
    Passed p q := by
  rcases h with h | h
  · exact runStages_rel h (fun _ => .same rfl rfl) (fun _ _ _ h k => h.trans k)
      fun _ _ => requestStage_passed
  · exact runStages_rel h (fun _ => .same rfl rfl) (fun _ _ _ h k => h.trans k)
      fun _ _ => responseStage_passed

/-- What happens to a context and its buffer: bytes come in and are consumed, and the
stream is parsed on. The indices stay in order. -/
inductive Step (p : SimpleParser) : SimpleParser → Prop
  | op {o : Buffer.Change} {b : Buffer} : p.buf.apply o = .ok b → b.Wf → Step p { p with buf := b }
  | parse {status : ParseProtocolStatus} {q : SimpleParser} :
      p.parseRequest = .ok (status, q) ∨ p.parseResponse = .ok (status, q) → q.buf.Wf → Step p q

/-- The payload view lies inside the buffer. -/
structure Views (p : SimpleParser) : Prop where
  wf : p.buf.Wf
  payload : p.ctx.payloadView.Inside p.buf

theorem Step.views (h : Step p q) (views : p.Views) : q.Views ∧ p.buf.Extends q.buf := by
  cases h with
  | op applied wf =>
      have grown := Buffer.Extends.apply views.wf.bound applied
      exact ⟨⟨wf, views.payload.grown grown.windex⟩, grown⟩
  | parse parsed wf =>
      have passed := parse_passed parsed
      refine ⟨⟨wf, ?_⟩, .of_data views.wf.bound passed.data passed.windex⟩
      rcases passed.view with same | new
      · rw [same]
        exact views.payload.grown passed.windex.ge
      · exact new.inside wf

theorem run_views (h : Relation.ReflTransGen Step p q) (views : p.Views) :
    q.Views ∧ p.buf.Extends q.buf := by
  induction h with
  | refl => exact ⟨views, .of_data views.wf.bound rfl rfl⟩
  | tail _ step ih =>
      obtain ⟨later, grown⟩ := step.views ih.1
      exact ⟨later, ih.2.trans grown⟩

/-- A context before its first call. -/
structure Fresh (p : SimpleParser) : Prop where
  wf : p.buf.Wf
  payload : p.ctx.payloadView = .null

theorem Fresh.views (h : p.Fresh) : p.Views := by
  refine ⟨h.wf, ?_⟩
  rw [h.payload]
  exact BufferView.null_inside

end SimpleParser

namespace HTTPParser

variable {p q r : HTTPParser} {flow : Flow HTTPParser} {status : ParseProtocolStatus} {k n : Nat}

/-- What a parser of lines does: it consumes, and records no line but one it has consumed. -/
structure Scanned (p q : HTTPParser) : Prop where
  rindex : p.buf.rindex ≤ q.buf.rindex
  windex : q.buf.windex = p.buf.windex
  data : q.buf.data = p.buf.data
  line : q.ctx.requestLine = p.ctx.requestLine ∨ q.ctx.requestLine.Behind q.buf
  payload : q.ctx.payloadView = p.ctx.payloadView
  stage : q.ctx.stage = p.ctx.stage

theorem Scanned.trans (h : Scanned p q) (k : Scanned q r) : Scanned p r where
  rindex := h.rindex.trans k.rindex
  windex := k.windex.trans h.windex
  data := k.data.trans h.data
  line := by
    rcases k.line with same | new
    · rw [same]
      exact h.line.imp_right fun behind => behind.mono k.rindex
    · exact .inr new
  payload := k.payload.trans h.payload
  stage := k.stage.trans h.stage

/-- A line is taken without a trace in the views. -/
theorem Scanned.taken {c : HTTPContext} (line : c.requestLine = p.ctx.requestLine)
    (payload : c.payloadView = p.ctx.payloadView) (stage : c.stage = p.ctx.stage) :
    Scanned p { ctx := c, buf := p.buf.retrieve n } :=
  ⟨Nat.le_add_right _ _, rfl, rfl, .inl line, payload, stage⟩

theorem Scanned.refl (p : HTTPParser) : Scanned p p := .taken (n := 0) rfl rfl rfl

/-- A line is taken, and recorded as the request line. -/
theorem Scanned.recorded {c : HTTPContext} (line : c.requestLine = .ofLength p.buf.rindex n)
    (payload : c.payloadView = p.ctx.payloadView) (stage : c.stage = p.ctx.stage) :
    Scanned p { ctx := c, buf := p.buf.retrieve (n + 2) } where
  rindex := Nat.le_add_right _ _
  windex := rfl
  data := rfl
  line := by
    refine .inr ?_
    rw [line, BufferView.ofLength_nat]
    exact ⟨Nat.le_add_right _ _, Nat.le_add_right _ 2⟩
  payload := payload
  stage := stage

/-- The target of the request changes only the names of the service and the method. -/
theorem takeService_ok {url tmp : Nat} (h : p.takeService url tmp = .ok q) :
    q.buf = p.buf ∧ q.ctx.requestLine = p.ctx.requestLine ∧
      q.ctx.payloadView = p.ctx.payloadView ∧ q.ctx.stage = p.ctx.stage := by
  obtain ⟨found, _, h⟩ := bind_ok.mp h
  cases found with
  | none =>
      cases h
      exact ⟨rfl, rfl, rfl, rfl⟩
  | some tmp2 =>
      obtain ⟨service, _, h⟩ := bind_ok.mp h
      obtain ⟨method, _, h⟩ := bind_ok.mp h
      cases h
      exact ⟨rfl, rfl, rfl, rfl⟩

theorem parseUrl_scanned {offset : Nat} (h : p.parseUrl n offset = .ok (status, q)) :
    Scanned p q := by
  have failed : ∀ {r : HTTPParser}, Scanned p r →
      Except.ok (ε := Fault) (ParseProtocolStatus.error, r) = .ok (status, q) → Scanned p q := by
    intro r scanned h
    cases h
    exact scanned
  obtain ⟨space, _, h⟩ := bind_ok.mp h
  split_ifs at h
  · exact failed (.refl p) h
  obtain ⟨found, _, h⟩ := bind_ok.mp h
  cases found with
  | none => exact failed (.refl p) h
  | some tmp =>
      simp only at h
      split_ifs at h
      · exact failed (.refl p) h
      obtain ⟨front, _, h⟩ := bind_ok.mp h
      split_ifs at h
      · exact failed (.refl p) h
      obtain ⟨r, target, h⟩ := bind_ok.mp h
      obtain ⟨later, _, h⟩ := bind_ok.mp h
      obtain ⟨buf, line, payload, stage⟩ := takeService_ok target
      split_ifs at h
      · refine failed ⟨?_, ?_, ?_, .inl line, payload, stage⟩ h
        · rw [buf]
        · rw [buf]
        · rw [buf]
      · cases h
        change Scanned p { ctx := _, buf := r.buf.retrieve (n + 2) }
        rw [buf]
        exact .recorded rfl payload stage

theorem parseRequestLine_scanned (h : p.parseRequestLine = .ok (status, q)) : Scanned p q := by
  obtain ⟨found, _, h⟩ := bind_ok.mp h
  cases found with
  | inl o =>
      cases h
      exact .refl p
  | inr n =>
      obtain ⟨method, _, h⟩ := bind_ok.mp h
      have named : ∀ {m}, Scanned p { p with ctx := { p.ctx with httpMethod := m } } :=
        .taken (n := 0) rfl rfl rfl
      dsimp only at h
      split_ifs at h
      · cases h
        exact named
      · exact named.trans (parseUrl_scanned h)

theorem parseResponseLine_scanned (h : p.parseResponseLine = .ok (status, q)) :
    Scanned p q := by
  obtain ⟨found, _, h⟩ := bind_ok.mp h
  cases found with
  | inl o =>
      cases h
      exact .refl p
  | inr n =>
      cases h
      exact .recorded rfl rfl rfl

/-- A header is recorded in three fields. -/
theorem addHeader_ctx {c d : HTTPContext} {key value : Bytes} (h : c.addHeader key value = .ok d) :
    d = { c with bodySize := d.bodySize, connType := d.connType, headers := d.headers } := by
  rcases addHeader_eq c key value with same | ⟨_, _, added, _⟩ | thrown
  · obtain rfl := Except.ok.inj (same.symm.trans h)
    rfl
  · obtain rfl := Except.ok.inj (added.symm.trans h)
    rfl
  · rw [thrown] at h
    cases h

/-- A pass of the header loop takes a line, and records what is in it. -/
theorem headerLine_ctx (h : p.headerLine = .ok flow) :
    (∃ n, flow.state.buf = p.buf.retrieve n) ∧ flow.state.ctx = { p.ctx with
      bodySize := flow.state.ctx.bodySize, connType := flow.state.ctx.connType,
      headers := flow.state.ctx.headers } := by
  obtain ⟨found, _, h⟩ := bind_ok.mp h
  match found with
  | .inl o =>
      cases h
      exact ⟨⟨0, rfl⟩, rfl⟩
  | .inr 0 =>
      cases h
      exact ⟨⟨2, rfl⟩, rfl⟩
  | .inr (n + 1) =>
      obtain ⟨colon, _, h⟩ := bind_ok.mp h
      match colon with
      | none =>
          cases h
          exact ⟨⟨0, rfl⟩, rfl⟩
      | some 0 =>
          cases h
          exact ⟨⟨0, rfl⟩, rfl⟩
      | some (tmp + 1) =>
          obtain ⟨key, _, h⟩ := bind_ok.mp h
          obtain ⟨value, _, h⟩ := bind_ok.mp h
          obtain ⟨ctx, added, h⟩ := bind_ok.mp h
          cases h
          exact ⟨⟨n + 1 + 2, rfl⟩, addHeader_ctx added⟩

/-- So does the loop. -/
theorem headerLines_ctx (h : headerLines k p = .ok (status, q)) :
    (∃ n, q.buf = p.buf.retrieve n) ∧ q.ctx = { p.ctx with
      bodySize := q.ctx.bodySize, connType := q.ctx.connType, headers := q.ctx.headers } := by
  induction k generalizing p with
  | zero => cases h
  | succ k ih =>
      obtain ⟨flow, pass, h⟩ := bind_ok.mp h
      have first := headerLine_ctx pass
      cases flow with
      | ret o r =>
          cases h
          exact first
      | again r =>
          obtain ⟨⟨n, buf⟩, ctx⟩ := first
          obtain ⟨⟨m, buf'⟩, ctx'⟩ := ih h
          change r.buf = _ at buf
          change r.ctx = _ at ctx
          refine ⟨⟨n + m, ?_⟩, ?_⟩
          · rw [buf', buf, Buffer.retrieve, Buffer.retrieve, Buffer.retrieve, Nat.add_assoc]
          · rw [ctx', ctx]

theorem headerLines_scanned (h : headerLines k p = .ok (status, q)) : Scanned p q := by
  obtain ⟨⟨n, buf⟩, ctx⟩ := headerLines_ctx h
  obtain ⟨ctx', buf'⟩ := q
  cases buf
  change ctx' = _ at ctx
  rw [ctx]
  exact .taken rfl rfl rfl

/-- The views of a context lie inside its buffer. The payload of a context that has been
parsed does unless its length is negative. -/
structure Views (p : HTTPParser) : Prop where
  wf : p.buf.Wf
  line : p.ctx.requestLine.Inside p.buf
  early : p.ctx.stage < 3 → p.ctx.payloadView = .null
  payload : 0 ≤ p.ctx.bodySize → p.ctx.payloadView.Inside p.buf

/-- What a pass does to the buffer and the views. -/
structure Passed (p q : HTTPParser) : Prop where
  rindex : p.buf.rindex ≤ q.buf.rindex
  windex : q.buf.windex = p.buf.windex
  data : q.buf.data = p.buf.data
  views : q.buf.Wf → p.Views → q.Views

theorem Passed.wf (h : Passed p q) (wf : q.buf.Wf) : p.buf.Wf where
  order := h.rindex.trans (wf.order.trans h.windex.le)
  bound := by rw [← h.windex, ← h.data]; exact wf.bound

theorem Passed.refl (p : HTTPParser) : Passed p p := ⟨le_rfl, rfl, rfl, fun _ => id⟩

theorem Passed.trans (h : Passed p q) (k : Passed q r) : Passed p r where
  rindex := h.rindex.trans k.rindex
  windex := k.windex.trans h.windex
  data := k.data.trans h.data
  views wf views := k.views wf (h.views (k.wf wf) views)

/-- The parsers of lines, after which the stage may be counted up. -/
theorem Scanned.passed (h : Scanned p q) (early : p.ctx.stage < 2) {c : HTTPContext}
    (line : c.requestLine = q.ctx.requestLine) (payload : c.payloadView = q.ctx.payloadView) :
    Passed p { q with ctx := c } where
  rindex := h.rindex
  windex := h.windex
  data := h.data
  views wf views := by
    have none : c.payloadView = .null := by
      rw [payload, h.payload]
      exact views.early (by omega)
    refine ⟨wf, ?_, fun _ => none, fun _ => ?_⟩
    · change c.requestLine.Inside q.buf
      rw [line]
      rcases h.line with same | new
      · rw [same]
        exact ⟨views.line.1, views.line.2.trans h.windex.ge⟩
      · exact new.inside wf
    · change c.payloadView.Inside q.buf
      rw [none]
      exact BufferView.null_inside

theorem Scanned.advanced (h : Scanned p q) (early : p.ctx.stage < 2) :
    Passed p (advance (status, q)).state := by
  cases status <;> exact h.passed early rfl rfl

/-- The body is there if its length, as an `int`, is not larger than what is unread. -/
theorem body_inside {b : Buffer} {size : Int} (wf : b.Wf) (enough : size ≤ castInt b.readable)
    (nonneg : 0 ≤ size) : (BufferView.ofLength b.rindex size).Inside b := by
  have unread := castInt_le b.readable
  rw [wf.readable_eq, wf.unread_length] at unread enough
  have order := wf.order
  obtain ⟨n, known⟩ := Int.eq_ofNat_of_zero_le nonneg
  rw [known, BufferView.ofLength_nat]
  refine ⟨Nat.le_add_right _ _, ?_⟩
  change b.rindex + n ≤ b.windex
  omega

theorem parseBody_passed (early : p.ctx.stage = 2) : Passed p (advance p.parseBody).state := by
  unfold parseBody
  split_ifs with enough
  · refine ⟨le_rfl, rfl, rfl, fun wf views => ⟨wf, views.line, fun h => ?_, ?_⟩⟩
    · change p.ctx.stage + 1 < 3 at h
      omega
    · exact body_inside wf enough
  · exact .refl p

theorem requestStage_passed (h : p.requestStage = .ok flow) : Passed p flow.state := by
  unfold requestStage at h
  split at h
  · obtain ⟨⟨o, q⟩, line, rfl⟩ := map_ok.mp h
    exact (parseRequestLine_scanned line).advanced (by omega)
  · obtain ⟨⟨o, q⟩, line, rfl⟩ := map_ok.mp h
    exact (headerLines_scanned line).advanced (by omega)
  · cases h
    exact parseBody_passed (by assumption)
  · cases h
    exact .refl p

theorem responseStage_passed (h : p.responseStage = .ok flow) : Passed p flow.state := by
  unfold responseStage at h
  split at h
  · obtain ⟨⟨o, q⟩, line, rfl⟩ := map_ok.mp h
    exact (parseResponseLine_scanned line).advanced (by omega)
  · obtain ⟨⟨o, q⟩, line, rfl⟩ := map_ok.mp h
    exact (headerLines_scanned line).advanced (by omega)
  · cases h
    exact parseBody_passed (by assumption)
  · cases h
    exact .refl p

theorem parse_passed (h : p.parseRequest = .ok (status, q) ∨ p.parseResponse = .ok (status, q)) :
    Passed p q := by
  rcases h with h | h
  · exact runStages_rel h .refl (fun _ _ _ h k => h.trans k) fun _ _ => requestStage_passed
  · exact runStages_rel h .refl (fun _ _ _ h k => h.trans k) fun _ _ => responseStage_passed

/-- What happens to a context and its buffer: bytes come in and are consumed, and the
stream is parsed on. The indices stay in order. -/
inductive Step (p : HTTPParser) : HTTPParser → Prop
  | op {o : Buffer.Change} {b : Buffer} : p.buf.apply o = .ok b → b.Wf → Step p { p with buf := b }
  | parse {status : ParseProtocolStatus} {q : HTTPParser} :
      p.parseRequest = .ok (status, q) ∨ p.parseResponse = .ok (status, q) → q.buf.Wf → Step p q

theorem Step.views (h : Step p q) (views : p.Views) : q.Views ∧ p.buf.Extends q.buf := by
  cases h with
  | op applied wf =>
      have grown := Buffer.Extends.apply views.wf.bound applied
      refine ⟨⟨wf, views.line.grown grown.windex, views.early, fun nonneg => ?_⟩, grown⟩
      exact (views.payload nonneg).grown grown.windex
  | parse parsed wf =>
      have passed := parse_passed parsed
      exact ⟨passed.views wf views, .of_data views.wf.bound passed.data passed.windex⟩

theorem run_views (h : Relation.ReflTransGen Step p q) (views : p.Views) :
    q.Views ∧ p.buf.Extends q.buf := by
  induction h with
  | refl => exact ⟨views, .of_data views.wf.bound rfl rfl⟩
  | tail _ step ih =>
      obtain ⟨later, grown⟩ := step.views ih.1
      exact ⟨later, ih.2.trans grown⟩

/-- A context before its first call. -/
structure Fresh (p : HTTPParser) : Prop where
  wf : p.buf.Wf
  line : p.ctx.requestLine = .null
  payload : p.ctx.payloadView = .null

theorem Fresh.views (h : p.Fresh) : p.Views := by
  refine ⟨h.wf, ?_, fun _ => h.payload, fun _ => ?_⟩
  · rw [h.line]
    exact BufferView.null_inside
  · rw [h.payload]
    exact BufferView.null_inside

end HTTPParser

open Relation (ReflTransGen)

/-- A view inside a buffer reads the same whatever is done to the buffer, and so do the
views of a context that are taken anywhere in a run, for the rest of that run. -/
theorem views_stable :
    (∀ (b b' : Buffer) (ops : List Buffer.Change) (v : BufferView), b.Wf → v.Inside b →
      b.applyAll ops = .ok b' → v.SameIn b b') ∧
    (∀ s p q : HTTPParser, s.Fresh → ReflTransGen HTTPParser.Step s p →
      ReflTransGen HTTPParser.Step p q → p.ctx.requestLine.SameIn p.buf q.buf ∧
        (0 ≤ p.ctx.bodySize → p.ctx.payloadView.SameIn p.buf q.buf)) ∧
    (∀ s p q : SimpleParser, s.Fresh → ReflTransGen SimpleParser.Step s p →
      ReflTransGen SimpleParser.Step p q → p.ctx.payloadView.SameIn p.buf q.buf) := by
  refine ⟨?_, ?_, ?_⟩
  · intro b b' ops v wf inside applied
    exact inside.same wf (.applyAll wf.bound applied)
  · intro s p q fresh before after
    have views := (HTTPParser.run_views before fresh.views).1
    have grown := (HTTPParser.run_views after views).2
    exact ⟨views.line.same views.wf grown, fun nonneg => (views.payload nonneg).same views.wf grown⟩
  · intro s p q fresh before after
    have views := (SimpleParser.run_views before fresh.views).1
    exact views.payload.same views.wf (SimpleParser.run_views after views).2

/-- A reply to each protocol, in a buffer that is full with it. -/
def httpReply : HTTPParser :=
  ⟨{}, (Buffer.ofSize 40).put (ascii "HTTP/1.1 200 OK\r\nContent-Length: 2\r\n\r\nhi")⟩

def simpleReply : SimpleParser :=
  ⟨{}, (Buffer.ofSize 18).put (BigEndian.encode 4 0x19951028 ++ BigEndian.encode 8 0 ++
    BigEndian.encode 4 2 ++ ascii "hi"), []⟩

/-- A context whose stream has been parsed. -/
def parsed {σ : Type} (parse : σ → Except Fault (ParseProtocolStatus × σ)) (p : σ) : σ :=
  (parse p).toOption.elim p (·.2)

def httpParsed : HTTPParser := parsed HTTPParser.parseResponse httpReply

def simpleParsed : SimpleParser := parsed SimpleParser.parseResponse simpleReply

/-- One more byte comes in, and the storage is doubled for it. -/
theorem views_stable_replies :
    BufferView.SameIn ⟨true, 0, 8⟩ httpReply.buf (httpReply.buf.double.put [33]) ∧
      (httpParsed.ctx.requestLine.SameIn httpParsed.buf (httpParsed.buf.double.put [33]) ∧
        httpParsed.ctx.payloadView.SameIn httpParsed.buf (httpParsed.buf.double.put [33])) ∧
      simpleParsed.ctx.payloadView.SameIn simpleParsed.buf (simpleParsed.buf.double.put [33]) := by
  refine ⟨?_, ?_, ?_⟩
  · exact views_stable.1 _ _ [.read (.data [33])] _ (by decide +kernel) (by decide +kernel)
      (by decide +kernel)
  · have success : httpReply.parseResponse = .ok (.success, httpParsed) := by decide +kernel
    have grown : httpParsed.buf.apply (.read (.data [33])) =
        .ok (httpParsed.buf.double.put [33]) := by decide +kernel
    have same := views_stable.2.1 httpReply httpParsed _ ⟨by decide +kernel, rfl, rfl⟩
      (.single (.parse (.inr success) (by decide +kernel))) (.single (.op grown (by decide +kernel)))
    exact ⟨same.1, same.2 (by decide +kernel)⟩
  · have success : simpleReply.parseResponse = .ok (.success, simpleParsed) := by decide +kernel
    have grown : simpleParsed.buf.apply (.read (.data [33])) =
        .ok (simpleParsed.buf.double.put [33]) := by decide +kernel
    exact views_stable.2.2 simpleReply simpleParsed _ ⟨by decide +kernel, rfl⟩
      (.single (.parse (.inr success) (by decide +kernel))) (.single (.op grown (by decide +kernel)))

end SmallRpc
