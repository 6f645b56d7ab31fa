import SmallRpc.ClientMoves

/-! The first call on a client. Its thread waits for `connected` and then runs
`CallMethod`, while the loop's thread may still be in the callback that set it. Both write
the wanted events. -/
namespace SmallRpc.PbClient
open Runs
open TCPConnection (HeadLeaves ExtraLeaves)

/-- Nothing of the client's is queued or being run in the loop. -/
def LoopIdle (w : PbClient) : Prop := w.loop = [] ∧ w.queued = 0 ∧ w.phase.funcsLeft = 0

/-- The request of the first call was not packed, or is not all in the socket. -/
def Unwritten (w : PbClient) : Prop :=
  w.packed = none ∨ w.conn.wbuf.readable ≠ 0 ∨ w.conn.wbuf.extraable ≠ 0

/-- One `CallMethod`, after `connected` has answered `true`. -/
def FirstCall (w : PbClient) : ClientMove → Prop
  | .call _ => w.conn.connected = true ∧ w.issued = 0
  | .event _ _ _ chain => chain = none
  | _ => True

/-- The loop is about to reset the wanted events, or has chosen to deregister the client
and not yet noted it. -/
def Resetting (w : PbClient) : Prop :=
  .setEvent .none ∈ w.loop ∨ .loadEvents .del ∈ w.loop ∨ .epollCtl .del .none ∈ w.loop ∨
    (.setSevent ∈ w.loop ∧ w.registered = none)

/-- The payload is not too long, `event = EPOLLOUT` does not meet a reset, and no write
takes the rest of the head without the rest of the payload. -/
def Unhindered (w : PbClient) : ClientMove → Prop
  | .app =>
    (w.app.head? = some (.setEvent .epollout) → ¬ w.Resetting) ∧
      (w.app.head? = some (.testPayload 0) →
        ∀ ctx ∈ w.conn.ctx, ctx.base.payload.length ≤ maxPayload)
  | .event events io _ _ => events.epollin = false → events.epollout = true →
      w.conn.connected = true → HeadLeaves w.conn.wbuf io.head → ExtraLeaves w.conn.wbuf io.extra
  | _ => True

instance (w : PbClient) : ∀ m, Decidable (FirstCall w m)
  | .call _ => inferInstanceAs (Decidable (_ ∧ _))
  | .event _ _ _ chain => inferInstanceAs (Decidable (chain = none))
  | .app => inferInstanceAs (Decidable True)
  | .loop => inferInstanceAs (Decidable True)
  | .quiet => inferInstanceAs (Decidable True)
  | .swap => inferInstanceAs (Decidable True)
  | .func => inferInstanceAs (Decidable True)
  | .poll => inferInstanceAs (Decidable True)

instance (w : PbClient) : Decidable w.Resetting := inferInstanceAs (Decidable (_ ∨ _ ∨ _ ∨ _))

instance (b : Buffer) (r : Buffer.WriteResult) : Decidable (HeadLeaves b r) :=
  inferInstanceAs (Decidable (_ ∨ _))

instance (b : Buffer) (r : Buffer.WriteResult) : Decidable (ExtraLeaves b r) :=
  inferInstanceAs (Decidable (_ ∨ _))

instance (w : PbClient) : ∀ m, Decidable (Unhindered w m)
  | .app => inferInstanceAs (Decidable (_ ∧ (_ → ∀ ctx ∈ w.conn.ctx, _)))
  | .event _ io _ _ => inferInstanceAs (Decidable (_ → _ → _ →
      HeadLeaves w.conn.wbuf io.head → ExtraLeaves w.conn.wbuf io.extra))
  | .call _ => inferInstanceAs (Decidable True)
  | .loop => inferInstanceAs (Decidable True)
  | .quiet => inferInstanceAs (Decidable True)
  | .swap => inferInstanceAs (Decidable True)
  | .func => inferInstanceAs (Decidable True)
  | .poll => inferInstanceAs (Decidable True)

/-- The client's channel before the first call wants to write: wanted and noted events,
what epoll has, whether the client is connected, the loop's statements, and the pending
functions. -/
inductive Connecting :
    Interest → Interest → Option Interest → Bool → List ClientStmt → Nat → Prop
  | queued : Connecting .epollout .none none false [] 1
  | adding {s : ClientStmt} : s ∈ [.updateChannel, .testSevent, .testAdd, .loadEvents .add,
      .epollCtl .add .epollout] → Connecting .epollout .none none false [s] 0
  | added : Connecting .epollout .none (some .epollout) false [.setSevent] 0
  | waiting : Connecting .epollout .epollout (some .epollout) false [] 0
  | answered {soError : Bool} :
      Connecting .epollout .epollout (some .epollout) false (clientConnCallback soError) 0
  | resets {b : Bool} :
      Connecting .epollout .epollout (some .epollout) b [.setEvent .none, .updateChannel] 0
  | removing {b : Bool} {s : ClientStmt} : s ∈ [.updateChannel, .testSevent, .testDel,
      .loadEvents .del, .epollCtl .del .none] →
      Connecting .none .epollout (some .epollout) b [s] 0
  | removed {b : Bool} : Connecting .none .epollout none b [.setSevent] 0
  | idle {b : Bool} : Connecting .none .none none b [] 0

/-- The channel while the call wants to write: noted events, what epoll has, the loop's
statements, the pending functions, and whether `add_func` is still to come. -/
inductive Sending : Interest → Option Interest → List ClientStmt → Nat → Bool → Prop
  | registered {k : Nat} {b : Bool} : Sending .epollout (some .epollout) [] k b
  | changing {s : ClientStmt} {k : Nat} {b : Bool} : s ∈ [.updateChannel, .testSevent, .testDel,
      .loadEvents .mod, .epollCtl .mod .epollout, .setSevent] →
      Sending .epollout (some .epollout) [s] k b
  | queued {k : Nat} {b : Bool} : 0 < k ∨ b = true → Sending .none none [] k b
  | adding {s : ClientStmt} {k : Nat} {b : Bool} : s ∈ [.updateChannel, .testSevent, .testAdd,
      .loadEvents .add, .epollCtl .add .epollout] → Sending .none none [s] k b
  | added {k : Nat} {b : Bool} : Sending .none (some .epollout) [.setSevent] k b

/-- What is left of the first `CallMethod` before it wants to write. -/
inductive Preparing (w : PbClient) : Prop
  | before : w.issued = 0 → w.app = [] → w.packed = none → Preparing w
  | fields {pre : List ClientStmt} : w.app = pre ++ [.testPayload 0] →
      (∀ s ∈ pre, s.prepares = true) → 0 < w.issued → w.packed = none → Preparing w
  | packs : w.app = sendRequest 0 → 0 < w.issued → w.packed = none → Preparing w
  | wants : w.app = [.setEvent .epollout, .addFunc] → 0 < w.issued → w.packed = some 0 →
      Preparing w

/-- Where the first call is. -/
inductive Stage (w : PbClient) : Prop
  | preparing : Preparing w → (0 < w.issued → w.conn.connected = true) →
      Connecting w.conn.event w.conn.sevent w.registered w.conn.connected w.loop w.pending → Stage w
  | sending {b : Bool} : 0 < w.issued → w.app = (if b then [.addFunc] else []) →
      w.packed = some 0 → w.conn.connected = true → w.conn.event = .epollout →
      Sending w.conn.sevent w.registered w.loop w.pending b → Stage w
  | written : 0 < w.issued → (w.app = [.addFunc] ∨ w.app = []) → w.packed = some 0 →
      w.conn.wbuf.readable = 0 → w.conn.wbuf.extraable = 0 →
      (∀ s ∈ w.loop, s.ofCall = false) → Stage w

variable {protocol : Protocol} {w w' : PbClient} {m : ClientMove} {s : ClientStmt}
  {rest stmts : List ClientStmt} {es : List (PbClient × ClientMove)}

/-- One statement of the loop, while the client connects. -/
theorem connecting_loop {pre : List ClientStmt} (hl : w.loop = s :: pre)
    (h : Connecting w.conn.event w.conn.sevent w.registered w.conn.connected w.loop w.pending)
    (run : w.exec protocol s = .ok (w', stmts)) :
    Connecting w'.conn.event w'.conn.sevent w'.registered w'.conn.connected (stmts ++ pre) w'.pending ∧
      w'.app = w.app ∧ w'.packed = w.packed ∧ w'.issued = w.issued ∧
      (w.conn.connected = true → w'.conn.connected = true) := by
  rw [hl] at h
  generalize he : w.conn.event = e at h
  generalize hse : w.conn.sevent = se at h
  generalize hr : w.registered = r at h
  generalize hb : w.conn.connected = b at h
  generalize hk : w.pending = k at h
  generalize hloop : s :: pre = loop at h
  -- the statement at the head of each stage, and the stage it leads to
  have keep : ∀ {next : List ClientStmt}, Connecting e se r b next k → Connecting w.conn.event
      w.conn.sevent w.registered w.conn.connected next w.pending := by
    rintro next stage
    rwa [he, hse, hr, hb, hk]
  cases h with
  | queued => cases hloop
  | waiting => cases hloop
  | idle => cases hloop
  | adding mem =>
      obtain ⟨rfl, rfl⟩ := List.cons.inj hloop
      simp only [List.mem_cons, List.not_mem_nil, or_false] at mem
      rcases mem with rfl | rfl | rfl | rfl | rfl
      · simp [exec, he, hse] at run
        obtain ⟨rfl, rfl⟩ := run
        exact ⟨keep (.adding (by simp)), rfl, rfl, rfl, hb.trans⟩
      · simp [exec, hse] at run
        obtain ⟨rfl, rfl⟩ := run
        exact ⟨keep (.adding (by simp)), rfl, rfl, rfl, hb.trans⟩
      · simp [exec, he] at run
        obtain ⟨rfl, rfl⟩ := run
        exact ⟨keep (.adding (by simp)), rfl, rfl, rfl, hb.trans⟩
      · simp [exec, he] at run
        obtain ⟨rfl, rfl⟩ := run
        exact ⟨keep (.adding (by simp)), rfl, rfl, rfl, hb.trans⟩
      · rw [exec, hr] at run
        cases run
        refine ⟨?_, rfl, rfl, rfl, hb.trans⟩
        change Connecting w.conn.event w.conn.sevent _ w.conn.connected _ w.pending
        rw [he, hse, hb, hk]
        exact .added
  | added =>
      obtain ⟨rfl, rfl⟩ := List.cons.inj hloop
      cases run
      refine ⟨?_, rfl, rfl, rfl, hb.trans⟩
      change Connecting w.conn.event w.conn.event w.registered w.conn.connected [] w.pending
      rw [he, hr, hb, hk]
      exact .waiting
  | @answered soError =>
      cases soError with
      | true =>
          obtain ⟨rfl, rfl⟩ := List.cons.inj hloop
          cases run
          refine ⟨?_, rfl, rfl, rfl, hb.trans⟩
          change Connecting .none w.conn.sevent w.registered w.conn.connected _ w.pending
          rw [hse, hr, hb, hk]
          exact .removing (by simp)
      | false =>
          obtain ⟨rfl, rfl⟩ := List.cons.inj hloop
          cases run
          refine ⟨?_, rfl, rfl, rfl, fun _ => rfl⟩
          change Connecting w.conn.event w.conn.sevent w.registered true _ w.pending
          rw [he, hse, hr, hk]
          exact .resets
  | resets =>
      obtain ⟨rfl, rfl⟩ := List.cons.inj hloop
      cases run
      refine ⟨?_, rfl, rfl, rfl, hb.trans⟩
      change Connecting .none w.conn.sevent w.registered w.conn.connected _ w.pending
      rw [hse, hr, hb, hk]
      exact .removing (by simp)
  | removing mem =>
      obtain ⟨rfl, rfl⟩ := List.cons.inj hloop
      simp only [List.mem_cons, List.not_mem_nil, or_false] at mem
      rcases mem with rfl | rfl | rfl | rfl | rfl
      · simp [exec, he, hse] at run
        obtain ⟨rfl, rfl⟩ := run
        exact ⟨keep (.removing (by simp)), rfl, rfl, rfl, hb.trans⟩
      · simp [exec, hse] at run
        obtain ⟨rfl, rfl⟩ := run
        exact ⟨keep (.removing (by simp)), rfl, rfl, rfl, hb.trans⟩
      · simp [exec, he] at run
        obtain ⟨rfl, rfl⟩ := run
        exact ⟨keep (.removing (by simp)), rfl, rfl, rfl, hb.trans⟩
      · simp [exec, he] at run
        obtain ⟨rfl, rfl⟩ := run
        exact ⟨keep (.removing (by simp)), rfl, rfl, rfl, hb.trans⟩
      · rw [exec, hr] at run
        cases run
        refine ⟨?_, rfl, rfl, rfl, hb.trans⟩
        change Connecting w.conn.event w.conn.sevent _ w.conn.connected _ w.pending
        rw [he, hse, hb, hk]
        exact .removed
  | removed =>
      obtain ⟨rfl, rfl⟩ := List.cons.inj hloop
      cases run
      refine ⟨?_, rfl, rfl, rfl, hb.trans⟩
      change Connecting w.conn.event w.conn.event w.registered w.conn.connected [] w.pending
      rw [he, hr, hb, hk]
      exact .idle

/-- One statement of the loop, while the call wants to write. -/
theorem sending_loop {pre : List ClientStmt} {b : Bool} (hl : w.loop = s :: pre)
    (he : w.conn.event = .epollout)
    (h : Sending w.conn.sevent w.registered w.loop w.pending b)
    (run : w.exec protocol s = .ok (w', stmts)) :
    Sending w'.conn.sevent w'.registered (stmts ++ pre) w'.pending b ∧ w'.conn.event = .epollout ∧
      w'.app = w.app ∧ w'.packed = w.packed ∧ w'.issued = w.issued ∧
      w'.conn.connected = w.conn.connected := by
  rw [hl] at h
  generalize hse : w.conn.sevent = se at h
  generalize hr : w.registered = r at h
  generalize hk : w.pending = k at h
  generalize hloop : s :: pre = loop at h
  have keep : ∀ {next : List ClientStmt}, Sending se r next k b →
      Sending w.conn.sevent w.registered next w.pending b := by
    rintro next stage
    rwa [hse, hr, hk]
  cases h with
  | registered => cases hloop
  | queued _ => cases hloop
  | changing mem =>
      obtain ⟨rfl, rfl⟩ := List.cons.inj hloop
      simp only [List.mem_cons, List.not_mem_nil, or_false] at mem
      rcases mem with rfl | rfl | rfl | rfl | rfl | rfl
      · simp [exec, he, hse] at run
        obtain ⟨rfl, rfl⟩ := run
        exact ⟨keep .registered, he, rfl, rfl, rfl, rfl⟩
      · simp [exec, hse] at run
        obtain ⟨rfl, rfl⟩ := run
        exact ⟨keep (.changing (by simp)), he, rfl, rfl, rfl, rfl⟩
      · simp [exec, he] at run
        obtain ⟨rfl, rfl⟩ := run
        exact ⟨keep (.changing (by simp)), he, rfl, rfl, rfl, rfl⟩
      · simp [exec, he] at run
        obtain ⟨rfl, rfl⟩ := run
        exact ⟨keep (.changing (by simp)), he, rfl, rfl, rfl, rfl⟩
      · rw [exec, hr] at run
        cases run
        refine ⟨?_, he, rfl, rfl, rfl, rfl⟩
        change Sending w.conn.sevent _ _ w.pending b
        rw [hse, hk]
        exact .changing (by simp)
      · cases run
        refine ⟨?_, he, rfl, rfl, rfl, rfl⟩
        change Sending w.conn.event w.registered _ w.pending b
        rw [he, hr, hk]
        exact .registered
  | adding mem =>
      obtain ⟨rfl, rfl⟩ := List.cons.inj hloop
      simp only [List.mem_cons, List.not_mem_nil, or_false] at mem
      rcases mem with rfl | rfl | rfl | rfl | rfl
      · simp [exec, he, hse] at run
        obtain ⟨rfl, rfl⟩ := run
        exact ⟨keep (.adding (by simp)), he, rfl, rfl, rfl, rfl⟩
      · simp [exec, hse] at run
        obtain ⟨rfl, rfl⟩ := run
        exact ⟨keep (.adding (by simp)), he, rfl, rfl, rfl, rfl⟩
      · simp [exec, he] at run
        obtain ⟨rfl, rfl⟩ := run
        exact ⟨keep (.adding (by simp)), he, rfl, rfl, rfl, rfl⟩
      · simp [exec, he] at run
        obtain ⟨rfl, rfl⟩ := run
        exact ⟨keep (.adding (by simp)), he, rfl, rfl, rfl, rfl⟩
      · rw [exec, hr] at run
        cases run
        refine ⟨?_, he, rfl, rfl, rfl, rfl⟩
        change Sending w.conn.sevent _ _ w.pending b
        rw [hse, hk]
        exact .added
  | added =>
      obtain ⟨rfl, rfl⟩ := List.cons.inj hloop
      cases run
      refine ⟨?_, he, rfl, rfl, rfl, rfl⟩
      change Sending w.conn.event w.registered _ w.pending b
      rw [he, hr, hk]
      exact .registered

/-- What wants to write has what it takes: epoll waits for the socket, or the loop is
still to be told so, by the functions pending or by `add_func`. -/
theorem Sending.quiet {se : Interest} {r : Option Interest} (h : Sending se r [] 0 false) :
    r = some .epollout := by
  cases h with
  | registered => rfl
  | queued more => simp at more

theorem Sending.addFunc {se : Interest} {r : Option Interest} {loop : List ClientStmt} {k : Nat}
    (h : Sending se r loop k true) : Sending se r loop (k + 1) false := by
  cases h with
  | registered => exact .registered
  | changing mem => exact .changing mem
  | queued _ => exact .queued (.inl k.succ_pos)
  | adding mem => exact .adding mem
  | added => exact .added

/-- The wanted events are written where no reset is on its way. -/
theorem Connecting.sending {e se : Interest} {r : Option Interest} {loop : List ClientStmt} {k : Nat}
    (h : Connecting e se r true loop k) (free : ¬ (.setEvent .none ∈ loop ∨ .loadEvents .del ∈ loop ∨
      .epollCtl .del .none ∈ loop ∨ (.setSevent ∈ loop ∧ r = none))) : Sending se r loop k true := by
  cases h with
  | resets => simp at free
  | @removing _ s mem =>
      simp only [List.mem_cons, List.not_mem_nil, or_false] at mem
      rcases mem with rfl | rfl | rfl | rfl | rfl
      · exact .changing (by simp)
      · exact .changing (by simp)
      · exact .changing (by simp)
      · simp at free
      · simp at free
  | removed => simp at free
  | idle => exact .queued (.inr rfl)

theorem stage_constructed {fd : Nat} {atOnce : Bool} : Stage (constructed fd atOnce) := by
  unfold constructed
  cases atOnce with
  | true => exact .preparing (.before rfl rfl rfl) (fun h => absurd h (lt_irrefl 0)) .idle
  | false => exact .preparing (.before rfl rfl rfl) (fun h => absurd h (lt_irrefl 0)) .queued

theorem Preparing.congr (h : Preparing w) (app : w'.app = w.app) (issued : w'.issued = w.issued)
    (packed : w'.packed = w.packed) : Preparing w' := by
  cases h with
  | before h₁ h₂ h₃ => exact .before (issued.trans h₁) (app.trans h₂) (packed.trans h₃)
  | fields h₁ h₂ h₃ h₄ => exact .fields (app.trans h₁) h₂ (issued ▸ h₃) (packed.trans h₄)
  | packs h₁ h₂ h₃ => exact .packs (app.trans h₁) (issued ▸ h₂) (packed.trans h₃)
  | wants h₁ h₂ h₃ => exact .wants (app.trans h₁) (issued ▸ h₂) (packed.trans h₃)

/-- A move of the loop between its callbacks. -/
theorem Stage.turn (h : Stage w) (conn : w'.conn = w.conn) (registered : w'.registered = w.registered)
    (app : w'.app = w.app) (issued : w'.issued = w.issued) (packed : w'.packed = w.packed)
    (loop : w'.loop = w.loop) (pending : w'.pending = w.pending) : Stage w' := by
  cases h with
  | preparing p c stage =>
      refine .preparing (p.congr app issued packed) (by rw [issued, conn]; exact c) ?_
      rwa [conn, registered, loop, pending]
  | sending pos ha hp hc he stage =>
      refine .sending (issued ▸ pos) (app.trans ha) (packed.trans hp) (by rw [conn]; exact hc)
        (by rw [conn]; exact he) ?_
      rwa [conn, registered, loop, pending]
  | written pos ha hp hr hx hl =>
      refine .written (issued ▸ pos) (by rw [app]; exact ha) (packed.trans hp) (by rw [conn]; exact hr)
        (by rw [conn]; exact hx) (by rw [loop]; exact hl)

theorem stage_app (h : Stage w) (clear : Unhindered w .app) (ha : w.app = s :: rest)
    (run : w.exec protocol s = .ok (w', stmts)) : Stage { w' with app := stmts ++ rest } := by
  obtain ⟨free, short⟩ := clear
  cases h with
  | preparing p c stage =>
      cases p with
      | before _ none _ =>
          rw [none] at ha
          cases ha
      | @fields pre happ hpre pos packed =>
          rw [happ] at ha short
          cases pre with
          | nil =>
              obtain ⟨rfl, rfl⟩ := List.cons.inj ha
              obtain ⟨rfl, ctx, hctx, rfl⟩ := exec_testPayload run
              rw [if_neg (not_lt.mpr (short rfl ctx hctx))]
              exact .preparing (.packs rfl pos packed) c stage
          | cons t pre =>
              obtain ⟨rfl, rfl⟩ := List.cons.inj ha
              obtain ⟨first, others⟩ := List.forall_mem_cons.mp hpre
              obtain ⟨rfl, same⟩ := exec_prepares first run
              refine .preparing (.fields rfl others (same.issued ▸ pos) (same.packed.trans packed)) ?_ ?_
              · change 0 < w'.issued → w'.conn.connected = true
                rw [same.issued, same.connected]
                exact c
              · change Connecting w'.conn.event w'.conn.sevent w'.registered w'.conn.connected w'.loop
                  w'.pending
                rwa [same.event, same.sevent, same.registered, same.connected, same.loop, same.pending]
      | packs happ pos packed =>
          rw [happ] at ha
          obtain ⟨rfl, rfl⟩ := List.cons.inj ha
          obtain ⟨rfl, now, same⟩ := exec_packRequest run
          have issued : w'.issued = w.issued := same.issued
          refine .preparing (.wants rfl (issued ▸ pos) now) ?_ ?_
          · change 0 < w'.issued → w'.conn.connected = true
            rw [issued, same.connected]
            exact c
          · change Connecting w'.conn.event w'.conn.sevent w'.registered w'.conn.connected w'.loop
              w'.pending
            rw [same.event, same.sevent, same.registered, same.connected, same.loop, same.pending]
            exact stage
      | wants happ pos packed =>
          rw [happ] at ha free
          obtain ⟨rfl, rfl⟩ := List.cons.inj ha
          cases run
          rw [c pos] at stage
          exact .sending (b := true) pos rfl packed (c pos) rfl (stage.sending (free rfl))
  | @sending b pos happ packed connected event stage =>
      cases b with
      | false =>
          rw [happ] at ha
          cases ha
      | true =>
          rw [happ] at ha
          obtain ⟨rfl, rfl⟩ := List.cons.inj ha
          cases run
          refine .sending (b := false) pos rfl packed connected event ?_
          have more := stage.addFunc
          unfold PbClient.pending at more
          rwa [Nat.add_right_comm] at more
  | written pos happ packed hr hx hl =>
      rcases happ with happ | happ
      · rw [happ] at ha
        obtain ⟨rfl, rfl⟩ := List.cons.inj ha
        cases run
        exact .written pos (.inr rfl) packed hr hx hl
      · rw [happ] at ha
        cases ha

theorem stage_loop (h : Stage w) (hl : w.loop = s :: rest)
    (run : w.exec protocol s = .ok (w', stmts)) : Stage { w' with loop := stmts ++ rest } := by
  cases h with
  | preparing p c stage =>
      obtain ⟨next, app, packed, issued, mono⟩ := connecting_loop hl stage run
      refine .preparing (p.congr app issued packed) (fun pos => mono (c ?_)) next
      exact issued ▸ pos
  | sending pos happ packed connected event stage =>
      obtain ⟨next, event', app, packed', issued, connected'⟩ := sending_loop hl event stage run
      exact .sending (by rw [issued]; exact pos) (app.trans happ) (packed'.trans packed)
        (connected'.trans connected) event' next
  | written pos happ packed hr hx harmless =>
      rw [hl] at harmless
      obtain ⟨first, others⟩ := List.forall_mem_cons.mp harmless
      obtain ⟨wbuf, app, packed', issued, next⟩ := exec_other first run
      refine .written (by rw [issued]; exact pos) (by rw [app]; exact happ) (packed'.trans packed)
        (by rw [wbuf]; exact hr) (by rw [wbuf]; exact hx) fun t ht => ?_
      rcases List.mem_append.mp ht with new | old
      · exact next t new
      · exact others t old

theorem clientConnCallback_ne {soError : Bool} : clientConnCallback soError ≠ [] := by
  unfold clientConnCallback
  simp

/-- Only one stage of connecting is met by an event. -/
theorem Connecting.reported {e se : Interest} {r : Option Interest} {b : Bool} {k : Nat}
    (h : Connecting e se r b [] k) (hr : r ≠ none) :
    e = .epollout ∧ se = .epollout ∧ r = some .epollout ∧ b = false ∧ k = 0 := by
  generalize hl : ([] : List ClientStmt) = loop at h
  cases h with
  | waiting => exact ⟨rfl, rfl, rfl, rfl, rfl⟩
  | queued => exact absurd rfl hr
  | idle => exact absurd rfl hr
  | answered => exact absurd hl.symm clientConnCallback_ne
  | adding _ => cases hl
  | added => cases hl
  | resets => cases hl
  | removing _ => cases hl
  | removed => cases hl

theorem Sending.reported {se : Interest} {r : Option Interest} {k : Nat} {b : Bool}
    (h : Sending se r [] k b) (hr : r ≠ none) : r = some .epollout := by
  cases h with
  | registered => rfl
  | queued _ => exact absurd rfl hr

/-- Only one has a function pending. -/
theorem Connecting.taken {e se : Interest} {r : Option Interest} {b : Bool} {k : Nat}
    (h : Connecting e se r b [] k) (hk : 0 < k) :
    e = .epollout ∧ se = .none ∧ r = none ∧ b = false ∧ k = 1 := by
  generalize hl : ([] : List ClientStmt) = loop at h
  cases h with
  | queued => exact ⟨rfl, rfl, rfl, rfl, rfl⟩
  | waiting => exact absurd hk (lt_irrefl 0)
  | idle => exact absurd hk (lt_irrefl 0)
  | answered => exact absurd hk (lt_irrefl 0)
  | adding _ => cases hl
  | added => cases hl
  | resets => cases hl
  | removing _ => cases hl
  | removed => cases hl

theorem stage_event {events : Events} {io : SocketResults} {soError : Bool} (h : Stage w)
    (clear : Unhindered w (.event events io soError none)) (idle : w.loop = [])
    (reported : w.Reported events) (possible : Lifetime.Possible w.conn io)
    (outcome : Outcome w events io soError none w') : Stage w' := by
  cases h with
  | preparing p c stage =>
      have at_once := stage
      rw [idle] at at_once
      obtain ⟨he, hse, hr, hb, hk⟩ := at_once.reported reported.1
      have out : events.epollin = false := by
        by_contra hin
        have other := reported.2.1 (Bool.eq_true_of_not_eq_false hin)
        rw [hr] at other
        cases other
      cases outcome with
      | silent _ => exact .preparing p c stage
      | connects =>
          refine .preparing (p.congr rfl rfl rfl) c ?_
          change Connecting w.conn.event w.conn.sevent w.registered w.conn.connected _ w.pending
          rw [he, hse, hr, hb, hk]
          exact .answered
      | wrote _ _ connected _ => simp [connected] at hb
      | completes _ _ connected _ _ => simp [connected] at hb
      | ignored hin => simp [hin] at out
      | eof hin _ => simp [hin] at out
      | parsed hin _ _ _ _ => simp [hin] at out
      | answered hin _ _ _ _ _ => simp [hin] at out
  | sending pos happ packed connected event stage =>
      have at_once := stage
      rw [idle] at at_once
      have hr := at_once.reported reported.1
      have left : w.app = [.addFunc] ∨ w.app = [] := by
        rw [happ]
        split_ifs
        · exact .inl rfl
        · exact .inr rfl
      have out : events.epollin = false := by
        by_contra hin
        have other := reported.2.1 (Bool.eq_true_of_not_eq_false hin)
        rw [hr] at other
        cases other
      -- what is left of the head tells what is left of the payload
      have gone : ∀ {t : Int} {wbuf : Buffer} {sent : List Buffer.Piece}, events.epollout = true →
          w.conn.wbuf.writeFd io.head io.extra = .ok (t, wbuf, sent) → wbuf.readable = 0 →
          wbuf.extraable = 0 := by
        intro t wbuf sent hev hwrite empty
        obtain ⟨head, extra⟩ := Buffer.writeFd_left hwrite possible.2.1 possible.2.2
        have taken : Buffer.headTaken w.conn.wbuf io.head ≤ w.conn.wbuf.readable := by
          unfold Buffer.headTaken
          split_ifs
          · exact Nat.zero_le _
          · exact possible.2.1
        have leaves := TCPConnection.headLeaves_iff.mpr (le_antisymm taken (by omega))
        have both := leaves.extraLeaves_iff.mp (clear out hev connected leaves)
        omega
      cases outcome with
      | silent _ => exact .sending pos happ packed connected event stage
      | connects _ _ closed _ => simp [connected] at closed
      | @wrote t wbuf sent _ hev _ hwrite =>
          by_cases empty : wbuf.readable = 0
          · exact .written pos left packed empty (gone hev hwrite empty) (by simp [idle])
          · exact .sending pos happ packed connected event stage
      | @completes t wbuf sent _ hev _ hwrite empty =>
          exact .written pos left packed empty (gone hev hwrite empty)
            (by simp [writeCompleteCallback, ClientStmt.ofCall, ClientStmt.prepares])
      | ignored hin => simp [hin] at out
      | eof hin _ => simp [hin] at out
      | parsed hin _ _ _ _ => simp [hin] at out
      | answered hin _ _ _ _ _ => simp [hin] at out
  | written pos happ packed hr hx hl =>
      cases outcome with
      | silent _ => exact .written pos happ packed hr hx hl
      | connects =>
          refine .written pos happ packed hr hx ?_
          unfold clientConnCallback
          cases soError <;> simp [ClientStmt.ofCall, ClientStmt.prepares]
      | @wrote t wbuf sent _ _ _ hwrite =>
          obtain ⟨head, extra⟩ := Buffer.writeFd_left hwrite possible.2.1 possible.2.2
          refine .written pos happ packed ?_ ?_ hl
          · change wbuf.readable = 0
            omega
          · change wbuf.extraable = 0
            omega
      | @completes t wbuf sent _ _ _ hwrite _ =>
          obtain ⟨head, extra⟩ := Buffer.writeFd_left hwrite possible.2.1 possible.2.2
          refine .written pos happ packed ?_ ?_ ?_
          · change wbuf.readable = 0
            omega
          · change wbuf.extraable = 0
            omega
          · simp [writeCompleteCallback, ClientStmt.ofCall, ClientStmt.prepares]
      | ignored _ => exact .written pos happ packed hr hx hl
      | eof _ _ =>
          exact .written pos happ packed hr hx
            (by simp [closeCallback, ClientStmt.ofCall, ClientStmt.prepares])
      | parsed _ _ _ _ _ => exact .written pos happ packed hr hx hl
      | answered _ _ _ _ _ _ =>
          exact .written pos happ packed hr hx
            (by simp [afterDone, closeCallback, ClientStmt.ofCall, ClientStmt.prepares])

/-- A function of the queue is taken up. -/
theorem stage_func {k : Nat} (h : Stage w) (idle : w.loop = []) (hk : w.phase = .funcs (k + 1)) :
    Stage { w with phase := .funcs k, loop := [.updateChannel] } := by
  have before : w.pending = w.queued + k + 1 := by
    rw [pending, hk]
    rfl
  have after : ({ w with phase := .funcs k, loop := [.updateChannel] } : PbClient).pending =
    w.queued + k := rfl
  cases h with
  | preparing p c stage =>
      rw [idle, before] at stage
      refine .preparing (p.congr rfl rfl rfl) c ?_
      rw [after]
      change Connecting w.conn.event w.conn.sevent w.registered w.conn.connected [.updateChannel] _
      generalize w.conn.event = e at stage ⊢
      generalize w.conn.sevent = se at stage ⊢
      generalize w.registered = r at stage ⊢
      generalize w.conn.connected = b at stage ⊢
      obtain ⟨rfl, rfl, rfl, rfl, none⟩ := stage.taken (Nat.succ_pos _)
      rw [Nat.succ.inj none]
      exact .adding (by simp)
  | sending pos happ packed connected event stage =>
      rw [idle] at stage
      refine .sending pos happ packed connected event ?_
      change Sending w.conn.sevent w.registered [.updateChannel] _ _
      generalize w.conn.sevent = se at stage ⊢
      generalize w.registered = r at stage ⊢
      cases stage with
      | registered => exact .changing (by simp)
      | queued _ => exact .adding (by simp)
  | written pos happ packed hr hx hl =>
      exact .written pos happ packed hr hx (by simp [ClientStmt.ofCall, ClientStmt.prepares])

theorem stage_step (h : Stage w) (first : FirstCall w m) (clear : Unhindered w m)
    (step : (asyncClient protocol).step w m w') : Stage w' := by
  obtain ⟨_, enabled, rfl⟩ := step
  have same : ∀ {w' : PbClient}, w'.conn = w.conn → w'.registered = w.registered → w'.app = w.app →
      w'.issued = w.issued → w'.packed = w.packed → w'.loop = w.loop → w'.pending = w.pending →
      Stage w' := h.turn
  unfold next
  cases he : w.effect protocol m with
  | error f => exact same rfl rfl rfl rfl rfl rfl rfl
  | ok w₁ =>
      cases m with
      | call call =>
          obtain rfl := Except.ok.inj he
          obtain ⟨connected, none⟩ := first
          cases h with
          | preparing p c stage =>
              refine .preparing (@Preparing.fields _ (callMethod w.issued call).dropLast ?_ ?_
                (Nat.succ_pos _) ?_) (fun _ => connected) stage
              · rw [none]
                rfl
              · simp [callMethod, ClientStmt.prepares]
              · cases p with
                | before _ _ packed => exact packed
                | fields _ _ pos _ => exact absurd none pos.ne'
                | packs _ pos _ => exact absurd none pos.ne'
                | wants _ pos _ => exact absurd none pos.ne'
          | sending pos _ _ _ _ _ => exact absurd none pos.ne'
          | written pos _ _ _ _ _ => exact absurd none pos.ne'
      | app =>
          simp only [effect] at he
          cases ha : w.app with
          | nil => exact absurd ha enabled
          | cons s rest =>
              simp only [ha] at he
              obtain ⟨⟨w₂, stmts⟩, run, he⟩ := bind_ok.mp he
              obtain rfl := Except.ok.inj he
              exact stage_app h clear ha run
      | loop =>
          simp only [effect] at he
          cases hl : w.loop with
          | nil => exact absurd hl enabled
          | cons s rest =>
              simp only [hl] at he
              obtain ⟨⟨w₂, stmts⟩, run, he⟩ := bind_ok.mp he
              obtain rfl := Except.ok.inj he
              exact stage_loop h hl run
      | event events io soError chain =>
          obtain rfl : chain = none := first
          obtain ⟨idle, polling, reported, possible⟩ := enabled
          have handled : Stage { w with phase := .handled } :=
            same rfl rfl rfl rfl rfl rfl (by simp [pending, polling, Phase.funcsLeft])
          exact stage_event handled clear idle reported possible (handle_ok he)
      | quiet =>
          obtain rfl := Except.ok.inj he
          exact same rfl rfl rfl rfl rfl rfl (by simp [pending, enabled.2, Phase.funcsLeft])
      | swap =>
          obtain rfl := Except.ok.inj he
          exact same rfl rfl rfl rfl rfl rfl (by simp [pending, enabled.2, Phase.funcsLeft])
      | func =>
          obtain ⟨idle, more⟩ := enabled
          simp only [effect] at he
          cases hp : w.phase with
          | funcs n =>
              cases n with
              | zero => simp [hp, Phase.funcsLeft] at more
              | succ n =>
                  simp only [hp] at he
                  obtain rfl := Except.ok.inj he
                  exact stage_func h idle hp
          | polling => simp [hp, Phase.funcsLeft] at more
          | handled => simp [hp, Phase.funcsLeft] at more
          | timers _ => simp [hp, Phase.funcsLeft] at more
      | poll =>
          obtain rfl := Except.ok.inj he
          exact same rfl rfl rfl rfl rfl rfl (by simp [pending, enabled.2, Phase.funcsLeft])

/-- The first request is on its way in every run in which nothing hinders it. -/
theorem firstCall_registered (run : Run (asyncClient protocol) es w)
    (guarded : Guarded (fun w m => FirstCall w m ∧ Unhindered w m) es) (issued : 0 < w.issued)
    (returned : w.app = []) (unwritten : w.Unwritten) (idle : w.LoopIdle) :
    w.registered = some .epollout := by
  have stage : Stage w := by
    apply run.invariant guarded
    · rintro _ ⟨fd, atOnce, rfl⟩
      exact stage_constructed
    · exact fun h guard step => stage_step h guard.1 guard.2 step
  obtain ⟨hl, hq, hf⟩ := idle
  cases stage with
  | preparing p _ _ =>
      cases p with
      | before none _ _ => omega
      | fields happ _ _ _ => simp [returned] at happ
      | packs happ _ _ => simp [returned, sendRequest] at happ
      | wants happ _ _ => simp [returned] at happ
  | @sending b _ happ _ _ _ stage =>
      rw [hl, pending, hq, hf] at stage
      cases b with
      | true => simp [returned] at happ
      | false => exact stage.quiet
  | written _ _ packed hr hx _ =>
      rcases unwritten with none | some | some
      · rw [packed] at none
        cases none
      · exact absurd hr some
      · exact absurd hx some

/-- A list of moves that are all enabled in turn is a run. -/
theorem run_client (protocol : Protocol) (fd : Nat) (atOnce : Bool) (ms : List ClientMove)
    (enabled : ∀ e ∈ visits (next protocol) (constructed fd atOnce) ms,
      e.1.fault = none ∧ e.1.Enabled e.2) :
    Run (asyncClient protocol) (visits (next protocol) (constructed fd atOnce) ms)
      (replay (next protocol) (constructed fd atOnce) ms) :=
  ⟨_, ⟨fd, atOnce, rfl⟩, path_replay (S := asyncClient protocol)
    (E := fun w m => w.fault = none ∧ w.Enabled m) (fun {_ _} h => ⟨h.1, h.2, rfl⟩) enabled⟩

/-- A request of one byte. -/
def ask : Call := { connType := .single, service := [97], method := [98], payload := [99] }

/-- The loop takes up the function that registers the client, and goes back to polling. -/
def registers : List ClientMove :=
  [.quiet, .swap, .func] ++ List.replicate 6 .loop ++ [.poll]

/-- The client is connected at once, and calls. -/
def called : List ClientMove := .call ask :: List.replicate 12 .app ++ registers

/-- The connect is in progress; the event that ends it runs `client_conn_callback`, which
deregisters the client, and then the client calls. -/
def connects : List ClientMove := List.flatten [registers,
  [.event { epollout := true } {} false none], List.replicate 8 .loop, called.take 13, registers.tail]

theorem connects_registered :
    (replay (next .simple) (constructed 5 false) connects).registered = some .epollout :=
  firstCall_registered (run_client .simple 5 false connects (by decide +kernel)) (by decide +kernel)
    (by decide +kernel) (by decide +kernel) (by unfold Unwritten; decide +kernel)
    (by unfold LoopIdle; decide +kernel)

/-- The call falls between `connected` and the reset of the wanted events. -/
def overtaken : List ClientMove :=
  registers ++ [.event { epollout := true } {} false none, .loop, .call ask] ++
    List.replicate 12 .app ++ List.replicate 7 .loop ++ [.swap, .func, .loop]

/-- The request stays in the buffer, and epoll knows nothing of the client. -/
theorem request_overtaken :
    ¬ ∀ protocol es w, Run (asyncClient protocol) es w → Guarded FirstCall es → 0 < w.issued →
      w.app = [] → w.Unwritten → w.LoopIdle → w.registered = some .epollout := by
  intro claim
  have run := run_client .simple 5 false overtaken (by decide +kernel)
  have registered := claim _ _ _ run (by decide +kernel) (by decide +kernel) (by decide +kernel)
    (by unfold Unwritten; decide +kernel) (by unfold LoopIdle; decide +kernel)
  exact absurd registered (by decide +kernel)

end SmallRpc.PbClient
