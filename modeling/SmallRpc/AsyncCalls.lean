import SmallRpc.FirstCall

/-! One asynchronous call after another on a client. Each begins when the loop has left
the callbacks of the client, and with `done` it is over. -/
namespace SmallRpc.PbClient
open Runs
open TCPConnection (HeadLeaves ExtraLeaves)

/-- What may come from outside: an end of the stream, a response that does not parse, a
write that takes the rest of the head without the rest of the payload. -/
structure Outside where
  ends : Bool
  fails : Bool
  splits : Bool

/-- The peer has closed the connection. -/
def Ends (w : PbClient) (events : Events) (io : SocketResults) : Prop :=
  events.epollin = true ∧ (w.conn.rbuf.readFd io.read).map Prod.fst = .ok 0

/-- What the parser says to what has been read by then. -/
def answer (w : PbClient) (io : SocketResults) : Except Fault (Option ParseProtocolStatus) := do
  let (_, rbuf) ← w.conn.rbuf.readFd io.read
  match w.conn.ctx with
  | none => return none
  | some ctx =>
    let (status, _) ← ctx.parseResponse rbuf
    return some status

/-- The response is not one. -/
def Fails (w : PbClient) (events : Events) (io : SocketResults) : Prop :=
  events.epollin = true ∧ w.answer io = .ok (some .error)

def Splits (w : PbClient) (events : Events) (io : SocketResults) : Prop :=
  events.epollin = false ∧ events.epollout = true ∧ w.conn.connected = true ∧
    HeadLeaves w.conn.wbuf io.head ∧ ¬ ExtraLeaves w.conn.wbuf io.extra

def testsPayload : ClientStmt → Bool
  | .testPayload _ => true
  | _ => false

/-- Calls begin when the client is connected and the loop is not in a callback of it, so
never in `done`; their payloads are not too long. -/
def Orderly (p : Outside) (w : PbClient) : ClientMove → Prop
  | .call _ => w.loop = [] ∧ w.conn.connected = true
  | .app => (∃ s ∈ w.app.head?, testsPayload s = true) →
      ∀ ctx ∈ w.conn.ctx, ctx.base.payload.length ≤ maxPayload
  | .event events io _ chain => chain = none ∧ (w.Ends events io → p.ends = true) ∧
      (w.Fails events io → p.fails = true) ∧ (w.Splits events io → p.splits = true)
  | _ => True

instance (w : PbClient) (events : Events) (io : SocketResults) : Decidable (w.Ends events io) :=
  inferInstanceAs (Decidable (_ ∧ _))

instance (w : PbClient) (events : Events) (io : SocketResults) : Decidable (w.Fails events io) :=
  inferInstanceAs (Decidable (_ ∧ _))

instance (w : PbClient) (events : Events) (io : SocketResults) : Decidable (w.Splits events io) :=
  inferInstanceAs (Decidable (_ ∧ _ ∧ _ ∧ _ ∧ _))

instance (p : Outside) (w : PbClient) : ∀ m, Decidable (Orderly p w m)
  | .call _ => inferInstanceAs (Decidable (_ ∧ _))
  | .app => inferInstanceAs (Decidable ((∃ s ∈ w.app.head?, testsPayload s = true) →
      ∀ ctx ∈ w.conn.ctx, ctx.base.payload.length ≤ maxPayload))
  | .event events io _ chain => inferInstanceAs (Decidable (chain = none ∧ (w.Ends events io → _) ∧
      (w.Fails events io → _) ∧ (w.Splits events io → _)))
  | .loop => inferInstanceAs (Decidable True)
  | .quiet => inferInstanceAs (Decidable True)
  | .swap => inferInstanceAs (Decidable True)
  | .func => inferInstanceAs (Decidable True)
  | .poll => inferInstanceAs (Decidable True)

/-- The channel has been deregistered, and nothing is under way that could register it, or
the parser has answered `Error`. -/
def Over (w : PbClient) : Prop :=
  (w.conn.event = .none ∧ w.conn.sevent = .none ∧ w.queued = 0 ∧ w.phase.funcsLeft = 0 ∧
    w.app = []) ∨ w.parseError = true

/-- No registration, and none wanted. -/
inductive Off : Interest → Interest → Option Interest → List ClientStmt → Prop
  | idle : Off .none .none none []
  | update : Off .none .none none [.updateChannel]

/-- From the last byte of a request on. -/
inductive Reading : Interest → Interest → Option Interest → List ClientStmt → Prop
  | switches : Reading .epollout .epollout (some .epollout) writeCompleteCallback
  | changing {s : ClientStmt} : s ∈ [.updateChannel, .testSevent, .testDel, .loadEvents .mod,
      .epollCtl .mod .epollin] → Reading .epollin .epollout (some .epollout) [s]
  | changed : Reading .epollin .epollout (some .epollin) [.setSevent]
  | waiting : Reading .epollin .epollin (some .epollin) []
  | update : Reading .epollin .epollin (some .epollin) [.updateChannel]

/-- On the way out of epoll. -/
inductive Closing : Interest → Interest → Option Interest → List ClientStmt → Prop
  | resets : Closing .epollin .epollin (some .epollin) closeCallback
  | removing {s : ClientStmt} : s ∈ [.updateChannel, .testSevent, .testDel, .loadEvents .del,
      .epollCtl .del .none] → Closing .none .epollin (some .epollin) [s]
  | removed : Closing .none .epollin none [.setSevent]
  | off {e se : Interest} {r : Option Interest} {loop : List ClientStmt} : Off e se r loop →
      Closing e se r loop

/-- Statements that set a field of the context. -/
def sets : ClientStmt → Bool
  | .setConnType _ | .setMethod _ | .setService _ | .setPayload _ => true
  | _ => false

/-- Call `n` has its own session and its own context. -/
structure Own (w : PbClient) (n : Nat) : Prop where
  session : w.session = some n
  ctxOf : w.ctxOf = some n
  ctx : w.conn.ctx ≠ none

/-- `CallMethod` before it wants to write. -/
inductive Calling (w : PbClient) (n : Nat) : Prop
  | begins {call : Call} : (w.app = callMethod n call ∨ w.app = (callMethod n call).drop 1 ∨
      w.app = (callMethod n call).drop 2) → w.session = none → w.ctxOf = none → Calling w n
  | context {call : Call} : w.app = (callMethod n call).drop 3 → w.session = none →
      w.ctxOf = some n → w.conn.ctx ≠ none → Calling w n
  | fields {pre : List ClientStmt} : w.app = pre ++ [.testPayload n] →
      (∀ s ∈ pre, sets s = true) → Own w n → Calling w n
  | packs : w.app = sendRequest n → Own w n → Calling w n
  | wants : w.app = [.setEvent .epollout, .addFunc] → Own w n → Calling w n

/-- All that can be left of a `CallMethod` that has wanted to write. -/
def AppLeft (w : PbClient) (b : Bool) : Prop := w.app = if b then [.addFunc] else []

structure Outstanding (w : PbClient) (n : Nat) : Prop where
  issued : w.issued = n + 1
  completed : w.completed.length = n

structure AllDone (w : PbClient) : Prop where
  completed : w.completed.length = w.issued
  session : w.session = none
  ctxOf : w.ctxOf = none
  ctx : w.conn.ctx = none

def Empty (b : Buffer) : Prop := b.readable = 0 ∧ b.extraable = 0

/-- Where the latest call is. -/
inductive CallStage (p : Outside) (w : PbClient) : Prop
  | connecting : w.issued = 0 → w.app = [] → AllDone w → Connecting w.conn.event w.conn.sevent
      w.registered w.conn.connected w.loop w.pending → CallStage p w
  | resting {b : Bool} : AllDone w → AppLeft w b → w.conn.connected = true →
      Closing w.conn.event w.conn.sevent w.registered w.loop → CallStage p w
  | calling {n : Nat} : Outstanding w n → Calling w n → w.conn.connected = true →
      Off w.conn.event w.conn.sevent w.registered w.loop → CallStage p w
  | sending {n : Nat} {b : Bool} : Outstanding w n → Own w n → AppLeft w b →
      w.conn.connected = true → w.conn.event = .epollout →
      Sending w.conn.sevent w.registered w.loop w.pending b → CallStage p w
  | reading {n : Nat} {b : Bool} : Outstanding w n → Own w n → AppLeft w b →
      w.conn.connected = true → (p.splits = true ∨ Empty w.conn.wbuf) →
      Reading w.conn.event w.conn.sevent w.registered w.loop → CallStage p w
  | ending {b : Bool} : w.completed.length = w.issued → AppLeft w b → w.conn.connected = true →
      (w.loop = afterDone ∨ (w.loop = afterDone.tail ∧ w.conn.ctx = none ∧ w.ctxOf = none)) →
      w.conn.event = .epollin → w.conn.sevent = .epollin → w.registered = some .epollin →
      CallStage p w
  | lost {n : Nat} {b : Bool} : p.ends = true → Outstanding w n → Own w n → AppLeft w b →
      w.conn.connected = true → (p.splits = true ∨ Empty w.conn.wbuf) →
      Closing w.conn.event w.conn.sevent w.registered w.loop → CallStage p w

/-- Every `done` was run once, with the context of its own call. -/
structure Calls (p : Outside) (w : PbClient) : Prop where
  stage : CallStage p w
  numbered : w.completed.map Completed.session = List.range w.completed.length
  own : ∀ c ∈ w.completed, c.ctx = some c.session
  error : w.parseError = true → p.fails = true

variable {protocol : Protocol} {p : Outside} {w w' : PbClient} {m : ClientMove} {s : ClientStmt}
  {rest stmts loop : List ClientStmt} {es : List (PbClient × ClientMove)} {e se : Interest}
  {r : Option Interest} {n : Nat} {b : Bool}

theorem Off.step (hl : w.loop = s :: rest) (h : Off w.conn.event w.conn.sevent w.registered w.loop)
    (run : w.exec protocol s = .ok (w', stmts)) :
    Off w'.conn.event w'.conn.sevent w'.registered (stmts ++ rest) ∧
      w'.conn.connected = w.conn.connected := by
  rw [hl] at h
  generalize he : w.conn.event = e at h
  generalize hse : w.conn.sevent = se at h
  generalize hr : w.registered = r at h
  cases h with
  | update =>
      simp [exec, he, hse] at run
      obtain ⟨rfl, rfl⟩ := run
      refine ⟨?_, rfl⟩
      rw [he, hse, hr]
      exact .idle

/-- Wanting to write while there is no registration. -/
theorem Off.sending {k : Nat} (h : Off e se r loop) : Sending se r loop k true := by
  cases h with
  | idle => exact .queued (.inr rfl)
  | update => exact .adding (by simp)

theorem Closing.step (hl : w.loop = s :: rest)
    (h : Closing w.conn.event w.conn.sevent w.registered w.loop)
    (run : w.exec protocol s = .ok (w', stmts)) :
    Closing w'.conn.event w'.conn.sevent w'.registered (stmts ++ rest) ∧
      w'.conn.connected = w.conn.connected := by
  rw [hl] at h
  generalize he : w.conn.event = e at h
  generalize hse : w.conn.sevent = se at h
  generalize hr : w.registered = r at h
  generalize hloop : s :: rest = loop at h
  have keep : ∀ {next : List ClientStmt}, Closing e se r next →
      Closing w.conn.event w.conn.sevent w.registered next := by
    rintro next stage
    rwa [he, hse, hr]
  cases h with
  | resets =>
      obtain ⟨rfl, rfl⟩ := List.cons.inj hloop
      cases run
      refine ⟨?_, rfl⟩
      change Closing .none w.conn.sevent w.registered _
      rw [hse, hr]
      exact .removing (by simp)
  | removing mem =>
      obtain ⟨rfl, rfl⟩ := List.cons.inj hloop
      simp only [List.mem_cons, List.not_mem_nil, or_false] at mem
      rcases mem with rfl | rfl | rfl | rfl | rfl
      · simp [exec, he, hse] at run
        obtain ⟨rfl, rfl⟩ := run
        exact ⟨keep (.removing (by simp)), rfl⟩
      · simp [exec, hse] at run
        obtain ⟨rfl, rfl⟩ := run
        exact ⟨keep (.removing (by simp)), rfl⟩
      · simp [exec, he] at run
        obtain ⟨rfl, rfl⟩ := run
        exact ⟨keep (.removing (by simp)), rfl⟩
      · simp [exec, he] at run
        obtain ⟨rfl, rfl⟩ := run
        exact ⟨keep (.removing (by simp)), rfl⟩
      · rw [exec, hr] at run
        cases run
        refine ⟨?_, rfl⟩
        change Closing w.conn.event w.conn.sevent _ _
        rw [he, hse]
        exact .removed
  | removed =>
      obtain ⟨rfl, rfl⟩ := List.cons.inj hloop
      cases run
      refine ⟨?_, rfl⟩
      change Closing w.conn.event w.conn.event w.registered _
      rw [he, hr]
      exact .off .idle
  | off quiet =>
      rw [← he, ← hse, ← hr, ← hloop, ← hl] at quiet
      obtain ⟨next, connected⟩ := quiet.step hl run
      exact ⟨.off next, connected⟩

theorem Reading.step (hl : w.loop = s :: rest)
    (h : Reading w.conn.event w.conn.sevent w.registered w.loop)
    (run : w.exec protocol s = .ok (w', stmts)) :
    Reading w'.conn.event w'.conn.sevent w'.registered (stmts ++ rest) ∧
      w'.conn.connected = w.conn.connected := by
  rw [hl] at h
  generalize he : w.conn.event = e at h
  generalize hse : w.conn.sevent = se at h
  generalize hr : w.registered = r at h
  generalize hloop : s :: rest = loop at h
  have keep : ∀ {next : List ClientStmt}, Reading e se r next →
      Reading w.conn.event w.conn.sevent w.registered next := by
    rintro next stage
    rwa [he, hse, hr]
  cases h with
  | waiting => cases hloop
  | switches =>
      obtain ⟨rfl, rfl⟩ := List.cons.inj hloop
      cases run
      refine ⟨?_, rfl⟩
      change Reading .epollin w.conn.sevent w.registered _
      rw [hse, hr]
      exact .changing (by simp)
  | changing mem =>
      obtain ⟨rfl, rfl⟩ := List.cons.inj hloop
      simp only [List.mem_cons, List.not_mem_nil, or_false] at mem
      rcases mem with rfl | rfl | rfl | rfl | rfl
      · simp [exec, he, hse] at run
        obtain ⟨rfl, rfl⟩ := run
        exact ⟨keep (.changing (by simp)), rfl⟩
      · simp [exec, hse] at run
        obtain ⟨rfl, rfl⟩ := run
        exact ⟨keep (.changing (by simp)), rfl⟩
      · simp [exec, he] at run
        obtain ⟨rfl, rfl⟩ := run
        exact ⟨keep (.changing (by simp)), rfl⟩
      · simp [exec, he] at run
        obtain ⟨rfl, rfl⟩ := run
        exact ⟨keep (.changing (by simp)), rfl⟩
      · rw [exec, hr] at run
        cases run
        refine ⟨?_, rfl⟩
        change Reading w.conn.event w.conn.sevent _ _
        rw [he, hse]
        exact .changed
  | changed =>
      obtain ⟨rfl, rfl⟩ := List.cons.inj hloop
      cases run
      refine ⟨?_, rfl⟩
      change Reading w.conn.event w.conn.event w.registered _
      rw [he, hr]
      exact .waiting
  | update =>
      obtain ⟨rfl, rfl⟩ := List.cons.inj hloop
      simp [exec, he, hse] at run
      obtain ⟨rfl, rfl⟩ := run
      exact ⟨keep .waiting, rfl⟩

/-- All stages keep to statements of the channel. -/
theorem Sending.all {k : Nat} (h : Sending se r loop k b) : ∀ s ∈ loop, ofChannel s = true := by
  cases h with
  | registered => simp
  | queued _ => simp
  | changing mem =>
      simp only [List.mem_cons, List.not_mem_nil, or_false] at mem
      rcases mem with rfl | rfl | rfl | rfl | rfl | rfl <;> simp [ofChannel]
  | adding mem =>
      simp only [List.mem_cons, List.not_mem_nil, or_false] at mem
      rcases mem with rfl | rfl | rfl | rfl | rfl <;> simp [ofChannel]
  | added => simp [ofChannel]

theorem Connecting.all {k : Nat} (h : Connecting e se r b loop k) : ∀ s ∈ loop, ofChannel s = true := by
  cases h with
  | queued => simp
  | waiting => simp
  | idle => simp
  | adding mem =>
      simp only [List.mem_cons, List.not_mem_nil, or_false] at mem
      rcases mem with rfl | rfl | rfl | rfl | rfl <;> simp [ofChannel]
  | added => simp [ofChannel]
  | @answered soError => cases soError <;> simp [clientConnCallback, ofChannel]
  | resets => simp [ofChannel]
  | removing mem =>
      simp only [List.mem_cons, List.not_mem_nil, or_false] at mem
      rcases mem with rfl | rfl | rfl | rfl | rfl <;> simp [ofChannel]
  | removed => simp [ofChannel]

theorem Off.all (h : Off e se r loop) : ∀ s ∈ loop, ofChannel s = true := by
  cases h <;> simp [ofChannel]

theorem Reading.all (h : Reading e se r loop) : ∀ s ∈ loop, ofChannel s = true := by
  cases h with
  | switches => simp [writeCompleteCallback, ofChannel]
  | changing mem =>
      simp only [List.mem_cons, List.not_mem_nil, or_false] at mem
      rcases mem with rfl | rfl | rfl | rfl | rfl <;> simp [ofChannel]
  | changed => simp [ofChannel]
  | waiting => simp
  | update => simp [ofChannel]

theorem Closing.all (h : Closing e se r loop) : ∀ s ∈ loop, ofChannel s = true := by
  cases h with
  | resets => simp [closeCallback, ofChannel]
  | removing mem =>
      simp only [List.mem_cons, List.not_mem_nil, or_false] at mem
      rcases mem with rfl | rfl | rfl | rfl | rfl <;> simp [ofChannel]
  | removed => simp [ofChannel]
  | off quiet => exact quiet.all

theorem exec_sets (hs : sets s = true) (run : w.exec protocol s = .ok (w', stmts)) :
    stmts = [] ∧ ∃ ctx, w' = { w with conn := { w.conn with ctx := some ctx } } := by
  have context : ∀ {f : Context → Context} {x : PbClient × List ClientStmt},
      (do return (← w.modifyContext f, []) : Except Fault (PbClient × List ClientStmt)) = .ok x →
      x.2 = [] ∧ ∃ ctx, x.1 = { w with conn := { w.conn with ctx := some ctx } } := by
    intro f x h
    obtain ⟨w₁, h₁, h⟩ := bind_ok.mp h
    obtain ⟨ctx, rfl⟩ := modifyContext_ok h₁
    obtain rfl := Except.ok.inj h
    exact ⟨rfl, ctx, rfl⟩
  cases s with
  | setConnType connType => exact context run
  | setMethod method => exact context run
  | setService service => exact context run
  | setPayload payload => exact context run
  | _ => cases hs

theorem Own.congr (h : Own w n) (same : SameCall w w') : Own w' n :=
  ⟨same.session.trans h.session, same.ctxOf.trans h.ctxOf, by rw [same.ctx]; exact h.ctx⟩

theorem Outstanding.congr (h : Outstanding w n) (issued : w'.issued = w.issued)
    (completed : w'.completed = w.completed) : Outstanding w' n :=
  ⟨issued.trans h.issued, by rw [completed]; exact h.completed⟩

theorem AllDone.congr (h : AllDone w) (same : SameCall w w') : AllDone w' :=
  ⟨by rw [same.completed, same.issued]; exact h.completed, same.session.trans h.session,
    same.ctxOf.trans h.ctxOf, same.ctx.trans h.ctx⟩

theorem Calling.congr (h : Calling w n) (same : SameCall w w') : Calling w' n := by
  cases h with
  | begins ha hs hc =>
      exact .begins (by rw [same.app]; exact ha) (same.session.trans hs) (same.ctxOf.trans hc)
  | context ha hs hc hx =>
      exact .context (same.app.trans ha) (same.session.trans hs) (same.ctxOf.trans hc)
        (by rw [same.ctx]; exact hx)
  | fields ha hpre own => exact .fields (same.app.trans ha) hpre (own.congr same)
  | packs ha own => exact .packs (same.app.trans ha) (own.congr same)
  | wants ha own => exact .wants (same.app.trans ha) (own.congr same)

/-- One statement of the loop. -/
theorem callStage_loop (h : CallStage p w) (hl : w.loop = s :: rest)
    (run : w.exec protocol s = .ok (w', stmts)) :
    CallStage p { w' with loop := stmts ++ rest } ∧ w'.completed = w.completed ∧
      w'.parseError = w.parseError := by
  -- nothing of a call depends on what is left of the loop's statements
  have call : SameCall w w' → SameCall w { w' with loop := stmts ++ rest } := fun same =>
    ⟨same.ctx, same.wbuf, same.session, same.ctxOf, same.app, same.issued, same.completed,
      same.parseError⟩
  cases h with
  | connecting issued app done stage =>
      have same := exec_ofChannel (stage.all s (by simp [hl])) run
      obtain ⟨next, _⟩ := connecting_loop hl stage run
      exact ⟨.connecting (same.issued.trans issued) (same.app.trans app) (done.congr (call same)) next,
        same.completed, same.parseError⟩
  | resting done app connected stage =>
      obtain ⟨next, connected'⟩ := stage.step hl run
      have same := exec_ofChannel (stage.all s (by simp [hl])) run
      exact ⟨.resting (done.congr (call same)) (same.app.trans app) (connected'.trans connected) next,
        same.completed, same.parseError⟩
  | calling out calling connected stage =>
      obtain ⟨next, connected'⟩ := stage.step hl run
      have same := exec_ofChannel (stage.all s (by simp [hl])) run
      exact ⟨.calling (out.congr same.issued same.completed) (calling.congr (call same))
        (connected'.trans connected) next, same.completed, same.parseError⟩
  | sending out own app connected event stage =>
      have same := exec_ofChannel (stage.all s (by simp [hl])) run
      obtain ⟨next, event', _, _, _, connected'⟩ := sending_loop hl event stage run
      exact ⟨.sending (out.congr same.issued same.completed) (own.congr (call same))
        (same.app.trans app) (connected'.trans connected) event' next, same.completed, same.parseError⟩
  | reading out own app connected empty stage =>
      obtain ⟨next, connected'⟩ := stage.step hl run
      have same := exec_ofChannel (stage.all s (by simp [hl])) run
      exact ⟨.reading (out.congr same.issued same.completed) (own.congr (call same))
        (same.app.trans app) (connected'.trans connected) (by rw [same.wbuf]; exact empty) next,
        same.completed, same.parseError⟩
  | ending completed app connected at' event sevent registered =>
      rcases at' with at' | ⟨at', ctx, ctxOf⟩
      · rw [hl] at at'
        obtain ⟨rfl, rfl⟩ := List.cons.inj at'
        cases run
        exact ⟨.ending completed app connected (.inr ⟨rfl, rfl, rfl⟩) event sevent registered, rfl, rfl⟩
      · rw [hl] at at'
        obtain ⟨rfl, rfl⟩ := List.cons.inj at'
        cases run
        refine ⟨.resting ⟨completed, rfl, ctxOf, ctx⟩ app connected ?_, rfl, rfl⟩
        change Closing w.conn.event w.conn.sevent w.registered closeCallback
        rw [event, sevent, registered]
        exact .resets
  | lost ends out own app connected empty stage =>
      obtain ⟨next, connected'⟩ := stage.step hl run
      have same := exec_ofChannel (stage.all s (by simp [hl])) run
      exact ⟨.lost ends (out.congr same.issued same.completed) (own.congr (call same))
        (same.app.trans app) (connected'.trans connected) (by rw [same.wbuf]; exact empty) next,
        same.completed, same.parseError⟩

theorem AppLeft.cases (h : AppLeft w b) (ha : w.app = s :: rest) : s = .addFunc ∧ rest = [] ∧ b = true := by
  unfold AppLeft at h
  rw [ha] at h
  split_ifs at h with hb
  obtain ⟨rfl, rfl⟩ := List.cons.inj h
  exact ⟨rfl, rfl, hb⟩

/-- One statement of `CallMethod` in the application's thread. -/
theorem callStage_app (h : CallStage p w) (ha : w.app = s :: rest)
    (short : (∃ s ∈ w.app.head?, testsPayload s = true) →
      ∀ ctx ∈ w.conn.ctx, ctx.base.payload.length ≤ maxPayload)
    (run : w.exec protocol s = .ok (w', stmts)) :
    CallStage p { w' with app := stmts ++ rest } ∧ w'.completed = w.completed ∧
      (w'.parseError = w.parseError ∨ w'.parseError = false) := by
  cases h with
  | connecting _ app _ _ =>
      rw [app] at ha
      cases ha
  | resting done app connected stage =>
      obtain ⟨rfl, rfl, rfl⟩ := app.cases ha
      cases run
      exact ⟨.resting (b := false) ⟨done.completed, done.session, done.ctxOf, done.ctx⟩ rfl connected
        stage, rfl, .inl rfl⟩
  | @calling n out calling connected stage =>
      have out' : ∀ {w' : PbClient}, w'.issued = w.issued → w'.completed = w.completed →
          Outstanding w' n := out.congr
      cases calling with
      | @begins call happ hs hc =>
          rcases happ with happ | happ | happ
          · rw [happ] at ha
            obtain ⟨rfl, rfl⟩ := List.cons.inj ha
            cases run
            exact ⟨.calling (out' rfl rfl) (@Calling.begins _ _ call (.inr (.inl rfl)) hs hc) connected
              stage, rfl, .inl rfl⟩
          · rw [happ] at ha
            obtain ⟨rfl, rfl⟩ := List.cons.inj ha
            cases run
            exact ⟨.calling (out' rfl rfl) (@Calling.begins _ _ call (.inr (.inr rfl)) hs hc) connected
              stage, rfl, .inl rfl⟩
          · rw [happ] at ha
            obtain ⟨rfl, rfl⟩ := List.cons.inj ha
            cases run
            exact ⟨.calling (out' rfl rfl) (@Calling.context _ _ call rfl hs rfl
              (Option.some_ne_none _)) connected stage, rfl, .inr rfl⟩
      | @context call happ hs hc hx =>
          rw [happ] at ha
          obtain ⟨rfl, rfl⟩ := List.cons.inj ha
          cases run
          exact ⟨.calling (out' rfl rfl) (@Calling.fields _ _ [.setConnType call.connType,
            .setMethod call.method, .setService call.service, .setPayload call.payload] rfl
            (by simp [sets]) ⟨rfl, hc, hx⟩) connected stage, rfl, .inl rfl⟩
      | @fields pre happ hpre own =>
          rw [happ] at ha short
          cases pre with
          | nil =>
              obtain ⟨rfl, rfl⟩ := List.cons.inj ha
              obtain ⟨rfl, ctx, hctx, rfl⟩ := exec_testPayload run
              rw [if_neg (not_lt.mpr (short ⟨_, rfl, rfl⟩ ctx hctx))]
              exact ⟨.calling (out' rfl rfl) (.packs rfl ⟨own.session, own.ctxOf, own.ctx⟩) connected
                stage, rfl, .inl rfl⟩
          | cons t pre =>
              obtain ⟨rfl, rfl⟩ := List.cons.inj ha
              obtain ⟨first, others⟩ := List.forall_mem_cons.mp hpre
              obtain ⟨rfl, ctx, rfl⟩ := exec_sets first run
              exact ⟨.calling (out' rfl rfl) (.fields rfl others ⟨own.session, own.ctxOf,
                Option.some_ne_none _⟩) connected stage, rfl, .inl rfl⟩
      | packs happ own =>
          rw [happ] at ha
          obtain ⟨rfl, rfl⟩ := List.cons.inj ha
          obtain ⟨ctx, hctx⟩ := Option.ne_none_iff_exists'.mp own.ctx
          simp only [exec, hctx] at run
          obtain ⟨wbuf, _, run⟩ := bind_ok.mp run
          cases run
          exact ⟨.calling (out' rfl rfl) (.wants rfl ⟨own.session, own.ctxOf, by simp⟩) connected
            stage, rfl, .inl rfl⟩
      | wants happ own =>
          rw [happ] at ha
          obtain ⟨rfl, rfl⟩ := List.cons.inj ha
          cases run
          refine ⟨.sending (b := true) (out' rfl rfl) ⟨own.session, own.ctxOf, own.ctx⟩ rfl connected rfl
            ?_, rfl, .inl rfl⟩
          exact stage.sending
  | sending out own app connected event stage =>
      obtain ⟨rfl, rfl, rfl⟩ := app.cases ha
      cases run
      refine ⟨.sending (b := false) (out.congr rfl rfl) ⟨own.session, own.ctxOf, own.ctx⟩ rfl connected
        event ?_, rfl, .inl rfl⟩
      have more := stage.addFunc
      unfold pending at more
      rwa [Nat.add_right_comm] at more
  | reading out own app connected empty stage =>
      obtain ⟨rfl, rfl, rfl⟩ := app.cases ha
      cases run
      exact ⟨.reading (b := false) (out.congr rfl rfl) ⟨own.session, own.ctxOf, own.ctx⟩ rfl connected
        empty stage, rfl, .inl rfl⟩
  | ending completed app connected at' event sevent registered =>
      obtain ⟨rfl, rfl, rfl⟩ := app.cases ha
      cases run
      exact ⟨.ending (b := false) completed rfl connected at' event sevent registered, rfl, .inl rfl⟩
  | lost ends out own app connected empty stage =>
      obtain ⟨rfl, rfl, rfl⟩ := app.cases ha
      cases run
      exact ⟨.lost (b := false) ends (out.congr rfl rfl) ⟨own.session, own.ctxOf, own.ctx⟩ rfl connected
        empty stage, rfl, .inl rfl⟩

theorem Closing.idle (h : Closing e se r []) : Off e se r [] := by
  generalize hl : ([] : List ClientStmt) = loop at h ⊢
  cases h with
  | resets => cases hl
  | removing _ => cases hl
  | removed => cases hl
  | off quiet => exact quiet

theorem Closing.reported (h : Closing e se r []) (hr : r ≠ none) : False := by
  cases h.idle with
  | idle => exact hr rfl

theorem Reading.reported (h : Reading e se r []) : e = .epollin ∧ se = .epollin ∧ r = some .epollin := by
  cases h with
  | waiting => exact ⟨rfl, rfl, rfl⟩

theorem Reading.wanted (h : Reading e se r loop) : e ≠ .none := by
  cases h <;> simp

/-- What is written from an empty buffer leaves it empty. -/
theorem Empty.writeFd {c : Buffer} {io : SocketResults} {t : Int} {wbuf : Buffer}
    {sent : List Buffer.Piece} (h : Empty c) (hwrite : c.writeFd io.head io.extra = .ok (t, wbuf, sent))
    (head : io.head.taken ≤ c.readable) (extra : io.extra.taken ≤ c.extraable) : Empty wbuf := by
  obtain ⟨left, left'⟩ := Buffer.writeFd_left hwrite head extra
  exact ⟨by rw [left, h.1, Nat.zero_sub], by rw [left', h.2, Nat.zero_sub]⟩

/-- Unless a write parts head and payload, the last byte of the one goes with the last
byte of the other. -/
theorem empty_of_written {events : Events} {io : SocketResults} {t : Int} {wbuf : Buffer}
    {sent : List Buffer.Piece} (hin : events.epollin = false) (hev : events.epollout = true)
    (connected : w.conn.connected = true) (possible : Lifetime.Possible w.conn io)
    (hwrite : w.conn.wbuf.writeFd io.head io.extra = .ok (t, wbuf, sent)) (gone : wbuf.readable = 0) :
    w.Splits events io ∨ Empty wbuf := by
  obtain ⟨head, extra⟩ := Buffer.writeFd_left hwrite possible.2.1 possible.2.2
  have taken : Buffer.headTaken w.conn.wbuf io.head ≤ w.conn.wbuf.readable := by
    unfold Buffer.headTaken
    split_ifs
    · exact Nat.zero_le _
    · exact possible.2.1
  have leaves := TCPConnection.headLeaves_iff.mpr (le_antisymm taken (by omega))
  by_cases both : ExtraLeaves w.conn.wbuf io.extra
  · have all := leaves.extraLeaves_iff.mp both
    exact .inr ⟨gone, by omega⟩
  · exact .inl ⟨hin, hev, connected, leaves, both⟩

/-- What the handling of an event leaves to be kept up. -/
structure Noted (p : Outside) (w w' : PbClient) : Prop where
  stage : CallStage p w'
  completed : w'.completed = w.completed ∨ ∃ n str, w.completed.length = n ∧
    w'.completed = w.completed ++ [⟨n, some n, str⟩]
  error : w'.parseError = true → w.parseError = true ∨ p.fails = true

theorem callStage_event {events : Events} {io : SocketResults} {soError : Bool} (h : CallStage p w)
    (orderly : Orderly p w (.event events io soError none)) (idle : w.loop = [])
    (reported : w.Reported events) (possible : Lifetime.Possible w.conn io)
    (outcome : Outcome w events io soError none w') : Noted p w w' := by
  obtain ⟨_, ends, fails, splits⟩ := orderly
  have silent : ∀ {mask : Interest}, w.registered = some mask → mask ≠ .epollin →
      events.epollin = false := by
    intro mask hr other
    by_contra hin
    have same := reported.2.1 (Bool.eq_true_of_not_eq_false hin)
    rw [hr] at same
    exact other (Option.some.inj same)
  cases h with
  | connecting issued app done stage =>
      have at_once := stage
      rw [idle] at at_once
      obtain ⟨he, hse, hr, hb, hk⟩ := at_once.reported reported.1
      have out := silent hr (by simp)
      cases outcome with
      | silent _ => exact ⟨.connecting issued app done stage, .inl rfl, .inl⟩
      | connects =>
          refine ⟨.connecting issued app ⟨done.completed, done.session, done.ctxOf, done.ctx⟩ ?_,
            .inl rfl, .inl⟩
          change Connecting w.conn.event w.conn.sevent w.registered w.conn.connected _ w.pending
          rw [he, hse, hr, hb, hk]
          exact .answered
      | wrote _ _ connected _ => simp [connected] at hb
      | completes _ _ connected _ _ => simp [connected] at hb
      | ignored hin => simp [hin] at out
      | eof hin _ => simp [hin] at out
      | parsed hin _ _ _ _ => simp [hin] at out
      | answered hin _ _ _ _ _ => simp [hin] at out
  | resting _ _ _ stage =>
      rw [idle] at stage
      exact (stage.reported reported.1).elim
  | calling _ _ _ stage =>
      rw [idle] at stage
      exact ((Closing.off stage).reported reported.1).elim
  | sending out own app connected event stage =>
      have at_once := stage
      rw [idle] at at_once
      have hr := at_once.reported reported.1
      have quiet := silent hr (by simp)
      cases outcome with
      | silent _ => exact ⟨.sending out own app connected event stage, .inl rfl, .inl⟩
      | connects _ _ closed _ => simp [connected] at closed
      | wrote _ _ _ _ =>
          exact ⟨.sending (out.congr rfl rfl) ⟨own.session, own.ctxOf, own.ctx⟩ app connected event stage,
            .inl rfl, .inl⟩
      | completes _ hev _ hwrite gone =>
          have empty := (empty_of_written quiet hev connected possible hwrite gone).imp_left splits
          refine ⟨.reading (out.congr rfl rfl) ⟨own.session, own.ctxOf, own.ctx⟩ app connected empty ?_,
            .inl rfl, .inl⟩
          change Reading w.conn.event w.conn.sevent w.registered _
          generalize hse : w.conn.sevent = se at at_once
          rw [hr] at at_once
          cases at_once
          rw [event, hr]
          exact .switches
      | ignored hin => simp [hin] at quiet
      | eof hin _ => simp [hin] at quiet
      | parsed hin _ _ _ _ => simp [hin] at quiet
      | answered hin _ _ _ _ _ => simp [hin] at quiet
  | @reading n b out own app connected empty stage =>
      have at_once := stage
      rw [idle] at at_once
      obtain ⟨he, hse, hr⟩ := at_once.reported
      have quiet : events.epollout = true → False := by
        intro hev
        have same := reported.2.2 hev
        rw [hr] at same
        cases same
      cases outcome with
      | silent _ => exact ⟨.reading out own app connected empty stage, .inl rfl, .inl⟩
      | connects _ hev _ _ => exact (quiet hev).elim
      | wrote _ hev _ _ => exact (quiet hev).elim
      | completes _ hev _ _ _ => exact (quiet hev).elim
      | ignored _ =>
          exact ⟨.reading (out.congr rfl rfl) ⟨own.session, own.ctxOf, own.ctx⟩ app connected empty stage,
            .inl rfl, .inl⟩
      | eof hin hread =>
          refine ⟨.lost (ends ⟨hin, by rw [hread]; rfl⟩) (out.congr rfl rfl) ⟨own.session, own.ctxOf, own.ctx⟩ app
            connected empty ?_, .inl rfl, .inl⟩
          change Closing w.conn.event w.conn.sevent w.registered closeCallback
          rw [he, hse, hr]
          exact .resets
      | @parsed m rbuf ctx status session hin hread _ hctx parse =>
          refine ⟨.reading (out.congr rfl rfl) ⟨own.session, own.ctxOf, AnyContext.parseResponse_ctx parse⟩ app
            connected empty stage, .inl rfl, fun error => ?_⟩
          rcases Bool.or_eq_true_iff.mp error with old | new
          · exact .inl old
          · obtain rfl := of_decide_eq_true new
            have told : w.answer io = .ok (some .error) := by
              simp only [answer, hread, hctx]
              exact bind_ok.mpr ⟨_, rfl, bind_ok.mpr ⟨_, parse, rfl⟩⟩
            exact .inr (fails ⟨hin, told⟩)
      | @answered m rbuf ctx session call str hin hread _ hctx parse hcall =>
          obtain rfl := Option.some.inj (hcall.symm.trans own.session)
          refine ⟨.ending (b := b) ?_ app connected (.inl rfl) he hse hr,
            .inr ⟨call, str, out.completed, by rw [own.ctxOf]⟩, .inl⟩
          change (w.completed ++ [_]).length = w.issued + 0
          rw [List.length_append, out.completed, out.issued]
          rfl
  | ending _ _ _ at' _ _ _ =>
      rw [idle] at at'
      rcases at' with at' | ⟨at', _⟩
      · cases at'
      · cases at'
  | lost _ _ _ _ _ _ stage =>
      rw [idle] at stage
      exact (stage.reported reported.1).elim

/-- A move of the loop between its callbacks. -/
theorem CallStage.turn (h : CallStage p w) (same : SameCall w w') (conn : w'.conn = w.conn)
    (registered : w'.registered = w.registered) (loop : w'.loop = w.loop)
    (pending : w'.pending = w.pending) : CallStage p w' := by
  have out : ∀ {n : Nat}, Outstanding w n → Outstanding w' n := fun out =>
    out.congr same.issued same.completed
  cases h with
  | connecting issued app done stage =>
      refine .connecting (same.issued.trans issued) (same.app.trans app) (done.congr same) ?_
      rwa [conn, registered, loop, pending]
  | resting done app connected stage =>
      refine .resting (done.congr same) (same.app.trans app) (by rw [conn]; exact connected) ?_
      rwa [conn, registered, loop]
  | calling o calling connected stage =>
      refine .calling (out o) (calling.congr same) (by rw [conn]; exact connected) ?_
      rwa [conn, registered, loop]
  | sending o own app connected event stage =>
      refine .sending (out o) (own.congr same) (same.app.trans app) (by rw [conn]; exact connected)
        (by rw [conn]; exact event) ?_
      rwa [conn, registered, loop, pending]
  | reading o own app connected empty stage =>
      refine .reading (out o) (own.congr same) (same.app.trans app) (by rw [conn]; exact connected)
        (by rw [same.wbuf]; exact empty) ?_
      rwa [conn, registered, loop]
  | ending completed app connected at' event sevent reg =>
      refine .ending (by rw [same.completed, same.issued]; exact completed) (same.app.trans app)
        (by rw [conn]; exact connected) ?_ (by rw [conn]; exact event) (by rw [conn]; exact sevent)
        (registered.trans reg)
      rw [loop, same.ctx, same.ctxOf]
      exact at'
  | lost ends o own app connected empty stage =>
      refine .lost ends (out o) (own.congr same) (same.app.trans app) (by rw [conn]; exact connected)
        (by rw [same.wbuf]; exact empty) ?_
      rwa [conn, registered, loop]

theorem Closing.func (h : Closing e se r []) : Closing e se r [.updateChannel] := by
  cases h.idle with
  | idle => exact .off .update

/-- A function of the queue is taken up. -/
theorem callStage_func {k : Nat} (h : CallStage p w) (idle : w.loop = [])
    (hk : w.phase = .funcs (k + 1)) :
    CallStage p { w with phase := .funcs k, loop := [.updateChannel] } := by
  have same : SameCall w { w with phase := .funcs k, loop := [.updateChannel] } :=
    ⟨rfl, rfl, rfl, rfl, rfl, rfl, rfl, rfl⟩
  have before : w.pending = w.queued + k + 1 := by
    rw [pending, hk]
    rfl
  cases h with
  | connecting issued app done stage =>
      rw [idle, before] at stage
      obtain ⟨he, hse, hr, hb, none⟩ := stage.taken (Nat.succ_pos _)
      refine .connecting issued app (done.congr same) ?_
      change Connecting w.conn.event w.conn.sevent w.registered w.conn.connected [.updateChannel]
        (w.queued + k)
      rw [he, hse, hr, hb, Nat.succ.inj none]
      exact .adding (by simp)
  | resting done app connected stage =>
      rw [idle] at stage
      exact .resting (done.congr same) app connected stage.func
  | calling o calling connected stage =>
      rw [idle] at stage
      refine .calling (o.congr rfl rfl) (calling.congr same) connected ?_
      change Off w.conn.event w.conn.sevent w.registered [.updateChannel]
      generalize w.conn.event = e at stage ⊢
      generalize w.conn.sevent = se at stage ⊢
      generalize w.registered = r at stage ⊢
      cases stage
      exact .update
  | sending o own app connected event stage =>
      rw [idle] at stage
      refine .sending (o.congr rfl rfl) (own.congr same) app connected event ?_
      change Sending w.conn.sevent w.registered [.updateChannel] _ _
      generalize w.conn.sevent = se at stage ⊢
      generalize w.registered = r at stage ⊢
      cases stage with
      | registered => exact .changing (by simp)
      | queued _ => exact .adding (by simp)
  | reading o own app connected empty stage =>
      rw [idle] at stage
      obtain ⟨he, hse, hr⟩ := stage.reported
      refine .reading (o.congr rfl rfl) (own.congr same) app connected empty ?_
      change Reading w.conn.event w.conn.sevent w.registered [.updateChannel]
      rw [he, hse, hr]
      exact .update
  | ending _ _ _ at' _ _ _ =>
      rw [idle] at at'
      rcases at' with at' | ⟨at', _⟩
      · cases at'
      · cases at'
  | lost ends o own app connected empty stage =>
      rw [idle] at stage
      exact .lost ends (o.congr rfl rfl) (own.congr same) app connected empty stage.func

/-- A call begins where nothing of an earlier one is left. -/
theorem callStage_call {call : Call} (h : CallStage p w) (idle : w.loop = [])
    (connected : w.conn.connected = true) (finished : w.completed.length = w.issued) :
    CallStage p { w with issued := w.issued + 1, app := callMethod w.issued call } := by
  have begins : AllDone w → Off w.conn.event w.conn.sevent w.registered w.loop →
      CallStage p { w with issued := w.issued + 1, app := callMethod w.issued call } :=
    fun done off => .calling (n := w.issued) ⟨rfl, finished⟩ (@Calling.begins _ _ call (.inl rfl)
      done.session done.ctxOf) connected off
  have outstanding : ∀ {n : Nat}, ¬ Outstanding w n := fun {n} o => by
    have := o.issued
    have := o.completed
    omega
  cases h with
  | connecting _ _ done stage =>
      refine begins done ?_
      rw [connected, idle] at stage
      rw [idle]
      generalize w.conn.event = e at stage ⊢
      generalize w.conn.sevent = se at stage ⊢
      generalize w.registered = r at stage ⊢
      generalize w.pending = k at stage
      generalize hl : ([] : List ClientStmt) = loop at stage
      cases stage with
      | resets => cases hl
      | removing _ => cases hl
      | removed => cases hl
      | idle => exact hl ▸ .idle
  | resting done _ _ stage =>
      refine begins done ?_
      rw [idle] at stage ⊢
      exact stage.idle
  | calling o _ _ _ => exact (outstanding o).elim
  | sending o _ _ _ _ _ => exact (outstanding o).elim
  | reading o _ _ _ _ _ => exact (outstanding o).elim
  | lost _ o _ _ _ _ _ => exact (outstanding o).elim
  | ending _ _ _ at' _ _ _ =>
      rw [idle] at at'
      rcases at' with at' | ⟨at', _⟩
      · cases at'
      · cases at'

theorem Calls.of_same (h : Calls p w) (stage : CallStage p w') (completed : w'.completed = w.completed)
    (error : w'.parseError = true → w.parseError = true) : Calls p w' :=
  ⟨stage, by rw [completed]; exact h.numbered, by rw [completed]; exact h.own,
    fun he => h.error (error he)⟩

theorem calls_step (h : Calls p w) (orderly : Orderly p w m)
    (step : (asyncClient protocol).step w m w') : Calls p w' := by
  obtain ⟨_, enabled, rfl⟩ := step
  have turn : ∀ {w' : PbClient}, SameCall w w' → w'.conn = w.conn → w'.registered = w.registered →
      w'.loop = w.loop → w'.pending = w.pending → Calls p w' := fun same conn registered loop pending =>
    h.of_same (h.stage.turn same conn registered loop pending) same.completed same.parseError.symm.trans
  unfold next
  cases he : w.effect protocol m with
  | error f => exact turn ⟨rfl, rfl, rfl, rfl, rfl, rfl, rfl, rfl⟩ rfl rfl rfl rfl
  | ok w₁ =>
      cases m with
      | call call =>
          obtain rfl := Except.ok.inj he
          exact h.of_same (callStage_call h.stage orderly.1 orderly.2 enabled.2) rfl id
      | app =>
          simp only [effect] at he
          cases ha : w.app with
          | nil => exact absurd ha enabled
          | cons s rest =>
              simp only [ha] at he
              obtain ⟨⟨w₂, stmts⟩, run, he⟩ := bind_ok.mp he
              obtain rfl := Except.ok.inj he
              obtain ⟨stage, completed, error⟩ := callStage_app h.stage ha orderly run
              refine h.of_same stage completed fun failed => ?_
              rcases error with same | reset
              · exact same ▸ failed
              · exact absurd (reset.symm.trans failed) (by simp)
      | loop =>
          simp only [effect] at he
          cases hl : w.loop with
          | nil => exact absurd hl enabled
          | cons s rest =>
              simp only [hl] at he
              obtain ⟨⟨w₂, stmts⟩, run, he⟩ := bind_ok.mp he
              obtain rfl := Except.ok.inj he
              obtain ⟨stage, completed, error⟩ := callStage_loop h.stage hl run
              exact h.of_same stage completed error.symm.trans
      | event events io soError chain =>
          obtain rfl : chain = none := orderly.1
          obtain ⟨idle, polling, reported, possible⟩ := enabled
          have handled : CallStage p { w with phase := .handled } :=
            h.stage.turn ⟨rfl, rfl, rfl, rfl, rfl, rfl, rfl, rfl⟩ rfl rfl rfl
              (by simp [pending, polling, Phase.funcsLeft])
          have noted := callStage_event handled orderly idle reported possible (handle_ok he)
          rcases noted.completed with same | ⟨n, str, hn, grown⟩
          · refine ⟨noted.stage, by rw [same]; exact h.numbered, by rw [same]; exact h.own, fun error => ?_⟩
            exact (noted.error error).elim h.error id
          · refine ⟨noted.stage, ?_, fun c hc => ?_, fun error => (noted.error error).elim h.error id⟩
            · rw [grown, List.map_append, List.length_append, List.length_singleton, List.range_succ]
              exact congrArg₂ (· ++ ·) h.numbered (congrArg (fun k => [k]) hn.symm)
            · rw [grown] at hc
              rcases List.mem_append.mp hc with old | new
              · exact h.own c old
              · rw [List.mem_singleton.mp new]
      | quiet =>
          obtain rfl := Except.ok.inj he
          exact turn ⟨rfl, rfl, rfl, rfl, rfl, rfl, rfl, rfl⟩ rfl rfl rfl
            (by simp [pending, enabled.2, Phase.funcsLeft])
      | swap =>
          obtain rfl := Except.ok.inj he
          exact turn ⟨rfl, rfl, rfl, rfl, rfl, rfl, rfl, rfl⟩ rfl rfl rfl
            (by simp [pending, enabled.2, Phase.funcsLeft])
      | func =>
          obtain ⟨idle, more⟩ := enabled
          simp only [effect] at he
          cases hp : w.phase with
          | funcs n =>
              cases n with
              | zero => simp [hp, Phase.funcsLeft] at more
              | succ n =>
                  simp only [hp] at he
                  obtain rfl := Except.ok.inj he
                  exact h.of_same (callStage_func h.stage idle hp) rfl id
          | polling => simp [hp, Phase.funcsLeft] at more
          | handled => simp [hp, Phase.funcsLeft] at more
          | timers _ => simp [hp, Phase.funcsLeft] at more
      | poll =>
          obtain rfl := Except.ok.inj he
          exact turn ⟨rfl, rfl, rfl, rfl, rfl, rfl, rfl, rfl⟩ rfl rfl rfl
            (by simp [pending, enabled.2, Phase.funcsLeft])

theorem client_calls (run : Run (asyncClient protocol) es w) (guarded : Guarded (Orderly p) es) :
    Calls p w := by
  apply run.invariant guarded
  · rintro _ ⟨fd, atOnce, rfl⟩
    unfold constructed
    cases atOnce with
    | true => exact ⟨.connecting rfl rfl ⟨rfl, rfl, rfl, rfl⟩ .idle, rfl, by simp, by simp⟩
    | false => exact ⟨.connecting rfl rfl ⟨rfl, rfl, rfl, rfl⟩ .queued, rfl, by simp, by simp⟩
  · exact fun h orderly step => calls_step h orderly step

/-- Where the peer neither ends the stream nor answers with what is no response, no call is
left behind. -/
theorem calls_completed (run : Run (asyncClient protocol) es w)
    (guarded : Guarded (Orderly ⟨false, false, true⟩) es) :
    (w.completed.map Completed.session).Nodup ∧
      (w.Over → w.completed.length = w.issued ∧ w.session = none ∧ w.conn.ctx = none) := by
  have calls := client_calls run guarded
  refine ⟨by rw [calls.numbered]; exact List.nodup_range, fun finished => ?_⟩
  obtain ⟨event, _, _, _, app⟩ := finished.resolve_right fun failed => absurd (calls.error failed) (by simp)
  cases calls.stage with
  | connecting _ _ done _ => exact ⟨done.completed, done.session, done.ctx⟩
  | resting done _ _ _ => exact ⟨done.completed, done.session, done.ctx⟩
  | calling _ calling _ _ =>
      cases calling with
      | begins happ _ _ => simp [app, callMethod] at happ
      | context happ _ _ _ => simp [app, callMethod] at happ
      | fields happ _ _ => simp [app] at happ
      | packs happ _ => simp [app, sendRequest] at happ
      | wants happ _ => simp [app] at happ
  | sending _ _ _ _ wanted _ => simp [event] at wanted
  | reading _ _ _ _ _ stage => exact absurd event stage.wanted
  | ending _ _ _ _ wanted _ _ => simp [event] at wanted
  | lost ends _ _ _ _ _ _ => simp at ends

/-- The call under way keeps its session, its context and its interest, and every `done`
so far was run for its own call. -/
structure KeepsCalls (w : PbClient) : Prop where
  own : ∀ c ∈ w.completed, c.ctx = some c.session
  kept : ∀ n, w.issued = n + 1 → w.completed.length = n → w.app = [] →
    Own w n ∧ .deleteContext ∉ w.loop ∧ .resetSession ∉ w.loop ∧
      (¬ Empty w.conn.wbuf → w.conn.event = .epollout)

/-- What follows `done` in `response_callback` meets no later call. -/
theorem calls_kept (run : Run (asyncClient protocol) es w)
    (guarded : Guarded (Orderly ⟨true, true, false⟩) es) : KeepsCalls w := by
  have calls := client_calls run guarded
  refine ⟨calls.own, fun n issued completed app => ?_⟩
  have channel : (∀ s ∈ w.loop, ofChannel s = true) → .deleteContext ∉ w.loop ∧ .resetSession ∉ w.loop :=
    fun all => ⟨fun h => absurd (all _ h) (by simp [ofChannel]),
      fun h => absurd (all _ h) (by simp [ofChannel])⟩
  have same : ∀ {k : Nat}, Outstanding w k → k = n := fun out => out.completed.symm.trans completed
  cases calls.stage with
  | connecting none _ _ _ => omega
  | resting done _ _ _ =>
      have := done.completed
      omega
  | calling _ calling _ _ =>
      cases calling with
      | begins happ _ _ => simp [app, callMethod] at happ
      | context happ _ _ _ => simp [app, callMethod] at happ
      | fields happ _ _ => simp [app] at happ
      | packs happ _ => simp [app, sendRequest] at happ
      | wants happ _ => simp [app] at happ
  | sending out own _ _ event stage =>
      obtain rfl := same out
      obtain ⟨delete, reset⟩ := channel stage.all
      exact ⟨own, delete, reset, fun _ => event⟩
  | reading out own _ _ empty stage =>
      obtain rfl := same out
      obtain ⟨delete, reset⟩ := channel stage.all
      exact ⟨own, delete, reset, fun left => absurd (empty.resolve_left (by simp)) left⟩
  | ending finished _ _ _ _ _ _ => omega
  | lost _ out own _ _ empty stage =>
      obtain rfl := same out
      obtain ⟨delete, reset⟩ := channel stage.all
      exact ⟨own, delete, reset, fun left => absurd (empty.resolve_left (by simp)) left⟩

/-- A call, and its request on the way. -/
def requested : List ClientMove :=
  called ++ [.event { epollout := true } { head := .wrote 19, extra := .wrote 1 } false none] ++
    List.replicate 7 .loop ++ [.swap, .poll]

/-- One byte of payload in the binary protocol. -/
def response : Bytes := [0x19, 0x95, 0x10, 0x28, 0, 0, 0, 1, 0, 0, 0, 0, 0, 0, 0, 1, 99]

/-- The response comes, and `done` returns. -/
def answered : List ClientMove :=
  requested ++ [.event { epollin := true } { read := .data response } false none] ++
    List.replicate 9 .loop

theorem answered_completed :
    ((replay (next .simple) (constructed 5 true) answered).completed.map Completed.session).Nodup ∧
      ((replay (next .simple) (constructed 5 true) answered).Over →
        (replay (next .simple) (constructed 5 true) answered).completed.length =
          (replay (next .simple) (constructed 5 true) answered).issued ∧
        (replay (next .simple) (constructed 5 true) answered).session = none ∧
        (replay (next .simple) (constructed 5 true) answered).conn.ctx = none) :=
  calls_completed (run_client .simple 5 true answered (by decide +kernel)) (by decide +kernel)

/-- The peer closes the connection instead of answering. -/
def hungUp : List ClientMove :=
  requested ++ [.event { epollin := true } { read := .eof } false none] ++ List.replicate 7 .loop

/-- The client is deregistered, and `done` has not been run. -/
theorem call_left_behind :
    ¬ ∀ protocol es w, Run (asyncClient protocol) es w →
      (w.completed.map Completed.session).Nodup ∧
        (w.Over → w.completed.length = w.issued ∧ w.session = none ∧ w.conn.ctx = none) := by
  intro claim
  have run := run_client .simple 5 true hungUp (by decide +kernel)
  have done := (claim _ _ _ run).2 (.inl (by decide +kernel))
  exact absurd done.1 (by decide +kernel)

theorem answered_kept : KeepsCalls (replay (next .simple) (constructed 5 true) answered) :=
  calls_kept (run_client .simple 5 true answered (by decide +kernel)) (by decide +kernel)

/-- `done` calls again, and the call is made before `done` returns. -/
def chained : List ClientMove :=
  requested ++ [.event { epollin := true } { read := .data response } false (some ask)] ++
    List.replicate 21 .loop

/-- The second call has lost its session. -/
theorem chained_call_lost :
    ¬ ∀ protocol es w, Run (asyncClient protocol) es w → KeepsCalls w := by
  intro claim
  have run := run_client .simple 5 true chained (by decide +kernel)
  have kept := (claim _ _ _ run).kept 1 (by decide +kernel) (by decide +kernel) (by decide +kernel)
  exact absurd kept.1.session (by decide +kernel)

end SmallRpc.PbClient
