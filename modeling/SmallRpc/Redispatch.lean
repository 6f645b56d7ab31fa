import SmallRpc.Completions

/-! One request, one dispatch. A context that is complete stays attached until the
response is written, and the connection stays registered for reading until the
completion has run; what happens to bytes that arrive in between is settled here. -/
namespace SmallRpc

/-- Statements that touch neither the registration, nor the queue, nor the write buffer,
nor the presence of the connection and its context. -/
def Stmt.minor : Stmt → Bool
  | addChannel | bumpTimer | runAfter _ | install _ | unpack | setRpcStatus | setPayload _ => true
  | _ => false

end SmallRpc

namespace SmallRpc.Lifetime
open Runs

/-- A dispatched request whose response has not been written completely. -/
def Unwritten (l : Lifetime) : Prop := ∃ n < l.packs.length, n ∉ l.written

/-- A read, not at the end of the file, reaches `data_read_callback`. -/
def Reads (l : Lifetime) : Move → Prop
  | .event events io _ => events.epollin = true ∧ io.read ≠ .eof ∧ io.read ≠ .failed ∧
      ∃ c ∈ l.conn, .dataRead ∈ c.callbacks
  | _ => False

/-- `request_callback` is entered. -/
def Enters (srv : PbServer) (l : Lifetime) : Move → Prop
  | .event events io _ => events.epollin = true ∧ ∃ c n rbuf d, l.conn = some c ∧
      .dataRead ∈ c.callbacks ∧ c.rbuf.readFd io.read = .ok (n, rbuf) ∧ n ≠ 0 ∧
      srv.dataReadCallback { c with rbuf } = .ok (.request, d)
  | _ => False

instance (l : Lifetime) : Decidable l.Unwritten :=
  inferInstanceAs (Decidable (∃ n < l.packs.length, n ∉ l.written))

instance (l : Lifetime) : ∀ m, Decidable (Reads l m)
  | .event events io _ => inferInstanceAs (Decidable (events.epollin = true ∧ io.read ≠ .eof ∧
      io.read ≠ .failed ∧ ∃ c ∈ l.conn, .dataRead ∈ c.callbacks))
  | .setup => inferInstanceAs (Decidable False)
  | .quiet => inferInstanceAs (Decidable False)
  | .stmt => inferInstanceAs (Decidable False)
  | .swap => inferInstanceAs (Decidable False)
  | .func => inferInstanceAs (Decidable False)
  | .drain .. => inferInstanceAs (Decidable False)
  | .timer => inferInstanceAs (Decidable False)
  | .poll => inferInstanceAs (Decidable False)
  | .respond _ => inferInstanceAs (Decidable False)

/-- What the rest of a callback makes of the wanted and the registered events. -/
def settleAll (agenda : List Stmt) (e : Interest × Interest) : Interest × Interest :=
  agenda.foldl (fun e s => s.settle e) e

/-- Neither waits for the socket to become writable. -/
def Quiet (e : Interest × Interest) : Prop := e.1 ≠ .epollout ∧ e.2 ≠ .epollout

/-- The functions queued or taken and not yet run. -/
def funcsPending (l : Lifetime) : Nat := l.queued + l.phase.funcsLeft

def AllMinor (todo : List Stmt) : Prop := ∀ s ∈ todo, s.minor = true

/-- The setting up is past its `update_channel`, or the connection is not registered. -/
inductive SettingUp (l : Lifetime) (c : TCPConnection) : Prop
  | past : AllMinor l.setup → SettingUp l c
  | early {pre tail : List Stmt} : l.setup = pre ++ .updateChannel :: tail →
      (∀ s ∈ pre, s = .addChannel ∨ s = .setEvent .epollin) → AllMinor tail → l.agenda = [] →
      l.packs = [] → c.sevent = .none → SettingUp l c

/-- From the dispatch of request `n` to its last byte: what is left of the callback, the
pending functions, the two event masks, and what is in the write buffer. -/
inductive Stage (n : Nat) : List Stmt → Nat → Interest × Interest → List Nat → Prop
  | computing {pre tail : List Stmt} {e : Interest × Interest} : AllMinor pre → AllMinor tail →
      Quiet e → Stage n (pre ++ .packResponse n :: .setEvent .epollout :: .addFunc :: tail) 0 e []
  | packed {tail : List Stmt} {e : Interest × Interest} : AllMinor tail → Quiet e →
      Stage n (.setEvent .epollout :: .addFunc :: tail) 0 e [n]
  | wanted {tail : List Stmt} {s : Interest} : AllMinor tail → s ≠ .epollout →
      Stage n (.addFunc :: tail) 0 (.epollout, s) [n]
  | queued {todo : List Stmt} {s : Interest} : AllMinor todo → s ≠ .epollout →
      Stage n todo 1 (.epollout, s) [n]
  | writing {todo : List Stmt} : AllMinor todo → Stage n todo 0 (.epollout, .epollout) [n]

/-- Between two requests: every dispatched one is answered, and nothing of an answer is
left to be packed, wanted or queued. -/
structure Idle (l : Lifetime) : Prop where
  answered : ∀ n, n < l.packs.length ↔ n ∈ l.written
  packed : l.packed = []
  funcs : l.funcsPending = 0
  agenda : ∀ s ∈ l.agenda, s.queues = 0 ∧ s.packs = []
  todo : ∀ pack ∈ l.packs, AllMinor pack.todo

/-- During a request: the latest one is dispatched and not written, and its context,
complete, is still attached. -/
structure Serving (srv : PbServer) (l : Lifetime) (c : TCPConnection) (earlier : List Pack)
    (pack : Pack) : Prop where
  packs : l.packs = earlier ++ [pack]
  answered : ∀ n, n < earlier.length ↔ n ∈ l.written
  agenda : l.agenda = []
  complete : srv.Complete c
  todo : ∀ p ∈ earlier, AllMinor p.todo
  setup : AllMinor l.setup
  stage : Stage earlier.length pack.todo l.funcsPending (c.event, c.sevent) l.packed

/-- Where a connection stands between requests and during one. -/
inductive Turn (srv : PbServer) (l : Lifetime) (c : TCPConnection) : Prop
  | leaving : .deleteConn ∈ l.agenda → Turn srv l c
  | free : Idle l → Quiet (settleAll l.agenda (c.event, c.sevent)) → SettingUp l c → Turn srv l c
  | serving (earlier : List Pack) {pack : Pack} : Serving srv l c earlier pack → Turn srv l c

variable {srv : PbServer} {l l' : Lifetime} {c c' d : TCPConnection} {s : Stmt} {m : Move} {fd : Nat}
  {rest todo : List Stmt} {e : Interest × Interest} {ls : List (Lifetime × Move)} {n k : Nat}
  {earlier : List Pack} {pack : Pack} {packed : List Nat}

theorem armTimer_minor (ms : Int) (kind : TimerKind) : AllMinor (PbServer.armTimer ms kind) := by
  intro s hs
  unfold PbServer.armTimer at hs
  split_ifs at hs
  · simp only [List.mem_cons, List.not_mem_nil, or_false] at hs
    rcases hs with rfl | rfl <;> rfl
  · cases hs

theorem minor_settle (h : s.minor = true) : s.settle e = e := by
  cases s <;> first | rfl | cases h

theorem minor_queues (h : s.minor = true) : s.queues = 0 ∧ s.packs = [] := by
  cases s <;> first | exact ⟨rfl, rfl⟩ | cases h

theorem minor_keeps (h : s.minor = true) : s ≠ .deleteContext := by
  rintro rfl
  cases h

theorem AllMinor.tail (h : AllMinor (s :: rest)) : s.minor = true ∧ AllMinor rest :=
  ⟨h s List.mem_cons_self, fun t ht => h t (List.mem_cons_of_mem _ ht)⟩

theorem AllMinor.settleAll (h : AllMinor todo) : settleAll todo e = e := by
  induction todo with
  | nil => rfl
  | cons s rest ih =>
      obtain ⟨minor, later⟩ := h.tail
      change Lifetime.settleAll rest (s.settle e) = e
      rw [minor_settle minor]
      exact ih later

theorem SettingUp.minor (h : SettingUp l c) (hc : c.sevent ≠ .none) : AllMinor l.setup := by
  cases h with
  | past minor => exact minor
  | early _ _ _ _ _ none => exact absurd none hc

/-- The connection is complete as long as its context and its protocol stay. -/
theorem complete_congr (h : srv.Complete c) (protoIdx : c'.protoIdx = c.protoIdx)
    (progress : c'.ctx.map AnyContext.progress = c.ctx.map AnyContext.progress) :
    srv.Complete c' := by
  obtain ⟨protocol, hp, ctx, n, hc, hprog, hn⟩ := h
  change c.ctx = some ctx at hc
  rw [hc, Option.map_some, hprog] at progress
  obtain ⟨ctx', hc', hprog'⟩ := Option.map_eq_some_iff.mp progress
  exact ⟨protocol, by rw [protoIdx]; exact hp, ctx', n, hc', hprog', hn⟩

theorem Touched.complete (h : Touched s c c') (hs : s ≠ .deleteContext) (complete : srv.Complete c) :
    srv.Complete c' :=
  complete_congr complete h.protoIdx (by rw [h.progress, if_neg hs])

theorem Executed.funcsPending (h : Executed s l l') :
    l'.funcsPending = l.funcsPending + s.queues := by
  unfold Lifetime.funcsPending
  rw [h.queued, h.phase]
  exact Nat.add_right_comm ..

/-- A statement that queues and packs nothing leaves a connection idle. -/
theorem Idle.exec (h : Idle l) (run : Executed s l l') (hs : s.queues = 0 ∧ s.packs = []) :
    Idle l' where
  answered n := by rw [run.packs, run.written]; exact h.answered n
  packed := by rw [run.packed, h.packed, hs.2]; rfl
  funcs := by rw [run.funcsPending, h.funcs, hs.1]
  agenda := by rw [run.agenda]; exact h.agenda
  todo := by rw [run.packs]; exact h.todo

/-- One statement of `response_callback`. -/
theorem Stage.step (h : Stage n (s :: rest) k e packed) :
    s ≠ .deleteContext ∧ Stage n rest (k + s.queues) (s.settle e) (packed ++ s.packs) := by
  have minor : ∀ {s : Stmt} {rest : List Stmt}, AllMinor (s :: rest) → s ≠ .deleteContext ∧
      ∀ k e packed, k + s.queues = k ∧ s.settle e = e ∧ packed ++ s.packs = packed := by
    intro s rest hs
    obtain ⟨queues, packs⟩ := minor_queues hs.tail.1
    refine ⟨minor_keeps hs.tail.1, fun k e packed => ⟨by rw [queues]; rfl, minor_settle hs.tail.1, ?_⟩⟩
    rw [packs, List.append_nil]
  generalize htodo : s :: rest = todo at h
  cases h with
  | @computing pre tail _ hpre htail quiet =>
      cases pre with
      | nil =>
          obtain ⟨rfl, rfl⟩ := List.cons.inj htodo
          exact ⟨by simp, .packed htail quiet⟩
      | cons p pre =>
          obtain ⟨rfl, rfl⟩ := List.cons.inj htodo
          obtain ⟨keeps, same⟩ := minor hpre
          obtain ⟨hk, he, hp⟩ := same 0 e []
          rw [hk, he, hp]
          exact ⟨keeps, .computing hpre.tail.2 htail quiet⟩
  | @packed tail e htail quiet =>
      obtain ⟨rfl, rfl⟩ := List.cons.inj htodo
      exact ⟨by simp, .wanted htail quiet.2⟩
  | @wanted tail sevent htail hs =>
      obtain ⟨rfl, rfl⟩ := List.cons.inj htodo
      exact ⟨by simp, .queued htail hs⟩
  | @queued _ sevent htail hs =>
      subst htodo
      obtain ⟨keeps, same⟩ := minor htail
      obtain ⟨hk, he, hp⟩ := same 1 (.epollout, sevent) [n]
      rw [hk, he, hp]
      exact ⟨keeps, .queued htail.tail.2 hs⟩
  | writing htail =>
      subst htodo
      obtain ⟨keeps, same⟩ := minor htail
      obtain ⟨hk, he, hp⟩ := same 0 (.epollout, .epollout) [n]
      rw [hk, he, hp]
      exact ⟨keeps, .writing htail.tail.2⟩

/-- Moves that change nothing a turn depends on. -/
theorem Turn.frame (h : Turn srv l c) (setup : l'.setup = l.setup) (agenda : l'.agenda = l.agenda)
    (packs : l'.packs = l.packs) (written : l'.written = l.written) (packed : l'.packed = l.packed)
    (funcs : l'.funcsPending = l.funcsPending) (events : (c'.event, c'.sevent) = (c.event, c.sevent))
    (complete : srv.Complete c → srv.Complete c') : Turn srv l' c' := by
  cases h with
  | leaving delete => exact .leaving (agenda ▸ delete)
  | free idle quiet settingUp =>
      refine .free ⟨?_, by rw [packed, idle.packed], by rw [funcs, idle.funcs], ?_, ?_⟩ ?_ ?_
      · rw [packs, written]
        exact idle.answered
      · rw [agenda]
        exact idle.agenda
      · rw [packs]
        exact idle.todo
      · rw [agenda, events]
        exact quiet
      · cases settingUp with
        | past minor => exact .past (by rw [setup]; exact minor)
        | early hs hpre htail idle none none' =>
            exact .early (setup.trans hs) hpre htail (agenda.trans idle) (packs.trans none)
              ((congrArg Prod.snd events).trans none')
  | serving _ h =>
      refine .serving _ ⟨packs.trans h.packs, ?_, agenda.trans h.agenda, complete h.complete, h.todo,
        by rw [setup]; exact h.setup, ?_⟩
      · rw [written]
        exact h.answered
      · rw [funcs, events, packed]
        exact h.stage

theorem turn_setup {rest : List Stmt} (h : Turn srv l c) (hs : l.setup = s :: rest)
    (run : Executed s { l with setup := rest } l') (touched : Touched s c c') : Turn srv l' c' := by
  have later : Executed s l { l' with setup := l.setup } :=
    ⟨rfl, run.agenda, run.phase, run.packs, run.written, run.fault, run.queued, run.packed,
      run.closed, run.listed, run.gone, run.kept⟩
  have idle : (s.queues = 0 ∧ s.packs = []) → Idle l → Idle l' := fun hq idle =>
    let idle' := idle.exec later hq
    ⟨idle'.answered, idle'.packed, idle'.funcs, idle'.agenda, idle'.todo⟩
  cases h with
  | leaving delete => exact .leaving (by rw [run.agenda]; exact delete)
  | free before quiet settingUp =>
      cases settingUp with
      | past minor =>
          rw [hs] at minor
          obtain ⟨first, others⟩ := minor.tail
          refine .free (idle (minor_queues first) before) ?_ (.past (by rw [run.setup]; exact others))
          rw [run.agenda, touched.settled, minor_settle first]
          exact quiet
      | @early pre tail hsetup hpre htail none packs sevent =>
          have quiet' : c.event ≠ .epollout := by
            rw [none] at quiet
            exact quiet.1
          rw [hs] at hsetup
          cases pre with
          | nil =>
              obtain ⟨rfl, rfl⟩ := List.cons.inj hsetup
              refine .free (idle ⟨rfl, rfl⟩ before) ?_ (.past (by rw [run.setup]; exact htail))
              rw [run.agenda, touched.settled, none]
              exact ⟨quiet', quiet'⟩
          | cons p pre =>
              obtain ⟨rfl, rfl⟩ := List.cons.inj hsetup
              obtain ⟨first, others⟩ := List.forall_mem_cons.mp hpre
              have settled : (c'.event = .epollin ∨ c'.event = c.event) ∧ c'.sevent = c.sevent ∧
                  s.queues = 0 ∧ s.packs = [] := by
                have same := touched.settled
                rcases first with rfl | rfl
                · exact ⟨.inr (congrArg Prod.fst same), congrArg Prod.snd same, rfl, rfl⟩
                · exact ⟨.inl (congrArg Prod.fst same), congrArg Prod.snd same, rfl, rfl⟩
              obtain ⟨event, same, hq⟩ := settled
              refine .free (idle hq before) ?_ (.early run.setup others htail
                (run.agenda.trans none) (run.packs.trans packs) (same.trans sevent))
              rw [run.agenda, none]
              refine ⟨?_, ?_⟩
              · rcases event with hin | hsame
                · change c'.event ≠ _
                  rw [hin]
                  simp
                · change c'.event ≠ _
                  rw [hsame]
                  exact quiet'
              · change c'.sevent ≠ _
                rw [same, sevent]
                simp
  | @serving earlier pack h =>
      obtain ⟨first, others⟩ := AllMinor.tail (hs ▸ h.setup)
      obtain ⟨queues, packs⟩ := minor_queues first
      refine .serving _ ⟨run.packs.trans h.packs, ?_, run.agenda.trans h.agenda,
        touched.complete (minor_keeps first) h.complete, h.todo, by rw [run.setup]; exact others, ?_⟩
      · rw [run.written]
        exact h.answered
      · have funcs : l'.funcsPending = l.funcsPending + s.queues := later.funcsPending
        rw [funcs, touched.settled, run.packed, queues, packs, minor_settle first, List.append_nil]
        exact h.stage

theorem turn_stmt {rest : List Stmt} (h : Turn srv l c) (hs : l.agenda = s :: rest)
    (run : Executed s { l with agenda := rest } l') (touched : Touched s c c')
    (stays : s ≠ .deleteConn) : Turn srv l' c' := by
  cases h with
  | leaving delete =>
      rw [hs] at delete
      refine .leaving ?_
      rw [run.agenda]
      exact (List.mem_cons.mp delete).resolve_left (Ne.symm stays)
  | free idle quiet settingUp =>
      have agenda := idle.agenda
      rw [hs] at agenda quiet
      obtain ⟨first, others⟩ := List.forall_mem_cons.mp agenda
      have before : Idle { l with agenda := rest } :=
        ⟨idle.answered, idle.packed, idle.funcs, others, idle.todo⟩
      refine .free (before.exec run first) ?_ ?_
      · rw [run.agenda, touched.settled]
        exact quiet
      · cases settingUp with
        | past minor => exact .past (by rw [run.setup]; exact minor)
        | early _ _ _ none _ _ =>
            rw [hs] at none
            cases none
  | serving _ h =>
      have none := h.agenda
      rw [hs] at none
      cases none

theorem turn_respond {rest : List Stmt} (h : Turn srv l c) (hp : l.packs[n]? = some pack)
    (hs : pack.todo = s :: rest)
    (run : Executed s { l with packs := l.packs.set n { pack with todo := rest } } l')
    (touched : Touched s c c') : Turn srv l' c' := by
  have funcs : l'.funcsPending = l.funcsPending + s.queues := run.funcsPending
  cases h with
  | leaving delete => exact .leaving (by rw [run.agenda]; exact delete)
  | free idle quiet settingUp =>
      have minor := idle.todo pack (List.mem_of_getElem? hp)
      rw [hs] at minor
      obtain ⟨first, others⟩ := minor.tail
      have before : Idle { l with packs := l.packs.set n { pack with todo := rest } } := by
        refine ⟨fun k => ?_, idle.packed, idle.funcs, idle.agenda, fun p hm => ?_⟩
        · change k < (l.packs.set n { pack with todo := rest }).length ↔ k ∈ l.written
          rw [List.length_set]
          exact idle.answered k
        · rcases List.mem_or_eq_of_mem_set hm with old | rfl
          · exact idle.todo p old
          · exact others
      refine .free (before.exec run (minor_queues first)) ?_ ?_
      · rw [run.agenda, touched.settled, minor_settle first]
        exact quiet
      · cases settingUp with
        | past minor => exact .past (by rw [run.setup]; exact minor)
        | early _ _ _ _ none _ =>
            rw [none] at hp
            cases hp
  | @serving earlier last h =>
      rw [h.packs] at hp
      have packs := run.packs
      change l'.packs = l.packs.set n { pack with todo := rest } at packs
      rw [h.packs] at packs
      have setup : AllMinor l'.setup := by
        rw [run.setup]
        exact h.setup
      by_cases hn : n < earlier.length
      · rw [List.getElem?_append_left hn] at hp
        have minor := h.todo pack (List.mem_of_getElem? hp)
        rw [hs] at minor
        obtain ⟨first, others⟩ := minor.tail
        obtain ⟨queues, none⟩ := minor_queues first
        rw [List.set_append_left _ _ hn] at packs
        refine .serving _ ⟨packs, fun k => ?_, run.agenda.trans h.agenda,
          touched.complete (minor_keeps first) h.complete, fun p hm => ?_, setup, ?_⟩
        · rw [List.length_set, run.written]
          exact h.answered k
        · rcases List.mem_or_eq_of_mem_set hm with old | rfl
          · exact h.todo p old
          · exact others
        · rw [List.length_set, funcs, touched.settled, run.packed, queues, none,
            minor_settle first, List.append_nil]
          exact h.stage
      · obtain rfl : n = earlier.length := by
          have hlt := (List.getElem?_eq_some_iff.mp hp).1
          rw [List.length_append, List.length_singleton] at hlt
          omega
        rw [List.getElem?_concat_length] at hp
        obtain rfl := Option.some.inj hp
        rw [List.set_append_right _ _ le_rfl, Nat.sub_self] at packs
        have stage := h.stage
        rw [hs] at stage
        obtain ⟨keeps, stage'⟩ := stage.step
        refine .serving _ ⟨packs, ?_, run.agenda.trans h.agenda, touched.complete keeps h.complete,
          h.todo, setup, ?_⟩
        · rw [run.written]
          exact h.answered
        · rw [funcs, touched.settled, run.packed]
          exact stage'

variable {events : Events} {io : SocketResults} {answer : Answer}

theorem readFd_bytes {b rbuf : Buffer} {r : Buffer.ReadResult} {n : Int}
    (h : b.readFd r = .ok (n, rbuf)) (hn : n ≠ 0) : r ≠ .eof ∧ r ≠ .failed := by
  constructor
  · rintro rfl
    cases h
    exact hn rfl
  · rintro rfl
    cases h

theorem closeCallback_deletes : .deleteConn ∈ PbServer.closeCallback := by
  simp [PbServer.closeCallback]

/-- The completion leads back to waiting for a request, or away. -/
theorem writeComplete_turn {connType : ConnType}
    (settled : ∀ n, n < l.packs.length ↔ n ∈ l.written) (packed : l.packed = [])
    (funcs : l.funcsPending = 0) (todo : ∀ pack ∈ l.packs, AllMinor pack.todo)
    (setup : AllMinor l.setup) (agenda : l.agenda = srv.writeCompleteCallback connType) :
    Turn srv l c := by
  unfold PbServer.writeCompleteCallback at agenda
  split_ifs at agenda
  · refine .leaving ?_
    rw [agenda]
    exact List.mem_append_right _ closeCallback_deletes
  · have timer := armTimer_minor srv.readTimeoutMs .read
    refine .free ⟨settled, packed, funcs, ?_, todo⟩ ?_ (.past setup)
    · intro s hs
      rw [agenda, List.mem_append, List.mem_append] at hs
      rcases hs with first | second | last
      · simp only [List.mem_cons, List.not_mem_nil, or_false] at first
        rcases first with rfl | rfl <;> exact ⟨rfl, rfl⟩
      · simp only [List.mem_cons, List.not_mem_nil, or_false] at second
        rcases second with rfl | rfl <;> exact ⟨rfl, rfl⟩
      · exact minor_queues (timer s last)
    · have settle : settleAll l.agenda (c.event, c.sevent) = (.epollin, .epollin) := by
        rw [agenda]
        exact timer.settleAll (e := (.epollin, .epollin))
      rw [settle]
      exact ⟨by simp, by simp⟩

theorem Serving.unwritten (h : Serving srv l c earlier pack) : l.Unwritten := by
  refine ⟨earlier.length, ?_, fun written => ?_⟩
  · rw [h.packs, List.length_append]
    exact Nat.lt_add_one _
  · exact absurd ((h.answered _).mpr written) (Nat.lt_irrefl _)

theorem turn_event (h : Turn srv l c) (rest : l.AtRest) (hphase : l.phase = .polling)
    (hc : l.conn = some c) (reported : Reported c events)
    (guard : Reads l (.event events io answer) → ¬ l.Unwritten)
    (outcome : Outcome srv { l with phase := .handled } c events io answer l')
    (hc' : l'.conn = some c') : Turn srv l' c' := by
  have funcs : ∀ {k : Nat}, l.funcsPending = k →
      Lifetime.funcsPending { l with phase := .handled } = k := by
    rintro k rfl
    rw [Lifetime.funcsPending, Lifetime.funcsPending, hphase]
    rfl
  have noRead : l.Unwritten → ∀ n rbuf, events.epollin = true →
      c.rbuf.readFd io.read = .ok (n, rbuf) → n ≠ 0 → .dataRead ∉ c.callbacks := by
    intro unwritten n rbuf hin hread hn installed
    obtain ⟨noEof, noFail⟩ := readFd_bytes hread hn
    exact guard ⟨hin, noEof, noFail, c, hc, installed⟩ unwritten
  have parsed : ∀ {d : TCPConnection}, Parsed c d → (d.event, d.sevent) = (c.event, c.sevent) := by
    intro d hd
    rw [hd]
  cases outcome with
  | wrote =>
      obtain rfl := Option.some.inj hc'
      exact h.frame rfl rfl rfl rfl rfl (funcs rfl) rfl fun complete => complete_congr complete rfl rfl
  | ignored _ =>
      obtain rfl := Option.some.inj hc'
      exact h.frame rfl rfl rfl rfl rfl (funcs rfl) rfl fun complete => complete_congr complete rfl rfl
  | closes _ _ => exact .leaving closeCallback_deletes
  | @waits n rbuf d hin hread hn installed hcall =>
      obtain rfl := Option.some.inj hc'
      cases h with
      | leaving delete =>
          rw [rest.1] at delete
          cases delete
      | free idle quiet settingUp =>
          refine .free ⟨idle.answered, idle.packed, funcs idle.funcs, idle.agenda, idle.todo⟩ ?_ ?_
          · have same := parsed ((Parsed.rbuf c rbuf).trans (dataReadCallback_parsed hcall))
            rw [← same] at quiet
            exact quiet
          · exact .past (settingUp.minor reported.1)
      | serving _ h => exact absurd installed (noRead h.unwritten n rbuf hin hread hn)
  | @completes t wbuf sent ctx _ hout _ _ _ =>
      have waiting := reported.2.2 hout
      obtain rfl := Option.some.inj hc'
      cases h with
      | leaving delete =>
          rw [rest.1] at delete
          cases delete
      | free idle quiet settingUp =>
          rw [rest.1] at quiet
          exact absurd waiting quiet.2
      | @serving earlier pack h =>
          have stage := h.stage
          generalize htodo : pack.todo = todo at stage
          generalize hk : l.funcsPending = k at stage
          generalize he : (c.event, c.sevent) = e at stage
          generalize hpacked : l.packed = packed at stage
          have registered : e.2 = .epollout := by rw [← he]; exact waiting
          cases stage with
          | computing _ _ quiet => exact absurd registered quiet.2
          | packed _ quiet => exact absurd registered quiet.2
          | wanted _ other => exact absurd registered other
          | queued _ other => exact absurd registered other
          | writing minor =>
              refine writeComplete_turn (fun n => ?_) rfl (funcs hk) (fun p hm => ?_) h.setup rfl
              · change n < l.packs.length ↔ n ∈ l.written ++ [earlier.length]
                rw [h.packs, List.length_append, List.length_singleton, List.mem_append,
                  List.mem_singleton, ← h.answered n]
                omega
              · change p ∈ l.packs at hm
                rw [h.packs] at hm
                rcases List.mem_append.mp hm with old | last
                · exact h.todo p old
                · rw [List.mem_singleton.mp last, htodo]
                  exact minor
  | @dispatches n rbuf d request hin hread hn installed hcall _ =>
      obtain rfl := Option.some.inj hc'
      have same := parsed ((Parsed.rbuf c rbuf).trans (dataReadCallback_parsed hcall))
      cases h with
      | leaving delete =>
          rw [rest.1] at delete
          cases delete
      | free idle quiet settingUp =>
          rw [rest.1] at quiet
          refine .serving l.packs ⟨rfl, idle.answered, rest.1,
            PbServer.dataReadCallback_request hcall, idle.todo, settingUp.minor reported.1, ?_⟩
          have preparing : AllMinor [.unpack, .setRpcStatus, .setPayload answer.respStr] := by
            intro s hs
            simp only [List.mem_cons, List.not_mem_nil, or_false] at hs
            rcases hs with rfl | rfl | rfl <;> rfl
          have stage : Stage l.packs.length (srv.responseCallback l.packs.length answer.respStr) 0
              (c.event, c.sevent) [] := .computing preparing (armTimer_minor _ _) quiet
          rw [← same, ← idle.packed, ← funcs idle.funcs] at stage
          exact stage
      | serving _ h => exact absurd installed (noRead h.unwritten n rbuf hin hread hn)

theorem turn_step (h : ∀ c, l.conn = some c → Turn srv l c) (guard : Reads l m → ¬ l.Unwritten)
    (step : Step srv l m l') : ∀ c, l'.conn = some c → Turn srv l' c := by
  intro c' hc'
  have enabled := step.2.1
  have turned : ∀ {t : Lifetime}, t.conn = l.conn → t.setup = l.setup → t.agenda = l.agenda →
      t.packs = l.packs → t.written = l.written → t.packed = l.packed →
      t.funcsPending = l.funcsPending → t.conn = some c' → Turn srv t c' := by
    intro t conn setup agenda packs written packed funcs ht
    exact (h c' (conn ▸ ht)).frame setup agenda packs written packed funcs rfl id
  cases step_moved step with
  | fault _ => exact turned rfl rfl rfl rfl rfl rfl rfl hc'
  | setup hs run =>
      obtain ⟨_, c, hc, touched, _⟩ := run.kept c' hc'
      exact turn_setup (h c hc) hs run touched
  | stmt hs run =>
      obtain ⟨stays, c, hc, touched, _⟩ := run.kept c' hc'
      exact turn_stmt (h c hc) hs run touched stays
  | respond hp hs run =>
      obtain ⟨_, c, hc, touched, _⟩ := run.kept c' hc'
      exact turn_respond (h c hc) hp hs run touched
  | event rest _ hc reported _ outcome =>
      exact turn_event (h _ hc) rest enabled.2.1 hc reported guard outcome hc'
  | quiet _ =>
      refine turned rfl rfl rfl rfl rfl rfl ?_ hc'
      rw [funcsPending, funcsPending, enabled.2]
      rfl
  | swap _ hp =>
      refine turned rfl rfl rfl rfl rfl rfl ?_ hc'
      rw [funcsPending, funcsPending, hp]
      exact Nat.zero_add _
  | @func n _ rest hp run =>
      obtain ⟨_, c, hc, touched, _⟩ := run.kept c' hc'
      have before : l.funcsPending = l.queued + (n + 1) := by rw [funcsPending, hp]; rfl
      cases h c hc with
      | leaving delete =>
          rw [rest.1] at delete
          cases delete
      | free idle _ _ =>
          have none := idle.funcs
          omega
      | @serving earlier pack h =>
          have stage := h.stage
          generalize htodo : pack.todo = todo at stage
          generalize hk : l.funcsPending = k at stage
          generalize he : (c.event, c.sevent) = e at stage
          generalize hpacked : l.packed = packed at stage
          cases stage with
          | computing _ _ _ => omega
          | packed _ _ => omega
          | wanted _ _ => omega
          | writing _ => omega
          | queued minor _ =>
              refine .serving _ ⟨run.packs.trans h.packs, ?_, run.agenda.trans h.agenda,
                touched.complete (by simp) h.complete, h.todo, by rw [run.setup]; exact h.setup, ?_⟩
              · rw [run.written]
                exact h.answered
              · have after : l'.funcsPending = l.queued + n := run.funcsPending
                have none : l.queued + n = 0 := by omega
                have packed : l'.packed = [earlier.length] := run.packed.trans ((List.append_nil _).trans hpacked)
                rw [after, none, touched.settled, he, packed, htodo]
                exact .writing minor
  | drain _ hp _ =>
      refine turned rfl rfl rfl rfl rfl rfl ?_ hc'
      rw [funcsPending, funcsPending, hp]
      rfl
  | expire _ _ _ _ _ => exact .leaving closeCallback_deletes
  | stale _ hp =>
      refine turned rfl rfl rfl rfl rfl rfl ?_ hc'
      rw [funcsPending, funcsPending, hp]
      rfl
  | poll _ hp =>
      refine turned rfl rfl rfl rfl rfl rfl ?_ hc'
      rw [funcsPending, funcsPending, hp]
      rfl

theorem turn_start : ∀ c, (accepted srv fd).conn = some c → Turn srv (accepted srv fd) c := by
  intro c hc
  obtain rfl := Option.some.inj hc
  refine .free ⟨fun n => iff_of_false (Nat.not_lt_zero n) (List.not_mem_nil), rfl, rfl, nofun, nofun⟩
    (⟨by simp, by simp⟩ : Quiet (.none, .none)) ?_
  have setup : (accepted srv fd).setup = [.addChannel, .setEvent .epollin] ++ .updateChannel ::
      (PbServer.armTimer srv.readTimeoutMs .read ++
        [.install .dataRead, .install .close, .install .writeComplete]) := by
    simp [accepted, PbServer.newConnectionCallback]
  refine .early setup ?_ ?_ rfl rfl rfl
  · intro s hs
    simpa using hs
  · intro s hs
    rcases List.mem_append.mp hs with timer | install
    · exact armTimer_minor _ _ s timer
    · simp only [List.mem_cons, List.not_mem_nil, or_false] at install
      rcases install with rfl | rfl | rfl <;> rfl

theorem reads_of_enters (h : Enters srv l m) : Reads l m := by
  cases m with
  | event events io answer =>
      obtain ⟨hin, c, n, rbuf, d, hc, installed, hread, hn, _⟩ := h
      obtain ⟨noEof, noFail⟩ := readFd_bytes hread hn
      exact ⟨hin, noEof, noFail, c, hc, installed⟩
  | _ => exact h.elim

theorem readFd_of_reads {b : Buffer} {r : Buffer.ReadResult} (possible : ReadPossible b r)
    (noEof : r ≠ .eof) (noFail : r ≠ .failed) : ∃ n rbuf, b.readFd r = .ok (n, rbuf) ∧ n ≠ 0 := by
  cases r with
  | data bs =>
      refine ⟨_, _, rfl, fun none => possible.1 ?_⟩
      exact List.length_eq_zero_iff.mp (Int.natCast_eq_zero.mp none)
  | again => exact ⟨_, _, rfl, by decide⟩
  | eof => exact absurd rfl noEof
  | failed => exact absurd rfl noFail

/-- While a request is being served, every read leads to `request_callback`. -/
theorem enters_of_reads (h : ∀ c, l.conn = some c → Turn srv l c) (enabled : l.Enabled srv m)
    (reads : Reads l m) (unwritten : l.Unwritten) : Enters srv l m := by
  cases m with
  | event events io answer =>
      obtain ⟨rest, _, _, c, hc, _, possible⟩ := enabled
      obtain ⟨hin, noEof, noFail, d, hd, installed⟩ := reads
      rw [Option.mem_def] at hc hd
      obtain rfl := Option.some.inj (hc.symm.trans hd)
      obtain ⟨n, rbuf, hread, hn⟩ := readFd_of_reads possible.1 noEof noFail
      cases h c hc with
      | leaving delete =>
          rw [rest.1] at delete
          cases delete
      | free idle _ _ =>
          obtain ⟨n, hn, fresh⟩ := unwritten
          exact absurd ((idle.answered n).mp hn) fresh
      | serving _ h =>
          exact ⟨hin, c, n, rbuf, _, hc, installed, hread, hn,
            PbServer.dataReadCallback_complete (complete_congr h.complete rfl rfl)⟩
  | _ => exact reads.elim

/-- `request_callback` is not entered between a dispatch and the completion exactly if
nothing is read in between. -/
theorem entered_iff (run : Run (lifetime srv fd) ls l) :
    Guarded (fun l m => Enters srv l m → ¬ l.Unwritten) ls ↔
      Guarded (fun l m => Reads l m → ¬ l.Unwritten) ls := by
  constructor
  · obtain ⟨l₀, rfl, path⟩ := run
    intro entered
    induction path with
    | nil => exact guarded_nil
    | @snoc ls l m l' path step ih =>
        obtain ⟨before, here⟩ := guarded_snoc.mp entered
        have guarded := ih before
        refine guarded_snoc.mpr ⟨guarded, fun reads unwritten => ?_⟩
        have turns := path.invariant (I := fun l => ∀ c, l.conn = some c → Turn srv l c) guarded
          turn_start fun h guard step => turn_step h guard step
        exact here (enters_of_reads turns step.2.1 reads unwritten) unwritten
  · exact fun guarded => guarded.mono fun l m guard enters => guard (reads_of_enters enters)

end SmallRpc.Lifetime

namespace SmallRpc.TCPServer
open Runs Lifetime

variable {srv : PbServer} {threadNum : Nat} {w : TCPServer} {es : List (TCPServer × Action)}

/-- On every connection of every run, a request is dispatched once exactly if nothing is
read from its client until its response is written. -/
theorem dispatched_once_iff (run : Run (server srv threadNum) es w) :
    Guarded (Each fun l m => Enters srv l m → ¬ l.Unwritten) es ↔
      Guarded (Each fun l m => Reads l m → ¬ l.Unwritten) es :=
  ⟨each_run run fun run => (entered_iff run).mp, each_run run fun run => (entered_iff run).mpr⟩

theorem answered_dispatched_once :
    Guarded (Each fun l m => Enters (echo true) l m → ¬ l.Unwritten)
      (visits (next (echo true) 2) booted answered) :=
  (dispatched_once_iff (run_visits (echo true) answered (by decide +kernel))).mpr
    (by decide +kernel)

/-- One more byte arrives before the answer. -/
def impatient : List Action :=
  openRequest ++ [.act 0 (.event { epollin := true } { read := .data [0] } { later := true })]

/-- The byte calls the service a second time for the same request. -/
theorem dispatched_twice :
    ¬ ∀ srv threadNum es w, Run (server srv threadNum) es w →
      Guarded (Each fun l m => Enters srv l m → ¬ l.Unwritten) es := by
  intro claim
  have run := run_visits (echo true) impatient (by decide +kernel)
  have reads := each_run run (fun run => (entered_iff run).mp) (claim _ _ _ _ run)
  revert reads
  decide +kernel

end SmallRpc.TCPServer
