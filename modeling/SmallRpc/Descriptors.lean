import SmallRpc.TCPServer

/-! Who closes a descriptor, and how often. `close_callback` closes it once and the
destructor of the deleted connection once more; between the two the number is free, and
the next connection may get it. -/
namespace SmallRpc
open Runs

namespace Lifetime

/-- The statements in front of a `close_callback` close nothing; nor does a callback
without one. -/
def Tidy (agenda : List Stmt) : Prop :=
  ∃ pre, (∀ s ∈ pre, s.closes = 0) ∧
    (agenda = pre ∨ agenda = pre ++ [.closeFd, .removeChannel, .deleteConn])

/-- How far a connection is on its way out, and how often its descriptor was closed. -/
inductive CloseState (l : Lifetime) : Prop
  | opened {c : TCPConnection} : l.conn = some c → l.closed = 0 → Tidy l.agenda → CloseState l
  | shut {c : TCPConnection} : l.conn = some c → l.closed = 1 →
      (l.agenda = [.removeChannel, .deleteConn] ∨ l.agenda = [.deleteConn]) → CloseState l
  | gone : l.conn = none → l.closed = 2 → l.agenda = [] → CloseState l

structure Closable (l : Lifetime) : Prop where
  state : CloseState l
  setup : ∀ s ∈ l.setup, s.closes = 0
  todo : ∀ pack ∈ l.packs, ∀ s ∈ pack.todo, s.closes = 0

/-- The last statement of `close_callback`. -/
def Deletes (l : Lifetime) (m : Move) : Prop := m = .stmt ∧ l.agenda.head? = some .deleteConn

instance (l : Lifetime) (m : Move) : Decidable (l.Deletes m) := inferInstanceAs (Decidable (_ ∧ _))

variable {srv : PbServer} {l l' : Lifetime} {s : Stmt} {m : Move} {rest : List Stmt} {fd : Nat}
  {ls : List (Lifetime × Move)}

theorem armTimer_closes {ms : Int} {kind : TimerKind} (h : s ∈ PbServer.armTimer ms kind) :
    s.closes = 0 := by
  unfold PbServer.armTimer at h
  split_ifs at h
  · simp only [List.mem_cons, List.not_mem_nil, or_false] at h
    rcases h with rfl | rfl <;> rfl
  · cases h

theorem newConnectionCallback_closes (h : s ∈ srv.newConnectionCallback) : s.closes = 0 := by
  simp only [PbServer.newConnectionCallback, List.mem_append, List.mem_cons, List.not_mem_nil,
    or_false] at h
  rcases h with ((rfl | rfl | rfl) | timer) | rfl | rfl | rfl
  all_goals first | rfl | exact armTimer_closes timer

theorem responseCallback_closes {n : Nat} {respStr : Bytes}
    (h : s ∈ srv.responseCallback n respStr) : s.closes = 0 := by
  simp only [PbServer.responseCallback, List.mem_append, List.mem_cons, List.not_mem_nil,
    or_false] at h
  rcases h with (rfl | rfl | rfl | rfl | rfl | rfl) | timer
  all_goals first | rfl | exact armTimer_closes timer

theorem closeCallback_tidy : Tidy PbServer.closeCallback :=
  ⟨[.setEvent .none, .updateChannel], by decide, .inr rfl⟩

theorem writeCompleteCallback_tidy {connType : ConnType} :
    Tidy (srv.writeCompleteCallback connType) := by
  unfold PbServer.writeCompleteCallback
  split_ifs
  · exact ⟨[.deleteContext, .clearBuffers, .setEvent .none, .updateChannel], by decide, .inr rfl⟩
  · refine ⟨_, fun s hs => ?_, .inl rfl⟩
    simp only [List.mem_append, List.mem_cons, List.not_mem_nil, or_false] at hs
    rcases hs with (rfl | rfl) | (rfl | rfl) | timer
    all_goals first | rfl | exact armTimer_closes timer

/-- The next statement of a tidy callback is harmless, or it is the `::close`. -/
theorem Tidy.next (h : Tidy (s :: rest)) :
    (s.closes = 0 ∧ Tidy rest) ∨ (s = .closeFd ∧ rest = [.removeChannel, .deleteConn]) := by
  obtain ⟨pre, harmless, heq⟩ := h
  cases pre with
  | nil =>
      rcases heq with heq | heq
      · cases heq
      · cases heq
        exact .inr ⟨rfl, rfl⟩
  | cons s' pre =>
      rcases heq with heq | heq
      · cases heq
        exact .inl ⟨harmless s (by simp), rest, fun t ht => harmless t (by simp [ht]), .inl rfl⟩
      · cases heq
        exact .inl ⟨harmless s (by simp), pre, fun t ht => harmless t (by simp [ht]), .inr rfl⟩

/-- A harmless statement keeps the state of the connection. -/
theorem CloseState.exec (h : CloseState l) (run : Executed s l l') (harmless : s.closes = 0) :
    CloseState l' := by
  have closed : l'.closed = l.closed := by rw [run.closed, harmless, Nat.add_zero]
  have conn : l'.conn = none → l.conn = none := fun none => by
    rcases run.gone none with same | rfl
    · exact same
    · cases harmless
  cases h with
  | @opened c hc h0 tidy =>
      cases hc' : l'.conn with
      | none =>
          rw [conn hc'] at hc
          cases hc
      | some c' => exact .opened hc' (closed.trans h0) (by rw [run.agenda]; exact tidy)
  | @shut c hc h1 agenda =>
      cases hc' : l'.conn with
      | none =>
          rw [conn hc'] at hc
          cases hc
      | some c' => exact .shut hc' (closed.trans h1) (by rw [run.agenda]; exact agenda)
  | gone hc h2 idle =>
      refine .gone ?_ (closed.trans h2) (run.agenda.trans idle)
      cases hc' : l'.conn with
      | none => rfl
      | some c' =>
          obtain ⟨_, c, hc'', _⟩ := run.kept c' hc'
          rw [hc] at hc''
          cases hc''

/-- A loop at rest begins a tidy callback, or none, on a connection that is there. -/
theorem CloseState.begin (h : CloseState l) (rest : l.AtRest) {c c' : TCPConnection}
    (hc : l.conn = some c) (conn : l'.conn = some c') (closed : l'.closed = l.closed)
    (agenda : Tidy l'.agenda) : CloseState l' := by
  cases h with
  | opened _ h0 _ => exact .opened conn (closed.trans h0) agenda
  | shut _ _ busy =>
      rw [rest.1] at busy
      simp at busy
  | gone none _ _ =>
      rw [none] at hc
      cases hc

theorem tidy_nil : Tidy [] := ⟨[], nofun, .inl rfl⟩

theorem closable_start : Closable (accepted srv fd) :=
  ⟨.opened rfl rfl tidy_nil, fun _ => newConnectionCallback_closes, nofun⟩

/-- One step, seen from the descriptor: it is closed only when it is still open or by
the deletion of the connection, which nothing else brings about. -/
structure ClosedStep (l : Lifetime) (m : Move) (l' : Lifetime) : Prop where
  closable : Closable l'
  mono : l.closed ≤ l'.closed
  closing : l'.closed ≠ l.closed → l.closed = 0 ∨ l.Deletes m
  gone : l'.conn = none → l.conn = none ∨ l.Deletes m

theorem ClosedStep.of_same (h : Closable l') (closed : l'.closed = l.closed)
    (conn : l'.conn = none → l.conn = none) : ClosedStep l m l' where
  closable := h
  mono := closed.ge
  closing hne := absurd closed hne
  gone none := .inl (conn none)

theorem CloseState.congr (h : CloseState l) (conn : l'.conn = l.conn) (closed : l'.closed = l.closed)
    (agenda : l'.agenda = l.agenda) : CloseState l' := by
  cases h with
  | opened hc h0 tidy => exact .opened (conn.trans hc) (closed.trans h0) (by rw [agenda]; exact tidy)
  | shut hc h1 busy => exact .shut (conn.trans hc) (closed.trans h1) (by rw [agenda]; exact busy)
  | gone hc h2 idle => exact .gone (conn.trans hc) (closed.trans h2) (agenda.trans idle)

/-- A harmless statement, taken off its list in the state `l`. -/
theorem Closable.exec (h : Closable l) (run : Executed s l l') (harmless : s.closes = 0) :
    ClosedStep l m l' where
  closable := ⟨h.state.exec run harmless, by rw [run.setup]; exact h.setup,
    by rw [run.packs]; exact h.todo⟩
  mono := by rw [run.closed]; exact Nat.le_add_right _ _
  closing hne := absurd (by rw [run.closed, harmless, Nat.add_zero]) hne
  gone none := by
    rcases run.gone none with same | rfl
    · exact .inl same
    · cases harmless

/-- The next statement of the loop's callback. -/
theorem closedStep_stmt (h : Closable l) (hs : l.agenda = s :: rest)
    (run : Executed s { l with agenda := rest } l') : ClosedStep l .stmt l' := by
  have others : Closable l' ↔ CloseState l' :=
    ⟨Closable.state, fun state => ⟨state, by rw [run.setup]; exact h.setup,
      by rw [run.packs]; exact h.todo⟩⟩
  have closed : l'.closed = l.closed + s.closes := run.closed
  cases h.state with
  | @opened c hc h0 tidy =>
      rw [hs] at tidy
      rcases tidy.next with ⟨harmless, tidy'⟩ | ⟨rfl, rfl⟩
      · have later : Closable { l with agenda := rest } := ⟨.opened hc h0 tidy', h.setup, h.todo⟩
        obtain ⟨closable, mono, closing, gone⟩ := later.exec (m := .quiet) run harmless
        exact ⟨closable, mono, fun _ => .inl h0, fun none => (gone none).imp_right fun d => nomatch d.1⟩
      · refine ⟨others.mpr ?_, by omega, fun _ => .inl h0, fun none => ?_⟩
        · cases hc' : l'.conn with
          | none =>
              rcases run.gone hc' with same | other
              · rw [hc] at same
                cases same
              · cases other
          | some c' => exact .shut hc' (by rw [closed, h0]; rfl) (.inl run.agenda)
        · rcases run.gone none with same | other
          · exact .inl same
          · cases other
  | @shut c hc h1 busy =>
      rw [hs] at busy
      rcases busy with busy | busy
      · cases busy
        have later : Closable { l with agenda := [.deleteConn] } :=
          ⟨.shut hc h1 (.inr rfl), h.setup, h.todo⟩
        obtain ⟨closable, mono, closing, gone⟩ := later.exec (m := .quiet) run rfl
        refine ⟨closable, mono, fun hne => absurd closed hne, fun none => ?_⟩
        exact (gone none).imp_right fun d => nomatch d.1
      · cases busy
        have deletes : l.Deletes .stmt := ⟨rfl, by rw [hs]; rfl⟩
        refine ⟨others.mpr ?_, by omega, fun _ => .inr deletes, fun _ => .inr deletes⟩
        refine .gone ?_ (by rw [closed, h1]; rfl) run.agenda
        cases hc' : l'.conn with
        | none => rfl
        | some c' => exact absurd rfl (run.kept c' hc').1
  | gone _ _ idle =>
      rw [hs] at idle
      cases idle

theorem closedStep_event {events : Events} {io : SocketResults} {answer : Answer} {c : TCPConnection}
    (h : Closable l) (rest : l.AtRest) (hc : l.conn = some c)
    (outcome : Outcome srv { l with phase := .handled } c events io answer l') :
    ClosedStep l m l' := by
  have idle : Tidy l.agenda := by
    rw [rest.1]
    exact tidy_nil
  cases outcome with
  | wrote => exact .of_same ⟨h.state.begin rest hc rfl rfl idle, h.setup, h.todo⟩ rfl nofun
  | ignored _ => exact .of_same ⟨h.state.begin rest hc rfl rfl idle, h.setup, h.todo⟩ rfl nofun
  | waits _ _ _ _ _ => exact .of_same ⟨h.state.begin rest hc rfl rfl idle, h.setup, h.todo⟩ rfl nofun
  | closes _ _ =>
      exact .of_same ⟨h.state.begin rest hc rfl rfl closeCallback_tidy, h.setup, h.todo⟩ rfl nofun
  | completes _ _ _ _ _ =>
      exact .of_same ⟨h.state.begin rest hc rfl rfl writeCompleteCallback_tidy, h.setup, h.todo⟩
        rfl nofun
  | dispatches _ _ _ _ _ _ =>
      refine .of_same ⟨h.state.begin rest hc rfl rfl idle, h.setup, fun p hm s hs => ?_⟩ rfl nofun
      rcases List.mem_append.mp hm with old | new
      · exact h.todo p old s hs
      · obtain rfl := List.mem_singleton.mp new
        exact responseCallback_closes hs

theorem closed_step (h : Closable l) (step : Step srv l m l') : ClosedStep l m l' := by
  have same : ∀ {l'' : Lifetime}, l''.conn = l.conn → l''.closed = l.closed →
      l''.agenda = l.agenda → l''.setup = l.setup → l''.packs = l.packs → ClosedStep l m l'' :=
    fun conn closed agenda setup packs => .of_same ⟨h.state.congr conn closed agenda,
      by rw [setup]; exact h.setup, by rw [packs]; exact h.todo⟩ closed conn.symm.trans
  cases step_moved step with
  | fault _ => exact same rfl rfl rfl rfl rfl
  | quiet _ => exact same rfl rfl rfl rfl rfl
  | swap _ _ => exact same rfl rfl rfl rfl rfl
  | drain _ _ _ => exact same rfl rfl rfl rfl rfl
  | stale _ _ => exact same rfl rfl rfl rfl rfl
  | poll _ _ => exact same rfl rfl rfl rfl rfl
  | expire rest _ _ hc _ =>
      exact .of_same ⟨h.state.begin rest hc hc rfl closeCallback_tidy, h.setup, h.todo⟩ rfl id
  | stmt hs run => exact closedStep_stmt h hs run
  | event rest _ hc _ _ outcome => exact closedStep_event h rest hc outcome
  | @setup s rest _ hs run =>
      have later : Closable { l with setup := rest } :=
        ⟨h.state.congr rfl rfl rfl, fun t ht => h.setup t (by simp [hs, ht]), h.todo⟩
      obtain ⟨closable, mono, closing, gone⟩ := later.exec (m := .setup) run (h.setup s (by simp [hs]))
      exact ⟨closable, mono, closing, gone⟩
  | @respond n pack s rest _ hp hs run =>
      have hmem : pack ∈ l.packs := List.mem_of_getElem? hp
      have later : Closable { l with packs := l.packs.set n { pack with todo := rest } } := by
        refine ⟨h.state.congr rfl rfl rfl, h.setup, fun p hm t ht => ?_⟩
        rcases List.mem_or_eq_of_mem_set hm with old | rfl
        · exact h.todo p old t ht
        · exact h.todo pack hmem t (by rw [hs]; exact List.mem_cons_of_mem _ ht)
      obtain ⟨closable, mono, closing, gone⟩ :=
        later.exec (m := .respond n) run (h.todo pack hmem s (by simp [hs]))
      exact ⟨closable, mono, closing, gone⟩
  | @func n _ _ hp run =>
      have later : Closable { l with phase := .funcs n } :=
        ⟨h.state.congr rfl rfl rfl, h.setup, h.todo⟩
      obtain ⟨closable, mono, closing, gone⟩ := later.exec (m := .func) run rfl
      exact ⟨closable, mono, closing, gone⟩

/-- The last statement of `close_callback` always runs as the second `::close`. -/
theorem delete_step (h : Closable l) (deletes : l.Deletes m) (step : Step srv l m l') :
    l'.conn = none ∧ l'.closed = 2 := by
  obtain ⟨rfl, head⟩ := deletes
  obtain ⟨_, _, rfl⟩ := step
  have last : ∀ {c : TCPConnection}, l.conn = some c → l.agenda = [.deleteConn] →
      l.next srv .stmt = { l with conn := none, agenda := [], closed := l.closed + 1 } := by
    intro c hc hl
    simp only [next, effect, hl, exec, withConn, hc]
  cases h.state with
  | opened _ _ tidy =>
      cases hl : l.agenda with
      | nil => simp [hl] at head
      | cons s rest =>
          rw [hl] at tidy head
          obtain rfl : s = .deleteConn := Option.some.inj head
          rcases tidy.next with ⟨harmless, _⟩ | ⟨other, _⟩
          · cases harmless
          · cases other
  | shut hc h1 busy =>
      rcases busy with hl | hl
      · simp [hl] at head
      · rw [last hc hl]
        exact ⟨rfl, by rw [h1]⟩
  | gone _ _ idle => simp [idle] at head

theorem lifetime_closable (run : Run (lifetime srv fd) ls l) : Closable l := by
  apply run.invariant guarded_true
  · rintro _ rfl
    exact closable_start
  · exact fun h _ step => (closed_step h step).closable

theorem closed_of_deletes (run : Run (lifetime srv fd) ls l) {e : Lifetime × Move} (he : e ∈ ls)
    (deletes : e.1.Deletes e.2) : 2 ≤ l.closed := by
  obtain ⟨l₀, start, path⟩ := run
  induction path with
  | nil => cases he
  | @snoc ls t m u path step ih =>
      have closable := lifetime_closable ⟨l₀, start, path⟩
      rcases List.mem_append.mp he with earlier | last
      · exact (ih earlier).trans (closed_step closable step).mono
      · rw [List.mem_singleton.mp last] at deletes
        exact (delete_step closable deletes step).2.ge

/-- A descriptor is closed twice once its connection is deleted, and at most once before. -/
theorem closed_le_one (h : Closable l) : l.closed ≤ 1 ↔ l.conn ≠ none := by
  cases h.state with
  | opened hc h0 _ => simp [hc, h0]
  | shut hc h1 _ => simp [hc, h1]
  | gone hc h2 _ => simp [hc, h2]

end Lifetime

namespace TCPServer
open Lifetime

/-- The step closes no descriptor that at that moment belongs to another live connection. -/
def ClosesOwn (srv : PbServer) (w : TCPServer) (a : Action) : Prop :=
  ∀ i m client, a = .act i m → w.clients[i]? = some client →
    (client.life.next srv m).closed ≠ client.life.closed →
    ∀ j other, j ≠ i → w.clients[j]? = some other → other.life.conn ≠ none →
      w.files client.fd ≠ some (.conn j)

/-- Every descriptor from `::accept` is closed at most once, exactly once by the time its
connection is gone, and never on behalf of another connection. -/
structure ClosedOnce (srv : PbServer) (es : List (TCPServer × Action)) (w : TCPServer) : Prop where
  once : ∀ client ∈ w.clients, client.life.closed ≤ 1 ∧
    (client.life.conn = none → client.life.closed = 1)
  own : Guarded (ClosesOwn srv) es

/-- As long as nothing has been deleted, a number stands for the connection it was
handed out to until that connection closes it. -/
structure Owned (w : TCPServer) : Prop where
  lives : ∀ client ∈ w.clients, Closable client.life ∧ client.life.conn ≠ none
  files : ∀ i client, w.clients[i]? = some client → client.life.closed = 0 →
    w.files client.fd = some (.conn i)

variable {srv : PbServer} {threadNum : Nat} {w w' : TCPServer} {a : Action}
  {es : List (TCPServer × Action)} {files : Nat → Option File} {fd n : Nat} {file : Option File}

theorem setFile_self : setFile files fd file fd = file := if_pos rfl
theorem setFile_other (h : n ≠ fd) : setFile files fd file n = files n := if_neg h

theorem owned_start (h : Started threadNum w) : Owned w := by
  obtain ⟨_, none, _, _⟩ := h
  exact ⟨by simp [none], by simp [none]⟩

theorem owned_step (h : Owned w) (guard : Each (fun l m => ¬ l.Deletes m) w a)
    (step : (server srv threadNum).step w a w') : Owned w' := by
  cases server_step step with
  | refused clients files => exact ⟨by rw [clients]; exact h.lives, by rw [clients, files]; exact h.files⟩
  | @accepted fd _ loop free clients files =>
      refine ⟨fun client hm => ?_, fun i client hc h0 => ?_⟩
      · rw [clients] at hm
        rcases List.mem_append.mp hm with old | new
        · exact h.lives client old
        · obtain rfl := List.mem_singleton.mp new
          exact ⟨closable_start, by simp [accepted]⟩
      · rw [clients] at hc
        rw [files]
        by_cases hi : i < w.clients.length
        · rw [List.getElem?_append_left hi] at hc
          have mine := h.files i client hc h0
          rw [setFile_other fun same => by rw [same, free] at mine; cases mine]
          exact mine
        · rw [List.getElem?_append_right (by omega), List.getElem?_singleton] at hc
          split_ifs at hc with hlen
          obtain rfl := Option.some.inj hc
          rw [setFile_self]
          congr 2
          omega
  | @acted i m client life _ hc moved clients files =>
      obtain ⟨closable, alive⟩ := h.lives client (List.mem_of_getElem? hc)
      have keep : ¬ client.life.Deletes m := each_act.mp guard client hc
      have once := closed_step closable moved
      have hlt : i < w.clients.length := (List.getElem?_eq_some_iff.mp hc).1
      refine ⟨fun other hm => ?_, fun j other ho h0 => ?_⟩
      · rw [clients] at hm
        rcases List.mem_or_eq_of_mem_set hm with old | rfl
        · exact h.lives other old
        · exact ⟨once.closable, fun none => (once.gone none).elim alive keep⟩
      · rw [clients] at ho
        rw [files]
        by_cases hj : i = j
        · subst hj
          rw [List.getElem?_set_self hlt] at ho
          obtain rfl := Option.some.inj ho
          have still : life.closed = 0 := h0
          have mono := once.mono
          rw [if_pos (by omega)]
          exact h.files i client hc (by omega)
        · rw [List.getElem?_set_ne hj] at ho
          have mine := h.files j other ho h0
          split_ifs with same
          · exact mine
          · rw [setFile_other fun hfd => ?_]
            · exact mine
            · have his := h.files i client hc ((once.closing same).resolve_right keep)
              rw [← hfd, mine] at his
              exact hj (File.conn.inj (Option.some.inj his)).symm

/-- Without a deletion every `::close` is the connection's own and its first. -/
theorem closesOwn_of_owned (h : Owned w) (guard : Each (fun l m => ¬ l.Deletes m) w a)
    (enabled : w.Enabled srv a) : ClosesOwn srv w a := by
  rintro i m client rfl hc closing j other hj _ _ theirs
  obtain ⟨running, client', hc', ready, _⟩ := enabled
  rw [Option.mem_def, hc] at hc'
  obtain rfl := Option.some.inj hc'
  have moved : Step srv client.life m (client.life.next srv m) :=
    ⟨running.2 client (List.mem_of_getElem? hc), ready, rfl⟩
  have keep : ¬ client.life.Deletes m := each_act.mp guard client hc
  have once := closed_step (h.lives client (List.mem_of_getElem? hc)).1 moved
  have mine := h.files i client hc ((once.closing closing).resolve_right keep)
  rw [theirs] at mine
  exact hj (File.conn.inj (Option.some.inj mine))

/-- Every descriptor is closed exactly once in those runs in which no `close_callback`
gets to delete its connection. -/
theorem closedOnce_iff (run : Run (server srv threadNum) es w) :
    ClosedOnce srv es w ↔ Guarded (Each fun l m => ¬ l.Deletes m) es := by
  constructor
  · intro closed e he i l m hp deletes
    obtain ⟨_, _, path⟩ := id run
    obtain ⟨client, hc⟩ := client_of_part path he hp
    have twice := closed_of_deletes (project_run run hc) (List.mem_filterMap.mpr ⟨e, he, hp⟩) deletes
    have once := (closed.once client (List.mem_of_getElem? hc)).1
    omega
  · intro keep
    have owned : Owned w := run.invariant keep owned_start fun h guard step => owned_step h guard step
    refine ⟨fun client hm => ?_, ?_⟩
    · obtain ⟨closable, alive⟩ := owned.lives client hm
      exact ⟨(closed_le_one closable).mpr alive, fun none => absurd none alive⟩
    · have enabled : Guarded (fun w a => Enabled srv w a) es := run.guarded fun step => step.1
      exact run.forall_steps (I := Owned) (keep.and enabled) owned_start
        (fun h guard step => owned_step h guard.1 step)
        fun h guard => closesOwn_of_owned h guard.1 guard.2

/-- A connection is accepted and set up, and its client leaves. -/
def visit (i fd : Nat) : List Action :=
  .accept (.conn fd) :: List.replicate 6 (.act i .setup) ++
    [.act i (.event { epollin := true } { read := .eof } {})]

/-- Up to the last statement of `close_callback`. -/
theorem visit_closedOnce_iff :
    ClosedOnce (echo false) (visits (next (echo false) 2) booted
        (visit 0 7 ++ List.replicate 4 (.act 0 .stmt)))
      (replay (next (echo false) 2) booted (visit 0 7 ++ List.replicate 4 (.act 0 .stmt))) ↔
    Guarded (Each fun l m => ¬ l.Deletes m) (visits (next (echo false) 2) booted
      (visit 0 7 ++ List.replicate 4 (.act 0 .stmt))) :=
  closedOnce_iff (run_visits (echo false) _ (by decide +kernel))

/-- Between the two closes the main reactor accepts, on the same number. -/
def numberReused : List Action :=
  visit 0 7 ++ List.replicate 3 (.act 0 .stmt) ++ [.accept (.conn 7), .act 0 .stmt]

/-- The deletion of the first connection closes the descriptor of the second. -/
theorem closes_foreign_descriptor :
    ¬ ∀ srv threadNum es w, Run (server srv threadNum) es w → ClosedOnce srv es w := by
  intro claim
  have run := run_visits (echo false) (numberReused ++ [.act 0 .stmt])
    (by decide +kernel)
  have own := (claim _ _ _ _ run).own _ visits_last
  exact own 0 .stmt _ rfl rfl (by decide +kernel) 1 _ (by decide) rfl (by decide +kernel)
    (by decide +kernel)

end TCPServer
end SmallRpc
