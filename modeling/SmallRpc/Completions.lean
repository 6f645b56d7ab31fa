import SmallRpc.ShortFields
import SmallRpc.TCPServer

/-! Completions against deletions. A dispatched request keeps a raw pointer to its
connection until its `response_callback` has finished and the function it queued has run;
nothing keeps the connection for it. -/
namespace SmallRpc.Lifetime
open Runs

/-- A `response_callback` has not finished, or a function it queued has not run. -/
def Outstanding (l : Lifetime) : Prop :=
  (∃ pack ∈ l.packs, pack.todo ≠ []) ∨ l.queued + l.phase.funcsLeft ≠ 0

/-- The connection is there, with a context. -/
def Attached (l : Lifetime) : Prop := ∃ c ∈ l.conn, c.ctx ≠ none

/-- The moves made on behalf of a dispatched request. -/
def Completes : Move → Prop
  | .respond _ => True
  | .func => True
  | _ => False

/-- The ways to `close_callback` and `write_complete_callback`: a read that closes, a
write that empties the head, a timer with the current id. -/
def Ends (srv : PbServer) (l : Lifetime) : Move → Prop
  | .event events io _ => ∃ c, l.conn = some c ∧
      ((events.epollin = true ∧ ∃ d, ReadCloses srv c io d) ∨
        (events.epollin = false ∧ events.epollout = true ∧ ∃ t wbuf sent,
          c.wbuf.writeFd io.head io.extra = .ok (t, wbuf, sent) ∧ wbuf.readable = 0))
  | .timer => ∃ c timer rest, l.conn = some c ∧ l.phase = .timers (timer :: rest) ∧
      l.listed = true ∧ c.timerId % 2 ^ 32 = timer.id % 2 ^ 32
  | _ => False

instance (l : Lifetime) : Decidable l.Outstanding := inferInstanceAs (Decidable (_ ∨ _))

instance (l : Lifetime) : Decidable l.Attached := inferInstanceAs (Decidable (∃ c ∈ l.conn, _))

instance : ∀ m, Decidable (Completes m)
  | .respond _ => inferInstanceAs (Decidable True)
  | .func => inferInstanceAs (Decidable True)
  | .setup => inferInstanceAs (Decidable False)
  | .event .. => inferInstanceAs (Decidable False)
  | .quiet => inferInstanceAs (Decidable False)
  | .stmt => inferInstanceAs (Decidable False)
  | .swap => inferInstanceAs (Decidable False)
  | .drain .. => inferInstanceAs (Decidable False)
  | .timer => inferInstanceAs (Decidable False)
  | .poll => inferInstanceAs (Decidable False)

/-- No deletion while something is outstanding, and who may delete or queue at all. -/
structure Held (l : Lifetime) : Prop where
  held : l.Outstanding → l.agenda = [] ∧ l.Attached
  setup : ∀ s ∈ l.setup, s ≠ .addFunc ∧ s ≠ .deleteConn ∧ s ≠ .deleteContext
  agenda : ∀ s ∈ l.agenda, s ≠ .addFunc
  todo : ∀ pack ∈ l.packs, ∀ s ∈ pack.todo, s ≠ .deleteConn ∧ s ≠ .deleteContext

variable {srv : PbServer} {l l' : Lifetime} {s : Stmt} {m : Move} {rest : List Stmt} {fd : Nat}

theorem queues_eq (h : s ≠ .addFunc) : s.queues = 0 := by
  cases s <;> first | rfl | exact absurd rfl h

/-- A statement that deletes nothing leaves the connection attached. -/
theorem Attached.exec (h : l.Attached) (run : Executed s l l') (conn : s ≠ .deleteConn)
    (ctx : s ≠ .deleteContext) : l'.Attached := by
  obtain ⟨c, hc, hctx⟩ := h
  cases hc' : l'.conn with
  | none =>
      rcases run.gone hc' with hnone | rfl
      · rw [hc] at hnone
        cases hnone
      · exact absurd rfl conn
  | some c' =>
      obtain ⟨_, d, hd, touched, _⟩ := run.kept c' hc'
      rw [hc] at hd
      obtain rfl := Option.some.inj hd
      refine ⟨c', hc', fun hnone => hctx ?_⟩
      have same := touched.progress
      rw [if_neg ctx, hnone] at same
      exact Option.map_eq_none_iff.mp same.symm

theorem newConnectionCallback_mem (h : s ∈ srv.newConnectionCallback) :
    s ≠ .addFunc ∧ s ≠ .deleteConn ∧ s ≠ .deleteContext := by
  unfold PbServer.newConnectionCallback PbServer.armTimer at h
  split_ifs at h <;> simp only [List.mem_append, List.mem_cons, List.not_mem_nil, or_false] at h
  · rcases h with ((rfl | rfl | rfl) | rfl | rfl) | rfl | rfl | rfl <;> simp
  · rcases h with (rfl | rfl | rfl) | rfl | rfl | rfl <;> simp

theorem writeCompleteCallback_mem {connType : ConnType}
    (h : s ∈ srv.writeCompleteCallback connType) : s ≠ .addFunc := by
  unfold PbServer.writeCompleteCallback PbServer.armTimer PbServer.closeCallback at h
  rintro rfl
  split_ifs at h <;> simp at h

theorem closeCallback_mem (h : s ∈ PbServer.closeCallback) : s ≠ .addFunc := by
  rintro rfl
  simp [PbServer.closeCallback] at h

theorem responseCallback_mem {n : Nat} {respStr : Bytes} (h : s ∈ srv.responseCallback n respStr) :
    s ≠ .deleteConn ∧ s ≠ .deleteContext := by
  unfold PbServer.responseCallback PbServer.armTimer at h
  split_ifs at h <;> constructor <;> rintro rfl <;> simp at h

theorem held_start : Held (accepted srv fd) :=
  ⟨fun h => by simp [Outstanding, accepted, Phase.funcsLeft] at h,
    fun _ => newConnectionCallback_mem, nofun, nofun⟩

/-- A move that adds no pack and no function leaves the rest to be checked. -/
theorem Held.mono (h : Held l) (setup : l'.setup = l.setup) (packs : l'.packs = l.packs)
    (agenda : ∀ s ∈ l'.agenda, s ≠ .addFunc)
    (funcs : l'.queued + l'.phase.funcsLeft ≠ 0 → l.queued + l.phase.funcsLeft ≠ 0)
    (held : l.Outstanding → l.agenda = [] → l.Attached → l'.agenda = [] ∧ l'.Attached) :
    Held l' where
  held out := by
    have before : l.Outstanding := by
      rw [Outstanding, packs] at out
      exact out.imp_right funcs
    obtain ⟨idle, attached⟩ := h.held before
    exact held before idle attached
  setup := by
    rw [setup]
    exact h.setup
  agenda := agenda
  todo := by
    rw [packs]
    exact h.todo

/-- The handling of an event that does not end the exchange. -/
theorem held_event {events : Events} {io : SocketResults} {answer : Answer} {c : TCPConnection}
    (h : Held l) (rest : l.AtRest) (hc : l.conn = some c)
    (guard : l.Outstanding → ¬ Ends srv l (.event events io answer))
    (outcome : Outcome srv { l with phase := .handled } c events io answer l') : Held l' := by
  have idle : ∀ s ∈ l.agenda, s ≠ .addFunc := by
    rw [rest.1]
    exact nofun
  have funcs : l.queued + Phase.handled.funcsLeft ≠ 0 → l.queued + l.phase.funcsLeft ≠ 0 := by
    intro hq
    simp only [Phase.funcsLeft] at hq
    omega
  have ctx : l.Attached → c.ctx ≠ none := by
    rintro ⟨d, hd, hctx⟩
    rw [hc] at hd
    obtain rfl := Option.some.inj hd
    exact hctx
  cases outcome with
  | wrote => exact h.mono rfl rfl idle funcs fun _ idle att => ⟨idle, _, rfl, ctx att⟩
  | ignored _ => exact h.mono rfl rfl idle funcs fun _ idle att => ⟨idle, _, rfl, ctx att⟩
  | waits _ _ _ _ hcall =>
      exact h.mono rfl rfl idle funcs fun _ idle att =>
        ⟨idle, _, rfl, PbServer.dataReadCallback_wait hcall (ctx att)⟩
  | closes hin closing =>
      refine h.mono rfl rfl (fun _ => closeCallback_mem) funcs fun out _ _ => ?_
      exact absurd ⟨c, hc, .inl ⟨hin, _, closing⟩⟩ (guard out)
  | completes hin hev hwrite empty _ =>
      refine h.mono rfl rfl (fun _ => writeCompleteCallback_mem) funcs fun out _ _ => ?_
      exact absurd ⟨c, hc, .inr ⟨hin, hev, _, _, _, hwrite, empty⟩⟩ (guard out)
  | @dispatches _ _ d _ _ _ _ _ _ hreq =>
      refine ⟨fun _ => ⟨rest.1, d, rfl, fun none => ?_⟩, h.setup, idle, fun p hm s hs => ?_⟩
      · rw [PbServer.requestCallback, none] at hreq
        cases hreq
      · rcases List.mem_append.mp hm with old | new
        · exact h.todo p old s hs
        · obtain rfl := List.mem_singleton.mp new
          exact responseCallback_mem hs

theorem held_step (h : Held l) (guard : l.Outstanding → ¬ Ends srv l m) (step : Step srv l m l') :
    Held l' := by
  cases step_moved step with
  | fault _ => exact ⟨h.held, h.setup, h.agenda, h.todo⟩
  | @setup s rest _ hs run =>
      obtain ⟨queue, conn, ctx⟩ := h.setup s (by simp [hs])
      have later : Held { l with setup := rest } :=
        ⟨h.held, fun s hm => h.setup s (by rw [hs]; exact List.mem_cons_of_mem _ hm), h.agenda, h.todo⟩
      refine later.mono run.setup run.packs (by rw [run.agenda]; exact h.agenda) ?_
        fun _ idle attached => ⟨run.agenda.trans idle, attached.exec run conn ctx⟩
      rw [run.queued, run.phase, queues_eq queue]
      exact id
  | @stmt s rest _ hs run =>
      have quiet : ¬ l.Outstanding := fun out => by
        have := (h.held out).1
        rw [hs] at this
        cases this
      refine h.mono run.setup run.packs (fun s hm => ?_) ?_ fun out => absurd out quiet
      · rw [run.agenda] at hm
        exact h.agenda s (by rw [hs]; exact List.mem_cons_of_mem _ hm)
      · rw [run.queued, run.phase, queues_eq (h.agenda s (by simp [hs]))]
        exact id
  | @respond n pack s rest _ hp hs run =>
      have hmem : pack ∈ l.packs := List.mem_of_getElem? hp
      obtain ⟨idle, attached⟩ := h.held (.inl ⟨pack, hmem, by simp [hs]⟩)
      obtain ⟨conn, ctx⟩ := h.todo pack hmem s (by simp [hs])
      have before : Attached { l with packs := l.packs.set n { pack with todo := rest } } := attached
      refine ⟨fun _ => ⟨run.agenda.trans idle, before.exec run conn ctx⟩, ?_, ?_,
        fun p hm s' hs' => ?_⟩
      · rw [run.setup]
        exact h.setup
      · rw [run.agenda]
        exact h.agenda
      · rw [run.packs] at hm
        rcases List.mem_or_eq_of_mem_set hm with old | rfl
        · exact h.todo p old s' hs'
        · exact h.todo pack hmem s' (by rw [hs]; exact List.mem_cons_of_mem _ hs')
  | event rest _ hc _ _ outcome => exact held_event h rest hc guard outcome
  | quiet _ =>
      refine h.mono rfl rfl h.agenda (fun hq => ?_) fun _ idle att => ⟨idle, att⟩
      simp only [Phase.funcsLeft] at hq
      omega
  | swap _ hp =>
      refine h.mono rfl rfl h.agenda (fun hq => ?_) fun _ idle att => ⟨idle, att⟩
      simp only [Phase.funcsLeft] at hq
      omega
  | @func n _ _ hp run =>
      refine h.mono run.setup run.packs (by rw [run.agenda]; exact h.agenda) (fun _ => ?_) ?_
      · simp only [hp, Phase.funcsLeft]
        omega
      · intro _ idle attached
        have before : Attached { l with phase := .funcs n } := attached
        exact ⟨run.agenda.trans idle, before.exec run (by simp) (by simp)⟩
  | drain _ hp _ =>
      refine h.mono rfl rfl h.agenda (fun hq => ?_) fun _ idle att => ⟨idle, att⟩
      simp only [Phase.funcsLeft] at hq
      omega
  | @expire timer rest c _ hp listed hc same =>
      refine h.mono rfl rfl (fun _ => closeCallback_mem) (fun hq => ?_) fun out _ _ => ?_
      · simp only [Phase.funcsLeft] at hq
        omega
      · exact absurd ⟨c, timer, rest, hc, hp, listed, same⟩ (guard out)
  | stale _ hp =>
      refine h.mono rfl rfl h.agenda (fun hq => ?_) fun _ idle att => ⟨idle, att⟩
      simp only [Phase.funcsLeft] at hq
      omega
  | poll _ hp =>
      refine h.mono rfl rfl h.agenda (fun hq => ?_) fun _ idle att => ⟨idle, att⟩
      simp only [Phase.funcsLeft] at hq
      omega

theorem outstanding_of_completes (enabled : l.Enabled srv m) (h : Completes m) : l.Outstanding := by
  cases m with
  | respond n =>
      obtain ⟨pack, hp, todo⟩ := enabled
      exact .inl ⟨pack, List.mem_of_getElem? hp, todo⟩
  | func =>
      refine .inr fun hq => enabled.2 ?_
      omega
  | _ => exact h.elim

/-- As long as no handler that deletes starts while a request is outstanding, whatever is
done on behalf of a request finds its connection and a context. -/
theorem completes_attached {es : List (Lifetime × Move)} (run : Run (lifetime srv fd) es l)
    (guarded : Guarded (fun l m => l.Outstanding → ¬ Ends srv l m) es) :
    Guarded (fun l m => Completes m → l.Attached) es := by
  have enabled : Guarded (fun l m => l.Enabled srv m) es := run.guarded fun step => step.2.1
  refine run.forall_steps (I := Held) (guarded.and enabled) ?_ ?_ ?_
  · rintro _ rfl
    exact held_start
  · exact fun h guard step => held_step h guard.1 step
  · exact fun h guard done => (h.held (outstanding_of_completes guard.2 done)).2

end SmallRpc.Lifetime

namespace SmallRpc.TCPServer
open Runs Lifetime

variable {srv : PbServer} {threadNum : Nat} {w : TCPServer} {es : List (TCPServer × Action)}

/-- In a run of the server in which no handler that deletes starts for a connection with
an outstanding request, everything done for a request finds its connection and context. -/
theorem completions_attached (run : Run (server srv threadNum) es w)
    (guarded : Guarded (Each fun l m => l.Outstanding → ¬ Ends srv l m) es) :
    Guarded (Each fun l m => Completes m → l.Attached) es :=
  each_run run completes_attached guarded

/-- A connection is set up and sends a request that is answered later. -/
def openRequest : List Action :=
  .accept (.conn 7) :: List.replicate 6 (.act 0 .setup) ++
    [.act 0 (.event { epollin := true } { read := .data (headOfRequest ++ [1, 2, 3, 4]) }
      { respStr := [104, 105], later := true }),
     .act 0 .swap, .act 0 (.drain [] []), .act 0 .poll]

/-- The service thread answers while the loop is waiting. -/
def answered : List Action :=
  openRequest ++ List.replicate 6 (.act 0 (.respond 0)) ++ [.act 0 .quiet, .act 0 .swap, .act 0 .func]

/-- The client leaves before the service thread answers. -/
def abandoned : List Action :=
  openRequest ++ .act 0 (.event { epollin := true } { read := .eof } {}) ::
    List.replicate 5 (.act 0 .stmt) ++ [.act 0 (.respond 0)]

theorem answered_attached : Guarded (Each fun l m => Completes m → l.Attached)
    (visits (next (echo true) 2) booted answered) := by
  have run := run_visits (echo true) answered (by decide +kernel)
  refine completions_attached run (Guarded.mono (G := Each fun l m => l.Outstanding →
    Completes m ∨ m = .swap ∨ m = .drain [] [] ∨ m = .poll ∨ m = .quiet) (by decide +kernel) ?_)
  intro w a quiet i l m hp out ends
  rcases quiet i l m hp out with hm | rfl | rfl | rfl | rfl
  · cases m with
    | respond n => exact ends
    | func => exact ends
    | _ => exact hm
  all_goals exact ends

/-- The end of file deletes the connection, and `response_callback` starts on it. -/
theorem deleted_under_request :
    ¬ ∀ srv threadNum es w, Run (server srv threadNum) es w →
      Guarded (Each fun l m => Completes m → l.Attached) es := by
  intro claim
  have run := run_visits (echo true) abandoned (by decide +kernel)
  have attached := claim _ _ _ _ run
  revert attached
  decide +kernel

end SmallRpc.TCPServer
