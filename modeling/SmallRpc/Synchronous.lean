import SmallRpc.PeerFailures
import SmallRpc.Redispatch

/-! A connection whose services answer inside `CallMethod`. The function they queue is run
in the same turn of the loop, so by the next `epoll_wait` the connection either waits for
a request or is registered to write the response of one. -/
namespace SmallRpc

/-- Statements that follow the `Context*` of the connection. -/
def Stmt.contextual : Stmt → Bool
  | setRpcStatus | setPayload _ | packResponse _ => true
  | _ => false

namespace Lifetime
open Runs

/-- The loop is about to call `epoll_wait`, and the connection is set up. -/
def Polling (l : Lifetime) : Prop := l.setup = [] ∧ l.AtRest ∧ l.phase = .polling

/-- Waiting for a request, with nothing of a response left. -/
def Reading (c : TCPConnection) : Prop :=
  c.event = .epollin ∧ c.sevent = .epollin ∧ c.wbuf.readable = 0

/-- Writing the response to a request that has been parsed completely. -/
def Writing (srv : PbServer) (c : TCPConnection) : Prop :=
  c.event = .epollout ∧ c.sevent = .epollout ∧ c.ctx ≠ none ∧ srv.Complete c

/-- Services run inside the handling of an event, on a connection that has a context, and
queue there and nowhere else. -/
structure Synchronous (l : Lifetime) : Prop where
  inside : ∀ pack ∈ l.packs, pack.later = false
  running : ∀ pack ∈ l.packs, pack.todo ≠ [] → l.phase = .handled ∧ l.agenda = [] ∧ l.Attached
  queued : l.queued ≠ 0 → l.phase = .handled
  todo : ∀ pack ∈ l.packs, ∀ s ∈ pack.todo, s ≠ .deleteConn ∧ s ≠ .deleteContext
  setup : ∀ s ∈ l.setup, s ≠ .deleteConn ∧ s ≠ .deleteContext
  others : ∀ s, s ∈ l.setup ∨ s ∈ l.agenda → s ≠ .addFunc ∧ s.contextual = false

/-- What is left of the callbacks leaves the connection registered. -/
def Settled (l : Lifetime) (c : TCPConnection) : Prop :=
  (settleAll (l.setup ++ l.agenda) (c.event, c.sevent)).1 ≠ .none ∧
    (settleAll (l.setup ++ l.agenda) (c.event, c.sevent)).2 ≠ .none

/-- Where a connection with synchronous services stands. -/
structure Steady (srv : PbServer) (l : Lifetime) (c : TCPConnection) : Prop where
  turn : Turn srv l c
  settled : .deleteConn ∈ l.agenda ∨ Settled l c
  drained : l.packed = [] → c.wbuf.readable = 0

variable {srv : PbServer} {l l' : Lifetime} {c c' d : TCPConnection} {s : Stmt} {m : Move} {fd n : Nat}
  {rest todo : List Stmt} {packed : List Nat} {e : Interest × Interest} {k : Nat}
  {ls : List (Lifetime × Move)} {events : Events} {io : SocketResults} {answer : Answer}

theorem armTimer_quiet {ms : Int} {kind : TimerKind} (h : s ∈ PbServer.armTimer ms kind) :
    s ≠ .addFunc ∧ s.contextual = false := by
  unfold PbServer.armTimer at h
  split_ifs at h
  · simp only [List.mem_cons, List.not_mem_nil, or_false] at h
    rcases h with rfl | rfl <;> simp [Stmt.contextual]
  · cases h

theorem newConnectionCallback_quiet (h : s ∈ srv.newConnectionCallback) :
    s ≠ .addFunc ∧ s.contextual = false := by
  simp only [PbServer.newConnectionCallback, List.mem_append, List.mem_cons, List.not_mem_nil,
    or_false] at h
  rcases h with ((rfl | rfl | rfl) | timer) | rfl | rfl | rfl
  all_goals first | exact armTimer_quiet timer | simp [Stmt.contextual]

theorem closeCallback_quiet (h : s ∈ PbServer.closeCallback) :
    s ≠ .addFunc ∧ s.contextual = false := by
  simp only [PbServer.closeCallback, List.mem_cons, List.not_mem_nil, or_false] at h
  rcases h with rfl | rfl | rfl | rfl | rfl <;> simp [Stmt.contextual]

theorem writeCompleteCallback_quiet {connType : ConnType}
    (h : s ∈ srv.writeCompleteCallback connType) : s ≠ .addFunc ∧ s.contextual = false := by
  unfold PbServer.writeCompleteCallback at h
  split_ifs at h
  · rcases List.mem_append.mp h with first | last
    · simp only [List.mem_cons, List.not_mem_nil, or_false] at first
      rcases first with rfl | rfl <;> simp [Stmt.contextual]
    · exact closeCallback_quiet last
  · simp only [List.mem_append, List.mem_cons, List.not_mem_nil, or_false] at h
    rcases h with (rfl | rfl) | (rfl | rfl) | timer
    all_goals first | exact armTimer_quiet timer | simp [Stmt.contextual]

theorem synchronous_start : Synchronous (accepted srv fd) where
  inside := nofun
  running := nofun
  queued h := absurd rfl h
  todo := nofun
  setup _ hs := (newConnectionCallback_mem hs).2
  others s hs := by
    rcases hs with setup | agenda
    · exact newConnectionCallback_quiet setup
    · cases agenda

theorem Synchronous.idle (h : Synchronous l) (rest : l.AtRest) : ∀ pack ∈ l.packs, pack.todo = [] :=
  fun pack hm => rest.2 pack hm (h.inside pack hm)

/-- Moves of a loop that is at rest, and start no service. -/
theorem Synchronous.turn (h : Synchronous l) (rest : l.AtRest) (packs : l'.packs = l.packs)
    (setup : l'.setup = l.setup) (queued : l'.queued ≠ 0 → l'.phase = .handled)
    (agenda : ∀ s ∈ l'.agenda, s ≠ .addFunc ∧ s.contextual = false) : Synchronous l' where
  inside := by
    rw [packs]
    exact h.inside
  running pack hm left := by
    rw [packs] at hm
    exact absurd (h.idle rest pack hm) left
  queued := queued
  todo := by
    rw [packs]
    exact h.todo
  setup := by
    rw [setup]
    exact h.setup
  others s hs := by
    rw [setup] at hs
    exact hs.elim (fun hs => h.others s (.inl hs)) (agenda s)

theorem synchronous_event (sync : srv.async = false) (h : Synchronous l) (rest : l.AtRest)
    (later : answer.later = true → srv.async = true)
    (outcome : Outcome srv { l with phase := .handled } c events io answer l') : Synchronous l' := by
  have idle : ∀ s ∈ l.agenda, s ≠ .addFunc ∧ s.contextual = false := by
    rw [rest.1]
    exact nofun
  cases outcome with
  | wrote => exact h.turn rest rfl rfl (fun _ => rfl) idle
  | ignored _ => exact h.turn rest rfl rfl (fun _ => rfl) idle
  | waits _ _ _ _ _ => exact h.turn rest rfl rfl (fun _ => rfl) idle
  | closes _ _ => exact h.turn rest rfl rfl (fun _ => rfl) fun _ => closeCallback_quiet
  | completes _ _ _ _ _ =>
      exact h.turn rest rfl rfl (fun _ => rfl) fun _ => writeCompleteCallback_quiet
  | @dispatches _ _ d _ _ _ _ _ hcall _ =>
      have attached : d.ctx ≠ none := by
        obtain ⟨_, _, ctx, _, hctx, _⟩ := PbServer.dataReadCallback_request hcall
        exact fun none => Option.some_ne_none ctx (hctx.symm.trans none)
      refine ⟨fun pack hm => ?_, fun _ _ _ => ⟨rfl, rest.1, d, rfl, attached⟩, fun _ => rfl,
        fun pack hm s hs => ?_, h.setup, h.others⟩
      · rcases List.mem_append.mp hm with old | new
        · exact h.inside pack old
        · obtain rfl := List.mem_singleton.mp new
          exact Bool.eq_false_iff.mpr fun late => by simp [later late] at sync
      · rcases List.mem_append.mp hm with old | new
        · exact h.todo pack old s hs
        · obtain rfl := List.mem_singleton.mp new
          exact responseCallback_mem hs

theorem synchronous_step (sync : srv.async = false) (h : Synchronous l) (step : Step srv l m l') :
    Synchronous l' := by
  have nothing : ∀ {phase}, l.phase = phase → phase ≠ .handled → ¬ l.queued ≠ 0 :=
    fun hp other some => other (hp.symm.trans (h.queued some))
  have agenda : ∀ s ∈ l.agenda, s ≠ .addFunc ∧ s.contextual = false := fun s hs => h.others s (.inr hs)
  cases step_moved step with
  | fault _ => exact ⟨h.inside, h.running, h.queued, h.todo, h.setup, h.others⟩
  | @setup s rest _ hs run =>
      have here : s ∈ l.setup := by simp [hs]
      have later : ∀ t ∈ rest, t ∈ l.setup := fun t ht => by simp [hs, ht]
      obtain ⟨conn, ctx⟩ := h.setup s here
      refine ⟨by rw [run.packs]; exact h.inside, fun pack hm left => ?_, fun some => ?_,
        by rw [run.packs]; exact h.todo, fun t ht => ?_, fun t ht => ?_⟩
      · rw [run.packs] at hm
        obtain ⟨phase, idle, attached⟩ := h.running pack hm left
        have before : Attached { l with setup := rest } := attached
        exact ⟨run.phase.trans phase, run.agenda.trans idle, before.exec run conn ctx⟩
      · rw [run.queued, queues_eq (h.others s (.inl here)).1] at some
        exact run.phase.trans (h.queued some)
      · rw [run.setup] at ht
        exact h.setup t (later t ht)
      · rw [run.setup, run.agenda] at ht
        exact h.others t (ht.imp_left (later t))
  | @stmt s rest _ hs run =>
      have busy : ∀ pack ∈ l.packs, ¬ pack.todo ≠ [] := fun pack hm left => by
        have idle := (h.running pack hm left).2.1
        rw [hs] at idle
        cases idle
      refine ⟨by rw [run.packs]; exact h.inside, fun pack hm left => ?_, fun some => ?_,
        by rw [run.packs]; exact h.todo, by rw [run.setup]; exact h.setup, fun t ht => ?_⟩
      · rw [run.packs] at hm
        exact absurd left (busy pack hm)
      · rw [run.queued, queues_eq (agenda s (by simp [hs])).1] at some
        exact run.phase.trans (h.queued some)
      · rw [run.setup, run.agenda] at ht
        exact h.others t (ht.imp_right fun ht => by rw [hs]; exact List.mem_cons_of_mem _ ht)
  | @respond n pack s rest _ hp hs run =>
      have hmem : pack ∈ l.packs := List.mem_of_getElem? hp
      obtain ⟨phase, idle, attached⟩ := h.running pack hmem (by simp [hs])
      obtain ⟨conn, ctx⟩ := h.todo pack hmem s (by simp [hs])
      have before : Attached { l with packs := l.packs.set n { pack with todo := rest } } := attached
      refine ⟨fun p hm => ?_, fun p hm _ => ?_, fun _ => run.phase.trans phase, fun p hm t ht => ?_,
        by rw [run.setup]; exact h.setup, by rw [run.setup, run.agenda]; exact h.others⟩
      · rw [run.packs] at hm
        rcases List.mem_or_eq_of_mem_set hm with old | rfl
        · exact h.inside p old
        · exact h.inside pack hmem
      · exact ⟨run.phase.trans phase, run.agenda.trans idle, before.exec run conn ctx⟩
      · rw [run.packs] at hm
        rcases List.mem_or_eq_of_mem_set hm with old | rfl
        · exact h.todo p old t ht
        · exact h.todo pack hmem t (by rw [hs]; exact List.mem_cons_of_mem _ ht)
  | event rest later _ _ _ outcome => exact synchronous_event sync h rest later outcome
  | quiet rest => exact h.turn rest rfl rfl (fun _ => rfl) agenda
  | swap rest _ => exact h.turn rest rfl rfl (fun some => absurd rfl some) agenda
  | func rest hp run =>
      refine h.turn rest run.packs run.setup (fun some => ?_) (by rw [run.agenda]; exact agenda)
      rw [run.queued] at some
      exact absurd some (nothing hp (by simp))
  | drain rest hp _ => exact h.turn rest rfl rfl (fun some => absurd some (nothing hp (by simp))) agenda
  | expire rest hp _ _ _ =>
      exact h.turn rest rfl rfl (fun some => absurd some (nothing hp (by simp)))
        fun _ => closeCallback_quiet
  | stale rest hp => exact h.turn rest rfl rfl (fun some => absurd some (nothing hp (by simp))) agenda
  | poll rest hp => exact h.turn rest rfl rfl (fun some => absurd some (nothing hp (by simp))) agenda

/-- A null pointer is met by a statement that follows the context of a connection without one. -/
theorem exec_null (h : l.exec s = .error .nullPointer) : s.contextual = true ∧ ¬ l.Attached := by
  have fault := exec_faults _ h
  simp only [StmtFault, reduceCtorEq, false_or, true_and] at fault
  obtain ⟨c, hc, none⟩ := fault
  refine ⟨?_, ?_⟩
  · cases s with
    | setRpcStatus => rfl
    | setPayload respStr => rfl
    | packResponse n => rfl
    | _ => simp [exec, withConn, hc] at h
  · rintro ⟨d, hd, some⟩
    obtain rfl := Option.some.inj (hc.symm.trans hd)
    exact some none

/-- Where a move can meet a null pointer. -/
theorem effect_null (h : l.effect srv m = .error .nullPointer) :
    (∃ s ∈ l.statement m, s.contextual = true ∧ ¬ l.Attached) ∨
      ∃ events io answer c, m = .event events io answer ∧ l.conn = some c ∧ c.ctx = none ∧
        events.epollin = false ∧ events.epollout = true := by
  cases hs : l.statement m with
  | some s =>
      obtain ⟨l₀, conn, _, _, same⟩ := @effect_statement srv _ _ _ hs
      obtain ⟨contextual, without⟩ := exec_null (same.symm.trans h)
      rw [Attached, conn] at without
      exact .inl ⟨s, rfl, contextual, without⟩
  | none =>
      refine .inr ?_
      cases m with
      | event events io answer =>
          cases hc : l.conn with
          | none => simp [effect, handle, withConn, hc] at h
          | some c =>
              have fault := handle_faults (l := { l with phase := .handled }) hc _ h
              simp only [EventFault, ParseFault, reduceCtorEq, false_or, true_and] at fault
              exact ⟨events, io, answer, c, rfl, rfl, fault⟩
      | setup => simp [effect, List.head?_eq_none_iff.mp hs] at h
      | stmt => simp [effect, List.head?_eq_none_iff.mp hs] at h
      | respond n =>
          cases hp : l.packs[n]? with
          | none => simp [effect, hp] at h
          | some pack =>
              simp only [statement, hp, Option.bind_some] at hs
              simp [effect, hp, List.head?_eq_none_iff.mp hs] at h
      | func =>
          cases hp : l.phase with
          | funcs n =>
              cases n with
              | zero => simp [effect, hp] at h
              | succ n => simp [statement, hp, Phase.funcsLeft] at hs
          | _ => simp [effect, hp] at h
      | timer =>
          cases hp : l.phase with
          | timers expired =>
              cases expired with
              | nil => simp [effect, hp] at h
              | cons timer left =>
                  simp only [effect, hp, timeoutCallback] at h
                  split_ifs at h
                  cases hc : l.conn with
                  | none => simp [withConn, hc] at h
                  | some c => simp [withConn, hc] at h
          | _ => simp [effect, hp] at h
      | _ => simp [effect] at h

theorem settleAll_append {a b : List Stmt} :
    settleAll (a ++ b) e = settleAll b (settleAll a e) := List.foldl_append

/-- Past the registration, what is left of the setting up settles nothing. -/
theorem settled_iff (minor : AllMinor l.setup) : Settled l c ↔
    (settleAll l.agenda (c.event, c.sevent)).1 ≠ .none ∧
      (settleAll l.agenda (c.event, c.sevent)).2 ≠ .none := by
  rw [Settled, settleAll_append, minor.settleAll]

/-- At rest, past the registration, the connection is registered for what it wants. -/
theorem settled_idle (minor : AllMinor l.setup) (idle : l.agenda = []) :
    Settled l c ↔ c.event ≠ .none ∧ c.sevent ≠ .none := by
  rw [settled_iff minor, idle]
  exact Iff.rfl

/-- A statement of `response_callback` takes no registration away. -/
theorem Stage.settle_ne (h : Stage n (s :: rest) k e packed) (hs : e.1 ≠ .none ∧ e.2 ≠ .none) :
    (s.settle e).1 ≠ .none ∧ (s.settle e).2 ≠ .none := by
  have minor : ∀ {rest : List Stmt}, AllMinor (s :: rest) →
      (s.settle e).1 ≠ .none ∧ (s.settle e).2 ≠ .none := by
    intro rest all
    rw [minor_settle all.tail.1]
    exact hs
  generalize htodo : s :: rest = todo at h
  cases h with
  | @computing pre tail _ hpre _ _ =>
      cases pre with
      | nil =>
          obtain ⟨rfl, _⟩ := List.cons.inj htodo
          exact hs
      | cons p pre =>
          obtain ⟨rfl, _⟩ := List.cons.inj htodo
          exact minor hpre
  | packed _ _ =>
      obtain ⟨rfl, _⟩ := List.cons.inj htodo
      exact ⟨by simp [Stmt.settle], hs.2⟩
  | wanted _ _ =>
      obtain ⟨rfl, _⟩ := List.cons.inj htodo
      exact hs
  | queued all _ =>
      subst htodo
      exact minor all
  | writing all =>
      subst htodo
      exact minor all

/-- Before `epoll_wait` the connection is idle or writing. -/
theorem Turn.polling (turn : Turn srv l c) (h : Synchronous l) (rest : l.AtRest)
    (hp : l.phase = .polling) : (Idle l ∧ Quiet (c.event, c.sevent) ∧ SettingUp l c) ∨
      (Writing srv c ∧ l.packed ≠ []) := by
  cases turn with
  | leaving delete =>
      rw [rest.1] at delete
      cases delete
  | free idle quiet settingUp =>
      rw [rest.1] at quiet
      exact .inl ⟨idle, quiet, settingUp⟩
  | @serving earlier pack serving =>
      have done : pack.todo = [] := h.idle rest pack (by rw [serving.packs]; simp)
      have funcs : l.funcsPending = 0 := by
        have none : l.queued = 0 := by
          by_contra some
          have handled := h.queued some
          rw [hp] at handled
          cases handled
        rw [funcsPending, none, hp]
        rfl
      have stage := serving.stage
      generalize he : (c.event, c.sevent) = e at stage
      generalize hpacked : l.packed = packed at stage
      rw [done, funcs] at stage
      generalize htodo : ([] : List Stmt) = todo at stage
      cases stage with
      | computing _ _ _ => simp at htodo
      | writing _ =>
          obtain ⟨event, sevent⟩ := Prod.mk.inj he
          obtain ⟨_, _, ctx, _, hctx, _⟩ := id serving.complete
          change c.ctx = some ctx at hctx
          refine .inr ⟨⟨event, sevent, ?_, serving.complete⟩, by simp⟩
          rw [hctx]
          exact Option.some_ne_none ctx
      | _ => cases htodo

/-- The reads that would dispatch again find the connection registered for writing. -/
theorem Turn.reads_answered (turn : ∀ c, l.conn = some c → Turn srv l c) (h : Synchronous l)
    (enabled : l.Enabled srv m) (reads : Reads l m) : ¬ l.Unwritten := by
  cases m with
  | event events io answer =>
      obtain ⟨rest, hp, _, c, hc, reported, _⟩ := enabled
      rcases (turn c hc).polling h rest hp with ⟨idle, _⟩ | ⟨writing, _⟩
      · rintro ⟨n, dispatched, missing⟩
        exact missing ((idle.answered n).mp dispatched)
      · have waiting := reported.2.1 reads.1
        rw [writing.2.1] at waiting
        cases waiting
  | _ => exact reads.elim

theorem settled_of_same (h : .deleteConn ∈ l.agenda ∨ Settled l c) (setup : l'.setup = l.setup)
    (agenda : l'.agenda = l.agenda) (events : (c'.event, c'.sevent) = (c.event, c.sevent)) :
    .deleteConn ∈ l'.agenda ∨ Settled l' c' := by
  rw [Settled, setup, agenda, events]
  exact h

/-- The completion registers the connection for reading, or leads away. -/
theorem writeComplete_settled {connType : ConnType} (minor : AllMinor l.setup)
    (agenda : l.agenda = srv.writeCompleteCallback connType) :
    .deleteConn ∈ l.agenda ∨ Settled l c := by
  rw [settled_iff minor, agenda, PbServer.writeCompleteCallback]
  split_ifs
  · exact .inl (List.mem_append_right _ closeCallback_deletes)
  · have timer := armTimer_minor srv.readTimeoutMs .read
    rw [settleAll_append, settleAll_append, timer.settleAll]
    exact .inr ⟨by simp [settleAll, Stmt.settle], by simp [settleAll, Stmt.settle]⟩

theorem settled_event (turn : Turn srv l c) (h : .deleteConn ∈ l.agenda ∨ Settled l c)
    (rest : l.AtRest) (reported : Reported c events)
    (outcome : Outcome srv { l with phase := .handled } c events io answer l')
    (hc' : l'.conn = some c') : .deleteConn ∈ l'.agenda ∨ Settled l' c' := by
  have parsed : ∀ {rbuf d}, Parsed { c with rbuf } d → (d.event, d.sevent) = (c.event, c.sevent) := by
    intro rbuf d same
    rw [same]
  cases outcome with
  | wrote =>
      obtain rfl := Option.some.inj hc'
      exact settled_of_same h rfl rfl rfl
  | ignored _ =>
      obtain rfl := Option.some.inj hc'
      exact settled_of_same h rfl rfl rfl
  | waits _ _ _ _ hcall =>
      obtain rfl := Option.some.inj hc'
      exact settled_of_same h rfl rfl (parsed (dataReadCallback_parsed hcall))
  | dispatches _ _ _ _ hcall _ =>
      obtain rfl := Option.some.inj hc'
      exact settled_of_same h rfl rfl (parsed (dataReadCallback_parsed hcall))
  | closes _ _ => exact .inl closeCallback_deletes
  | @completes t wbuf sent ctx _ _ _ _ _ =>
      have minor : AllMinor l.setup := by
        cases turn with
        | leaving delete =>
            rw [rest.1] at delete
            cases delete
        | free _ _ settingUp => exact settingUp.minor reported.1
        | serving _ serving => exact serving.setup
      exact writeComplete_settled minor rfl

theorem settled_setup {rest : List Stmt} (h : .deleteConn ∈ l.agenda ∨ Settled l c)
    (hs : l.setup = s :: rest) (run : Executed s { l with setup := rest } l')
    (touched : Touched s c c') : .deleteConn ∈ l'.agenda ∨ Settled l' c' := by
  rw [Settled, run.setup, run.agenda, touched.settled]
  rw [Settled, hs] at h
  exact h

theorem settled_stmt {rest : List Stmt} (turn : Turn srv l c)
    (h : .deleteConn ∈ l.agenda ∨ Settled l c) (hs : l.agenda = s :: rest)
    (run : Executed s { l with agenda := rest } l') (touched : Touched s c c')
    (stays : s ≠ .deleteConn) : .deleteConn ∈ l'.agenda ∨ Settled l' c' := by
  rw [run.agenda]
  rcases h with delete | settled
  · rw [hs] at delete
    exact .inl ((List.mem_cons.mp delete).resolve_left (Ne.symm stays))
  · cases turn with
    | leaving delete =>
        rw [hs] at delete
        exact .inl ((List.mem_cons.mp delete).resolve_left (Ne.symm stays))
    | serving _ serving =>
        have none := serving.agenda
        rw [hs] at none
        cases none
    | free _ _ settingUp =>
        cases settingUp with
        | early _ _ _ none _ _ =>
            rw [hs] at none
            cases none
        | past minor =>
            rw [settled_iff minor, hs] at settled
            rw [settled_iff (by rw [run.setup]; exact minor), run.agenda, touched.settled]
            exact .inr settled

theorem settled_respond {rest : List Stmt} {pack : Pack} (turn : Turn srv l c)
    (h : .deleteConn ∈ l.agenda ∨ Settled l c) (hp : l.packs[n]? = some pack)
    (hs : pack.todo = s :: rest)
    (run : Executed s { l with packs := l.packs.set n { pack with todo := rest } } l')
    (touched : Touched s c c') : .deleteConn ∈ l'.agenda ∨ Settled l' c' := by
  have minor : AllMinor pack.todo → .deleteConn ∈ l'.agenda ∨ Settled l' c' := by
    intro all
    rw [hs] at all
    refine settled_of_same h run.setup run.agenda ?_
    rw [touched.settled, minor_settle all.tail.1]
  cases turn with
  | leaving delete =>
      refine .inl ?_
      rw [run.agenda]
      exact delete
  | free idle _ _ => exact minor (idle.todo pack (List.mem_of_getElem? hp))
  | @serving earlier last serving =>
      rw [serving.packs] at hp
      by_cases hn : n < earlier.length
      · rw [List.getElem?_append_left hn] at hp
        exact minor (serving.todo pack (List.mem_of_getElem? hp))
      · obtain rfl : last = pack := by
          rw [List.getElem?_append_right (by omega), List.getElem?_singleton] at hp
          split_ifs at hp
          exact Option.some.inj hp
        have stage := serving.stage
        rw [hs] at stage
        refine .inr ((settled_idle (by rw [run.setup]; exact serving.setup)
          (run.agenda.trans serving.agenda)).mpr ?_)
        have before := (settled_idle serving.setup serving.agenda).mp
          (h.resolve_left (by rw [serving.agenda]; exact List.not_mem_nil))
        have after := stage.settle_ne before
        rw [← touched.settled] at after
        exact after

theorem settled_func {k : Nat} (turn : Turn srv l c) (h : .deleteConn ∈ l.agenda ∨ Settled l c)
    (rest : l.AtRest) (hp : l.phase = .funcs (k + 1))
    (run : Executed .updateChannel { l with phase := .funcs k } l')
    (touched : Touched .updateChannel c c') : .deleteConn ∈ l'.agenda ∨ Settled l' c' := by
  have minor : AllMinor l.setup := by
    cases turn with
    | leaving delete =>
        rw [rest.1] at delete
        cases delete
    | free idle _ _ =>
        have none := idle.funcs
        rw [funcsPending, hp] at none
        change l.queued + (k + 1) = 0 at none
        omega
    | serving _ serving => exact serving.setup
  have before := (settled_idle minor rest.1).mp
    (h.resolve_left (by rw [rest.1]; exact List.not_mem_nil))
  refine .inr ((settled_idle (by rw [run.setup]; exact minor) (run.agenda.trans rest.1)).mpr ?_)
  obtain ⟨event, sevent⟩ := Prod.mk.inj touched.settled
  rw [event, sevent]
  exact ⟨before.1, before.1⟩

theorem exec_wbuf (h : l.exec s = .ok l') (hc : l.conn = some c) (hc' : l'.conn = some c') :
    c'.wbuf = c.wbuf ∨ c'.wbuf.readable = 0 ∨ s.packs ≠ [] := by
  cases s with
  | packResponse n => exact .inr (.inr (by simp [Stmt.packs]))
  | clearBuffers =>
      rw [exec, withConn_some hc] at h
      obtain rfl := Except.ok.inj h
      obtain rfl := Option.some.inj hc'
      exact .inr (.inl rfl)
  | setRpcStatus =>
      rw [exec, withConn_some hc] at h
      obtain ⟨d, hd, done⟩ := bind_ok.mp h
      obtain rfl := Except.ok.inj done
      obtain rfl := Option.some.inj hc'
      obtain ⟨_, _, rfl⟩ := withContext_ok hd
      exact .inl rfl
  | setPayload respStr =>
      rw [exec, withConn_some hc] at h
      obtain ⟨d, hd, done⟩ := bind_ok.mp h
      obtain rfl := Except.ok.inj done
      obtain rfl := Option.some.inj hc'
      obtain ⟨_, _, rfl⟩ := withContext_ok hd
      exact .inl rfl
  | unpack =>
      obtain rfl := Except.ok.inj h
      obtain rfl := Option.some.inj (hc.symm.trans hc')
      exact .inl rfl
  | deleteConn =>
      rw [exec, withConn_some hc] at h
      obtain rfl := Except.ok.inj h
      cases hc'
  | _ =>
      rw [exec, withConn_some hc] at h
      obtain rfl := Except.ok.inj h
      first
        | exact .inl (Option.some.inj hc' ▸ rfl)
        | exact .inl (Option.some.inj (hc.symm.trans hc') ▸ rfl)

/-- A callback changes nothing of the write buffer by itself. -/
theorem call_wbuf {callback : Option Callback} (h : l.call srv c answer callback = .ok l')
    (hc : l.conn = some c) (hc' : l'.conn = some c') : c'.wbuf = c.wbuf := by
  have same : l'.conn = l.conn → c'.wbuf = c.wbuf := fun conn => by
    rw [conn, hc] at hc'
    rw [Option.some.inj hc']
  have parsed : ∀ {d : TCPConnection}, Parsed c d → l'.conn = some d → c'.wbuf = c.wbuf := by
    intro d hd conn
    obtain rfl := Option.some.inj (conn.symm.trans hc')
    rw [hd]
  cases callback with
  | none => exact same ((Except.ok.inj h) ▸ rfl)
  | some callback =>
      cases callback with
      | clientConn => exact same ((Except.ok.inj h) ▸ rfl)
      | close => exact same ((Except.ok.inj h) ▸ rfl)
      | writeComplete =>
          obtain ⟨_, _, rfl⟩ := writeComplete_ok h
          exact same rfl
      | dataRead =>
          obtain ⟨⟨next, d⟩, hcall, h⟩ := bind_ok.mp h
          have hd := dataReadCallback_parsed hcall
          cases next with
          | wait => exact parsed hd ((Except.ok.inj h) ▸ rfl)
          | close =>
              change close _ _ = _ at h
              unfold close at h
              split_ifs at h
              exact parsed hd ((Except.ok.inj h) ▸ rfl)
          | request =>
              obtain ⟨result, _, h⟩ := bind_ok.mp h
              cases result with
              | none => exact parsed hd ((Except.ok.inj h) ▸ rfl)
              | some request => exact parsed hd ((Except.ok.inj h) ▸ rfl)

/-- Only a write changes it. -/
theorem handle_wbuf (h : l.handle srv events io answer = .ok l') (hc : l.conn = some c)
    (hc' : l'.conn = some c') : c'.wbuf = c.wbuf ∨ events.epollout = true := by
  rw [handle, withConn_some hc] at h
  obtain ⟨out, hout, h⟩ := bind_ok.mp h
  have same := call_wbuf h rfl hc'
  cases handleEvents_ok hout with
  | read _ _ => exact .inl same
  | write _ hev _ => exact .inr hev
  | other _ => exact .inl same

theorem drained_event (turn : Turn srv l c) (drained : l.packed = [] → c.wbuf.readable = 0)
    (h : Synchronous l) (rest : l.AtRest) (hp : l.phase = .polling) (hc : l.conn = some c)
    (reported : Reported c events) (done : l.effect srv (.event events io answer) = .ok l')
    (hc' : l'.conn = some c') : l'.packed = [] → c'.wbuf.readable = 0 := by
  have wbuf : l.packed = [] → c'.wbuf.readable = 0 := by
    intro none
    rcases handle_wbuf (l := { l with phase := .handled }) done hc hc' with same | hev
    · rw [same]
      exact drained none
    · rcases turn.polling h rest hp with ⟨_, quiet, _⟩ | ⟨_, some⟩
      · exact absurd (reported.2.2 hev) quiet.2
      · exact absurd none some
  cases handle_ok (l := { l with phase := .handled }) hc done with
  | completes _ _ _ empty _ =>
      obtain rfl := Option.some.inj hc'
      exact fun _ => empty
  | _ => exact wbuf

theorem drained_step (turn : ∀ c, l.conn = some c → Turn srv l c)
    (drained : ∀ c, l.conn = some c → l.packed = [] → c.wbuf.readable = 0) (h : Synchronous l)
    (step : Step srv l m l') : ∀ c, l'.conn = some c → l'.packed = [] → c.wbuf.readable = 0 := by
  intro c' hc'
  obtain ⟨_, enabled, rfl⟩ := step
  unfold next at hc' ⊢
  cases he : l.effect srv m with
  | error f =>
      rw [he] at hc'
      exact drained c' hc'
  | ok l' =>
      rw [he] at hc'
      dsimp only at hc' ⊢
      cases hs : l.statement m with
      | some s =>
          obtain ⟨l₀, conn, _, packed, same⟩ := @effect_statement srv _ _ _ hs
          rw [same] at he
          have run := exec_ok he
          obtain ⟨_, c, hc, _⟩ := run.kept c' hc'
          intro none
          rw [run.packed, packed, List.append_eq_nil_iff] at none
          rcases exec_wbuf he hc hc' with same | empty | some
          · rw [same]
            exact drained c (conn ▸ hc) none.1
          · exact empty
          · exact absurd none.2 some
      | none =>
          cases effect_moved enabled he with
          | event rest _ hc reported _ _ =>
              exact drained_event (turn _ hc) (drained _ hc) h rest enabled.2.1 hc reported he hc'
          | setup hs' _ => simp [statement, hs'] at hs
          | stmt hs' _ => simp [statement, hs'] at hs
          | respond hp hs' _ => simp [statement, hp, hs'] at hs
          | func _ hp _ => simp [statement, hp, Phase.funcsLeft] at hs
          | _ => exact drained c' hc'

theorem steady_start : ∀ c, (accepted srv fd).conn = some c → Steady srv (accepted srv fd) c := by
  intro c hc
  refine ⟨turn_start c hc, .inr ?_, fun _ => ?_⟩
  · obtain rfl := Option.some.inj hc
    have installs : AllMinor [.install .dataRead, .install .close, .install .writeComplete] := by
      simp [AllMinor, Stmt.minor]
    have timer := armTimer_minor srv.readTimeoutMs .read
    change (settleAll (srv.newConnectionCallback ++ []) _).1 ≠ _ ∧
      (settleAll (srv.newConnectionCallback ++ []) _).2 ≠ _
    rw [List.append_nil, PbServer.newConnectionCallback, settleAll_append, settleAll_append,
      installs.settleAll, timer.settleAll]
    exact ⟨by simp [settleAll, Stmt.settle], by simp [settleAll, Stmt.settle]⟩
  · obtain rfl := Option.some.inj hc
    rfl

theorem settled_step (steady : ∀ c, l.conn = some c → Steady srv l c) (step : Step srv l m l') :
    ∀ c, l'.conn = some c → .deleteConn ∈ l'.agenda ∨ Settled l' c := by
  intro c' hc'
  have same : ∀ {t : Lifetime}, t.conn = l.conn → t.setup = l.setup → t.agenda = l.agenda →
      t.conn = some c' → .deleteConn ∈ t.agenda ∨ Settled t c' :=
    fun conn setup agenda ht => settled_of_same (steady c' (conn ▸ ht)).settled setup agenda rfl
  cases step_moved step with
  | setup hs run =>
      obtain ⟨_, c, hc, touched, _⟩ := run.kept c' hc'
      exact settled_setup (steady c hc).settled hs run touched
  | stmt hs run =>
      obtain ⟨stays, c, hc, touched, _⟩ := run.kept c' hc'
      exact settled_stmt (steady c hc).turn (steady c hc).settled hs run touched stays
  | respond hp hs run =>
      obtain ⟨_, c, hc, touched, _⟩ := run.kept c' hc'
      exact settled_respond (steady c hc).turn (steady c hc).settled hp hs run touched
  | func rest hp run =>
      obtain ⟨_, c, hc, touched, _⟩ := run.kept c' hc'
      exact settled_func (steady c hc).turn (steady c hc).settled rest hp run touched
  | event rest _ hc reported _ outcome =>
      exact settled_event (steady _ hc).turn (steady _ hc).settled rest reported outcome hc'
  | expire _ _ _ _ _ => exact .inl closeCallback_deletes
  | _ => exact same rfl rfl rfl hc'

theorem steady_step (steady : ∀ c, l.conn = some c → Steady srv l c) (h : Synchronous l)
    (step : Step srv l m l') : ∀ c, l'.conn = some c → Steady srv l' c := by
  have turn : ∀ c, l.conn = some c → Turn srv l c := fun c hc => (steady c hc).turn
  have settled := settled_step steady step
  have drained := drained_step turn (fun c hc => (steady c hc).drained) h step
  have turn' := turn_step turn (Turn.reads_answered turn h step.2.1) step
  exact fun c hc => ⟨turn' c hc, settled c hc, drained c hc⟩

/-- Nothing follows a null pointer. -/
theorem effect_not_null (steady : ∀ c, l.conn = some c → Steady srv l c) (h : Synchronous l)
    (enabled : l.Enabled srv m) : l.effect srv m ≠ .error .nullPointer := by
  intro null
  rcases effect_null null with ⟨s, hs, contextual, without⟩ | ⟨events, io, answer, c, rfl, hc, none, _, hev⟩
  · have plain : s ∈ l.setup ∨ s ∈ l.agenda → False := fun hs => by
      rw [(h.others s hs).2] at contextual
      cases contextual
    cases m with
    | setup => exact plain (.inl (List.mem_of_head? hs))
    | stmt => exact plain (.inr (List.mem_of_head? hs))
    | respond n =>
        obtain ⟨pack, hp, head⟩ := Option.bind_eq_some_iff.mp hs
        have left := List.ne_nil_of_mem (List.mem_of_head? head)
        exact without (h.running pack (List.mem_of_getElem? hp) left).2.2
    | func =>
        simp only [statement, Option.mem_def] at hs
        split_ifs at hs
        obtain rfl := Option.some.inj hs
        cases contextual
    | _ => cases hs
  · obtain ⟨rest, hp, _, d, hd, reported, _⟩ := enabled
    obtain rfl := Option.some.inj (hc.symm.trans hd)
    rcases (steady c hc).turn.polling h rest hp with ⟨_, quiet, _⟩ | ⟨writing, _⟩
    · exact quiet.2 (reported.2.2 hev)
    · exact writing.2.2.1 none

/-- At `epoll_wait` the connection is in one of its two phases. -/
theorem Steady.phase (steady : Steady srv l c) (h : Synchronous l) (polling : l.Polling) :
    Reading c ∨ Writing srv c := by
  obtain ⟨setup, rest, hp⟩ := polling
  rcases steady.turn.polling h rest hp with ⟨idle, quiet, _⟩ | ⟨writing, _⟩
  · obtain ⟨event, sevent⟩ := (settled_idle (by simp [AllMinor, setup]) rest.1).mp
      (steady.settled.resolve_left (by rw [rest.1]; exact List.not_mem_nil))
    have reading : ∀ {i : Interest}, i ≠ .epollout → i ≠ .none → i = .epollin := by
      intro i out none
      cases i with
      | none => exact absurd rfl none
      | epollin => rfl
      | epollout => exact absurd rfl out
    exact .inl ⟨reading quiet.1 event, reading quiet.2 sevent, steady.drained idle.packed⟩
  · exact .inr writing

/-- What a life with synchronous services keeps. -/
structure Sound (srv : PbServer) (l : Lifetime) : Prop where
  sync : Synchronous l
  steady : ∀ c, l.conn = some c → Steady srv l c
  fault : l.fault ≠ some .nullPointer

theorem sound_start : Sound srv (accepted srv fd) := ⟨synchronous_start, steady_start, nofun⟩

theorem sound_step (sync : srv.async = false) (h : Sound srv l) (step : Step srv l m l') :
    Sound srv l' := by
  refine ⟨synchronous_step sync h.sync step, steady_step h.steady h.sync step, ?_⟩
  obtain ⟨sound, enabled, rfl⟩ := step
  have spared := effect_not_null h.steady h.sync enabled
  unfold next
  cases he : l.effect srv m with
  | ok l' =>
      dsimp only
      rw [effect_fault enabled he, sound]
      exact nofun
  | error f =>
      rw [he] at spared
      exact fun null => spared (congrArg _ (Option.some.inj null))

end Lifetime
end SmallRpc
