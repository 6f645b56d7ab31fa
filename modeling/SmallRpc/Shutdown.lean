import SmallRpc.TCPServer

/-! Shutting a server down. `stop` runs in a thread of its own, next to the sub-reactors
and to the main reactor, which goes on accepting until it is stopped as the last one. -/
namespace SmallRpc
open Runs

/-- Where `stop` is; a number is that of a sub-reactor. -/
inductive StopAt where
  | stopSub (i : Nat)
  | joinSub (i : Nat)
  | deleteSubs
  | clearSubs
  | stopMain
  | joinMain
  | stopped
  deriving DecidableEq, Repr

/-- What `_get_next_el` returns: `&_el`, or an address reckoned from `_sub_els`, which is
an array or null. -/
structure ElPtr where
  loop : LoopId
  array : Bool
  deriving DecidableEq, Repr

/-- `setup` is what is left of `new_connection_callback`, and `el` the loop of the
connection that it was last called for. -/
structure Reactors where
  nextEl : Option Nat
  subEls : Bool
  subsExist : Bool
  stopAt : StopAt
  isStop : List LoopId := []
  ended : List LoopId := []
  el : Option ElPtr := none
  setup : List Stmt := []
  deriving DecidableEq, Repr

/-- `turn` is any use a sub-reactor's thread makes of its own loop, and `leave` the return
from `loop`. -/
inductive ReactorMove where
  | stop
  | accept
  | setup
  | turn (i : Nat)
  | leave (loop : LoopId)
  deriving DecidableEq, Repr

/-- The statements of `new_connection_callback` that call the loop. -/
def Stmt.callsEl : Stmt → Bool
  | addChannel | updateChannel | runAfter _ => true
  | _ => false

/-- `delete[] _sub_els` is still to come. -/
def StopAt.early : StopAt → Bool
  | stopSub _ | joinSub _ | deleteSubs => true
  | _ => false

namespace Reactors

/-- After `start`, with `stop` about to be called. -/
def started (threadNum : Nat) : Reactors :=
  if threadNum = 0 then { nextEl := none, subEls := false, subsExist := false, stopAt := .stopMain }
  else { nextEl := some 0, subEls := true, subsExist := true, stopAt := .stopSub 0 }

def getNextEl (threadNum : Nat) (w : Reactors) : ElPtr × Option Nat :=
  let (loop, nextEl) := TCPServer.getNextEl threadNum w.nextEl
  (⟨loop, w.subEls⟩, nextEl)

/-- The next step of `stop`. -/
def stop (threadNum : Nat) (w : Reactors) : Reactors :=
  match w.stopAt with
  | .stopSub i => { w with isStop := .sub i :: w.isStop, stopAt := .joinSub i }
  | .joinSub i => { w with stopAt := if i + 1 < threadNum then .stopSub (i + 1) else .deleteSubs }
  | .deleteSubs => { w with subsExist := false, stopAt := .clearSubs }
  | .clearSubs => { w with subEls := false, stopAt := .stopMain }
  | .stopMain => { w with isStop := .main :: w.isStop, stopAt := .joinMain }
  | .joinMain => { w with stopAt := .stopped }
  | .stopped => w

def next (srv : PbServer) (threadNum : Nat) (w : Reactors) : ReactorMove → Reactors
  | .stop => w.stop threadNum
  | .accept =>
    { w with
      nextEl := (w.getNextEl threadNum).2
      el := some (w.getNextEl threadNum).1
      setup := srv.newConnectionCallback }
  | .setup => { w with setup := w.setup.tail }
  | .turn _ => w
  | .leave loop => { w with ended := loop :: w.ended }

/-- A `join` waits for the thread to end. -/
def Joinable (w : Reactors) : StopAt → Prop
  | .joinSub i => .sub i ∈ w.ended
  | .joinMain => .main ∈ w.ended
  | at' => at' ≠ .stopped

def Enabled (threadNum : Nat) (w : Reactors) : ReactorMove → Prop
  | .stop => w.Joinable w.stopAt
  | .accept => .main ∉ w.ended ∧ w.setup = []
  | .setup => w.setup ≠ []
  | .turn i => i < threadNum ∧ .sub i ∉ w.ended
  | .leave loop => loop ∈ w.isStop ∧ loop ∉ w.ended ∧ (loop = .main → w.setup = [])

/-- The pointer is to a loop that has not been deleted. -/
def Exists (threadNum : Nat) (w : Reactors) (p : ElPtr) : Prop :=
  match p.loop with
  | .main => True
  | .sub i => p.array = true ∧ w.subsExist = true ∧ i < threadNum

/-- The loop a step gets or calls exists. -/
def ElExists (threadNum : Nat) (w : Reactors) : ReactorMove → Prop
  | .accept => w.Exists threadNum (w.getNextEl threadNum).1
  | .setup => ∀ s ∈ w.setup.head?, s.callsEl = true → ∀ p ∈ w.el, w.Exists threadNum p
  | .turn i => w.Exists threadNum ⟨.sub i, true⟩
  | _ => True

/-- `new_connection_callback` gets its loop, or calls it. -/
def TakesEl (w : Reactors) : ReactorMove → Prop
  | .accept => True
  | .setup => ∃ s ∈ w.setup.head?, s.callsEl = true
  | _ => False

/-- No loop is taken from behind `delete[] _sub_els`. -/
def InTime (threadNum : Nat) (w : Reactors) (m : ReactorMove) : Prop :=
  w.TakesEl m → threadNum = 0 ∨ w.stopAt.early = true

instance (w : Reactors) : ∀ at', Decidable (w.Joinable at')
  | .joinSub _ => inferInstanceAs (Decidable (_ ∈ _))
  | .joinMain => inferInstanceAs (Decidable (_ ∈ _))
  | .stopSub _ => inferInstanceAs (Decidable (_ ≠ _))
  | .deleteSubs => inferInstanceAs (Decidable (_ ≠ _))
  | .clearSubs => inferInstanceAs (Decidable (_ ≠ _))
  | .stopMain => inferInstanceAs (Decidable (_ ≠ _))
  | .stopped => inferInstanceAs (Decidable (_ ≠ _))

instance (threadNum : Nat) (w : Reactors) : ∀ m, Decidable (w.Enabled threadNum m)
  | .stop => inferInstanceAs (Decidable (w.Joinable _))
  | .accept => inferInstanceAs (Decidable (_ ∧ _))
  | .setup => inferInstanceAs (Decidable (_ ≠ _))
  | .turn _ => inferInstanceAs (Decidable (_ ∧ _))
  | .leave _ => inferInstanceAs (Decidable (_ ∧ _ ∧ _))

end Reactors

/-- A started server while `stop` is called. -/
def shutdown (srv : PbServer) (threadNum : Nat) : System Reactors ReactorMove where
  start w := w = .started threadNum
  step w m w' := w.Enabled threadNum m ∧ w' = w.next srv threadNum m

namespace Reactors
variable {srv : PbServer} {threadNum : Nat} {w w' : Reactors} {m : ReactorMove}
  {es : List (Reactors × ReactorMove)}

/-- How many sub-reactors have been joined. -/
def joined (threadNum : Nat) : StopAt → Nat
  | .stopSub i => i
  | .joinSub i => i
  | _ => threadNum

/-- A pointer that was good when it was handed out. -/
def Good (threadNum : Nat) (w : Reactors) (p : ElPtr) : Prop :=
  match p.loop with
  | .main => threadNum = 0
  | .sub i => i < threadNum ∧ (w.stopAt.early = true → p.array = true)

/-- The loops exist until `stop` deletes them, and by then their threads have ended. -/
structure Consistent (threadNum : Nat) (w : Reactors) : Prop where
  exist : threadNum ≠ 0 → w.subsExist = w.stopAt.early
  array : threadNum ≠ 0 → w.stopAt.early = true → w.subEls = true
  joined : ∀ i < joined threadNum w.stopAt, .sub i ∈ w.ended
  joins : ∀ i, w.stopAt = .stopSub i ∨ w.stopAt = .joinSub i → i < threadNum
  main : threadNum = 0 ↔ w.nextEl = none
  el : ∀ p ∈ w.el, w.Good threadNum p
  taken : w.setup ≠ [] → w.el ≠ none

theorem consistent_started : (started threadNum).Consistent threadNum := by
  unfold started
  split_ifs with none
  · subst none
    exact ⟨fun h => absurd rfl h, fun h => absurd rfl h, fun i hi => absurd hi (Nat.not_lt_zero i),
      by simp, by simp, by simp, by simp⟩
  · refine ⟨fun _ => rfl, fun _ _ => rfl, fun i hi => absurd hi (Nat.not_lt_zero i),
      fun i hi => ?_, by simp [none], by simp, by simp⟩
    obtain rfl : 0 = i := by simpa using hi
    exact Nat.pos_of_ne_zero none

/-- What `_get_next_el` returns is good, and it keeps to one kind of loop. -/
theorem Consistent.getNextEl (h : w.Consistent threadNum) :
    w.Good threadNum (w.getNextEl threadNum).1 ∧
      (threadNum = 0 ↔ (w.getNextEl threadNum).2 = none) := by
  have array := h.array
  unfold Reactors.getNextEl TCPServer.getNextEl
  cases hn : w.nextEl with
  | none =>
      have none := h.main.mpr hn
      exact ⟨none, by simp [none]⟩
  | some k =>
      have some : threadNum ≠ 0 := fun none => by simp [h.main.mp none] at hn
      exact ⟨⟨Nat.mod_lt _ (Nat.pos_of_ne_zero some), fun early => array some early⟩, by simp [some]⟩

/-- A loop handed out exists exactly as long as `stop` has not deleted it. -/
theorem Consistent.exists_iff (h : w.Consistent threadNum) {p : ElPtr} (good : w.Good threadNum p) :
    w.Exists threadNum p ↔ threadNum = 0 ∨ w.stopAt.early = true := by
  unfold Exists
  unfold Good at good
  cases hp : p.loop with
  | main =>
      rw [hp] at good
      exact iff_of_true trivial (.inl good)
  | sub i =>
      rw [hp] at good
      have some : threadNum ≠ 0 := fun none => by omega
      constructor
      · exact fun ⟨_, exist, _⟩ => .inr ((h.exist some).symm.trans exist)
      · intro early
        have early := early.resolve_left some
        exact ⟨good.2 early, (h.exist some).trans early, good.1⟩

/-- `stop` never goes back before the deletion. -/
theorem Good.later {p : ElPtr} (good : w.Good threadNum p)
    (early : w'.stopAt.early = true → w.stopAt.early = true) : w'.Good threadNum p := by
  unfold Good at good ⊢
  cases hp : p.loop with
  | main =>
      rw [hp] at good
      exact good
  | sub i =>
      rw [hp] at good
      exact ⟨good.1, fun h => good.2 (early h)⟩

/-- From the deletion on all that counts is that every sub-reactor has ended. -/
theorem consistent_late (h : w.Consistent threadNum) (late : w'.stopAt.early = false)
    (deleted : threadNum ≠ 0 → w'.subsExist = false) (joined : ∀ i < threadNum, .sub i ∈ w'.ended)
    (nextEl : w'.nextEl = w.nextEl) (el : w'.el = w.el) (setup : w'.setup = w.setup) :
    w'.Consistent threadNum := by
  have never : w'.stopAt.early ≠ true := Bool.eq_false_iff.mp late
  refine ⟨fun some => (deleted some).trans late.symm,
    fun _ early => absurd early never, fun i hi => joined i ?_, fun i hi => ?_, ?_, fun p hp => ?_, ?_⟩
  · unfold Reactors.joined at hi
    split at hi
    · rename_i hs
      exact absurd (by rw [hs]; rfl) never
    · rename_i hs
      exact absurd (by rw [hs]; rfl) never
    · exact hi
  · rcases hi with hs | hs
    · exact absurd (by rw [hs]; rfl) never
    · exact absurd (by rw [hs]; rfl) never
  · rw [nextEl]
    exact h.main
  · rw [el] at hp
    exact (h.el p hp).later fun early => absurd early never
  · rw [setup, el]
    exact h.taken

theorem consistent_stop (h : w.Consistent threadNum) (ready : w.Joinable w.stopAt) :
    (w.stop threadNum).Consistent threadNum := by
  have exist := h.exist
  have array := h.array
  have joined := h.joined
  have joins := h.joins
  unfold stop
  cases hs : w.stopAt with
  | stopSub i =>
      rw [hs] at exist array joined joins
      exact ⟨exist, array, joined, fun j hj => joins j (.inl (by simpa using hj)), h.main,
        fun p hp => (h.el p hp).later fun _ => by rw [hs]; rfl, h.taken⟩
  | joinSub i =>
      rw [hs] at exist array joined joins ready
      have done : ∀ j < i + 1, .sub j ∈ w.ended := by
        intro j hj
        rcases Nat.lt_succ_iff_lt_or_eq.mp hj with before | rfl
        · exact joined j before
        · exact ready
      have last := joins i (.inr rfl)
      have good : ∀ {w' : Reactors}, ∀ p ∈ w.el, w'.Good threadNum p := fun {_} p hp =>
        (h.el p hp).later fun _ => by rw [hs]; rfl
      dsimp only
      split_ifs with more
      · refine ⟨exist, array, done, fun j hj => ?_, h.main, good, h.taken⟩
        obtain rfl : i + 1 = j := by simpa using hj
        exact more
      · refine ⟨exist, array, fun j hj => done j ?_, fun j hj => by simp at hj, h.main, good, h.taken⟩
        change j < threadNum at hj
        omega
  | deleteSubs =>
      rw [hs] at joined
      exact consistent_late h rfl (fun _ => rfl) joined rfl rfl rfl
  | clearSubs =>
      rw [hs] at joined exist
      exact consistent_late h rfl exist joined rfl rfl rfl
  | stopMain =>
      rw [hs] at joined exist
      exact consistent_late h rfl exist joined rfl rfl rfl
  | joinMain =>
      rw [hs] at joined exist
      exact consistent_late h rfl exist joined rfl rfl rfl
  | stopped => exact h

theorem consistent_step (h : w.Consistent threadNum) (step : (shutdown srv threadNum).step w m w') :
    w'.Consistent threadNum := by
  obtain ⟨enabled, rfl⟩ := step
  cases m with
  | stop => exact consistent_stop h enabled
  | accept =>
      obtain ⟨good, main⟩ := h.getNextEl
      refine ⟨h.exist, h.array, h.joined, h.joins, main, fun p hp => ?_, fun _ => Option.some_ne_none _⟩
      obtain rfl := Option.some.inj hp
      exact good.later id
  | setup => exact ⟨h.exist, h.array, h.joined, h.joins, h.main, fun p hp => (h.el p hp).later id,
      fun _ => h.taken enabled⟩
  | turn i => exact h
  | leave loop =>
      exact ⟨h.exist, h.array, fun i hi => List.mem_cons_of_mem _ (h.joined i hi), h.joins, h.main,
        fun p hp => (h.el p hp).later id, h.taken⟩

/-- A sub-reactor's own thread never outlives its loop. -/
theorem Consistent.turn {i : Nat} (h : w.Consistent threadNum)
    (enabled : w.Enabled threadNum (.turn i)) : w.Exists threadNum ⟨.sub i, true⟩ := by
  obtain ⟨lt, running⟩ := enabled
  have some : threadNum ≠ 0 := by omega
  have early : w.stopAt.early = true := by
    by_contra late
    have joined := h.joined i
    cases hs : w.stopAt with
    | stopSub j => exact late (by rw [hs]; rfl)
    | joinSub j => exact late (by rw [hs]; rfl)
    | deleteSubs => exact late (by rw [hs]; rfl)
    | clearSubs => exact running (joined (by rw [hs]; exact lt))
    | stopMain => exact running (joined (by rw [hs]; exact lt))
    | joinMain => exact running (joined (by rw [hs]; exact lt))
    | stopped => exact running (joined (by rw [hs]; exact lt))
  exact ⟨rfl, (h.exist some).trans early, lt⟩

theorem elExists_here (h : w.Consistent threadNum) (step : (shutdown srv threadNum).step w m w') :
    w.ElExists threadNum m ↔ w.InTime threadNum m := by
  cases m with
  | stop => exact iff_of_true trivial False.elim
  | accept =>
      refine (h.exists_iff h.getNextEl.1).trans ⟨fun early _ => early, fun early => early trivial⟩
  | setup =>
      obtain ⟨p, hp⟩ := Option.ne_none_iff_exists'.mp (h.taken step.1)
      have good := h.exists_iff (h.el p hp)
      constructor
      · rintro exist ⟨s, hs, calls⟩
        exact good.mp (exist s hs calls p hp)
      · intro early s hs calls q hq
        obtain rfl := Option.some.inj (hp.symm.trans hq)
        exact good.mpr (early ⟨s, hs, calls⟩)
  | turn i => exact iff_of_true (h.turn step.1) False.elim
  | leave loop => exact iff_of_true trivial False.elim

/-- Every loop that a new connection gets and is set up on exists exactly in those runs in
which, with sub-reactors, none is got or called from the moment `stop` deletes them. -/
theorem elExists_iff (run : Run (shutdown srv threadNum) es w) :
    Guarded (ElExists threadNum) es ↔ Guarded (InTime threadNum) es := by
  apply run.guarded_iff (I := Consistent threadNum)
  · rintro _ rfl
    exact consistent_started
  · exact fun h _ step => consistent_step h step
  · exact fun h step => elExists_here h step

/-- A list of steps that are all enabled in turn is a run. -/
theorem run_shutdown (srv : PbServer) (ms : List ReactorMove)
    (enabled : ∀ e ∈ visits (next srv threadNum) (started threadNum) ms, e.1.Enabled threadNum e.2) :
    Run (shutdown srv threadNum) (visits (next srv threadNum) (started threadNum) ms)
      (replay (next srv threadNum) (started threadNum) ms) :=
  ⟨_, rfl, path_replay (S := shutdown srv threadNum) (E := fun w m => w.Enabled threadNum m)
    (fun {_ _} h => ⟨h, rfl⟩) enabled⟩

/-- A connection is set up on the first of two sub-reactors, and then the server is stopped. -/
def orderly : List ReactorMove :=
  .accept :: List.replicate 6 .setup ++ [.stop, .leave (.sub 0), .stop, .stop, .leave (.sub 1), .stop,
    .stop, .stop, .stop, .leave .main, .stop]

theorem orderly_elExists_iff :
    Guarded (ElExists 2) (visits (next (TCPServer.echo false) 2) (started 2) orderly) ↔
      Guarded (InTime 2) (visits (next (TCPServer.echo false) 2) (started 2) orderly) :=
  elExists_iff (run_shutdown (TCPServer.echo false) orderly (by decide +kernel))

/-- The only sub-reactor is stopped and deleted; then a client connects. -/
def lateClient : List ReactorMove := [.stop, .leave (.sub 0), .stop, .stop]

theorem deleted_loop_handed_out :
    ¬ ∀ srv threadNum es w, Run (shutdown srv threadNum) es w → Guarded (ElExists threadNum) es := by
  intro claim
  have run := @run_shutdown 1 (TCPServer.echo false) (lateClient ++ [.accept]) (by decide +kernel)
  have exist := claim _ _ _ _ run _ visits_last
  exact absurd exist.2.1 (by decide)

end Reactors
end SmallRpc
