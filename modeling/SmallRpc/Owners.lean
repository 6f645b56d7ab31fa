import SmallRpc.Addresses

/-! The timers of a server whose objects, loops and turns are all there, against the model
that keeps of an object what a timer knows it by. The one is a projection of the other. -/
namespace SmallRpc
open Runs

def Object.incarnation (o : Object) : Incarnation :=
  { el := o.el, ts := o.ts, timerId := o.conn.timerId, serial := o.serial }

namespace World

/-- What the timers see. Those that are due and not called yet are still armed. -/
def memory (w : World) : Memory where
  clock := w.clock
  heap a := (w.heap a).map Object.incarnation
  created := w.created
  channels := w.channels
  timers el := (w.turn el).expired ++ w.timers el

/-- The connection that a timer is bound to, as its loop finds it. -/
def bound (w : World) (el : LoopId) (call : TimeoutCall) : Lifetime :=
  { conn := (w.heap call.conn).map Object.conn, setup := []
    listed := (w.channels el).hasChannel call.conn call.connTs }

/-- No timer of the loop whose turn it is knows the address together with this millisecond. -/
def Unheard (threadNum : Nat) (w : World) : WorldMove → Prop
  | .accept (.conn _) address =>
    w.memory.Unheard (.create (TCPServer.getNextEl threadNum w.nextEl).1 address)
  | _ => True

/-- Whatever the next timer closes is what it was armed for. -/
def ClosesOwn (w : World) : WorldMove → Prop
  | .timer el => w.memory.ClosesOwn (.expire el 0)
  | _ => True

instance (threadNum : Nat) (w : World) : ∀ m, Decidable (w.Unheard threadNum m)
  | .accept (.conn _) address => inferInstanceAs (Decidable
      (w.memory.Unheard (.create (TCPServer.getNextEl threadNum w.nextEl).1 address)))
  | .accept .again _ => isTrue trivial
  | .accept .failed _ => isTrue trivial
  | .tick _ => isTrue trivial
  | .wait _ _ => isTrue trivial
  | .event _ _ _ => isTrue trivial
  | .swap _ => isTrue trivial
  | .func _ => isTrue trivial
  | .drain _ _ _ => isTrue trivial
  | .timer _ => isTrue trivial
  | .poll _ => isTrue trivial

/-- A timer that could name an object was armed for it. -/
def Owned (w : World) : Prop :=
  ∀ el, ∀ call ∈ w.memory.timers el, ∀ o, w.heap call.conn = some o → o.el = el →
    o.ts = call.connTs → o.serial = call.owner

variable {srv : PbServer} {threadNum : Nat} {w w' : World} {m : WorldMove} {a : Nat} {o : Object}
  {el : LoopId} {s : Stmt} {stmts : List Stmt} {call : TimeoutCall} {es : List (World × WorldMove)}

/-- `timeout_callback` decides here what it decides in the life of one connection. -/
theorem timeoutCallback_bound {timer : Timer} (same : timer.id % 2 ^ 32 = call.timerId % 2 ^ 32) :
    w.timeoutCallback srv el call = (w.bound el call).timeoutCallback timer >>= fun l =>
      w.execAll srv call.conn l.agenda := by
  unfold timeoutCallback Lifetime.timeoutCallback bound
  cases (w.channels el).hasChannel call.conn call.connTs with
  | false => rfl
  | true =>
      cases there : w.heap call.conn with
      | none =>
          simp only [withObject, there, Lifetime.withConn, Option.map_none, if_true]
          rfl
      | some o =>
          simp only [withObject, there, Lifetime.withConn, Option.map_some, same, if_true]
          split_ifs <;> rfl

/-- Outside of the object, a statement arms a timer for it or arms none. -/
theorem outside_timers (run : w.outside srv a o s = .ok w') : w'.heap = w.heap ∧ w'.turn = w.turn ∧
    ∀ el, ∀ call ∈ w'.timers el, call ∈ w.timers el ∨
      call.conn = a ∧ call.owner = o.serial := by
  cases s with
  | updateChannel =>
      obtain ⟨registration, _, rfl | rfl⟩ := epollCtl_ok run
      · exact ⟨rfl, rfl, fun _ _ => .inl⟩
      · exact ⟨rfl, rfl, fun _ _ => .inl⟩
  | runAfter kind =>
      cases run
      refine ⟨rfl, rfl, fun el call armed => ?_⟩
      by_cases hel : el = o.el
      · subst hel
        simp only [Function.update_self] at armed
        rcases List.mem_append.mp armed with old | new
        · exact .inl old
        · rw [List.mem_singleton.mp new]
          exact .inr ⟨rfl, rfl⟩
      · simp only [ne_eq, hel, not_false_eq_true, Function.update_of_ne] at armed
        exact .inl armed
  | _ =>
      cases run
      exact ⟨rfl, rfl, fun _ _ => .inl⟩

/-- What is stored at the address of an object is the same connection, or nothing. -/
theorem Owned.store {conn : Option TCPConnection} (h : w.Owned) (there : w.heap a = some o) :
    (w.store a (o.become conn)).Owned := by
  intro el call armed q hq hel hts
  change Function.update w.heap a (o.become conn) call.conn = some q at hq
  by_cases ha : call.conn = a
  · rw [ha, Function.update_self] at hq
    obtain ⟨c, _, rfl⟩ := Option.map_eq_some_iff.mp hq
    exact h el call armed o (by rw [ha, there]) hel hts
  · rw [Function.update_of_ne ha] at hq
    exact h el call armed q hq hel hts

theorem outside_owned (h : w.Owned) (there : w.heap a = some o) (run : w.outside srv a o s = .ok w') :
    w'.Owned := by
  obtain ⟨heap, turn, timers⟩ := outside_timers run
  intro el call armed q hq hel hts
  rw [heap] at hq
  change call ∈ (w'.turn el).expired ++ w'.timers el at armed
  rw [turn] at armed
  rcases List.mem_append.mp armed with due | armed
  · exact h el call (List.mem_append_left _ due) q hq hel hts
  · rcases timers el call armed with old | ⟨rfl, owner⟩
    · exact h el call (List.mem_append_right _ old) q hq hel hts
    · obtain rfl := Option.some.inj (there.symm.trans hq)
      exact owner.symm

/-- The use of a pointer that succeeds finds an object. -/
theorem withObject_ok {f : Object → Except Fault World} (run : w.withObject a f = .ok w') :
    ∃ o, w.heap a = some o ∧ f o = .ok w' := by
  unfold withObject at run
  cases there : w.heap a with
  | none =>
      rw [there] at run
      cases run
  | some o =>
      rw [there] at run
      exact ⟨o, rfl, run⟩

theorem exec_owned (h : w.Owned) (run : w.exec srv a s = .ok w') : w'.Owned := by
  obtain ⟨o, there, run⟩ := withObject_ok run
  obtain ⟨l, _, run⟩ := bind_ok.mp run
  obtain ⟨w₁, outside, stored⟩ := bind_ok.mp run
  obtain rfl := Except.ok.inj stored
  refine (outside_owned h there outside).store ?_
  rw [(outside_timers outside).1]
  exact there

theorem execAll_owned (h : w.Owned) (run : w.execAll srv a stmts = .ok w') : w'.Owned := by
  induction stmts generalizing w with
  | nil =>
      obtain rfl := Except.ok.inj run
      exact h
  | cons s stmts ih =>
      obtain ⟨w₁, first, rest⟩ := bind_ok.mp run
      exact ih (exec_owned h first) rest

/-- Timers may be called, and may go. -/
theorem Owned.fewer (h : w.Owned) (heap : w'.heap = w.heap)
    (timers : ∀ el, w'.memory.timers el ⊆ w.memory.timers el) : w'.Owned := by
  intro el call armed q hq
  rw [heap] at hq
  exact h el call (timers el armed) q hq

theorem setTurn_timers {turn : LoopTurn} (fewer : turn.expired ⊆ (w.turn el).expired) (el' : LoopId) :
    (w.setTurn el turn).memory.timers el' ⊆ w.memory.timers el' := by
  intro call armed
  change call ∈ (Function.update w.turn el turn el').expired ++ w.timers el' at armed
  by_cases hel : el' = el
  · subst hel
    rw [Function.update_self] at armed
    rcases List.mem_append.mp armed with due | later
    · exact List.mem_append_left _ (fewer due)
    · exact List.mem_append_right _ later
  · rw [Function.update_of_ne hel] at armed
    exact armed

theorem Owned.setTurn {turn : LoopTurn} (h : w.Owned) (fewer : turn.expired ⊆ (w.turn el).expired) :
    (w.setTurn el turn).Owned :=
  h.fewer rfl (setTurn_timers fewer)

/-- A new object, which no timer knows. -/
theorem Owned.construct {fd : Nat} (h : w.Owned)
    (unheard : w.memory.Unheard (.create (TCPServer.getNextEl threadNum w.nextEl).1 a)) :
    (w.construct threadNum fd a).Owned := by
  intro el call armed q hq hel hts
  change Function.update w.heap a (some (w.built threadNum fd)) call.conn = some q at hq
  by_cases ha : call.conn = a
  · rw [ha, Function.update_self] at hq
    obtain rfl := Option.some.inj hq
    subst hel
    exact absurd hts.symm (unheard call armed ha)
  · rw [Function.update_of_ne ha] at hq
    exact h el call armed q hq hel hts

theorem handle_owned {events : Events} {io : SocketResults} {respStr : Bytes} (h : w.Owned)
    (run : w.handle srv a events io respStr = .ok w') : w'.Owned := by
  obtain ⟨o, there, run⟩ := withObject_ok run
  obtain ⟨l, _, run⟩ := bind_ok.mp run
  exact execAll_owned (h.store there) run

theorem timeoutCallback_owned (h : w.Owned) (run : w.timeoutCallback srv el call = .ok w') : w'.Owned := by
  unfold timeoutCallback at run
  split_ifs at run
  · obtain ⟨o, _, run⟩ := withObject_ok run
    split_ifs at run
    · exact execAll_owned h run
    · obtain rfl := Except.ok.inj run
      exact h
  · obtain rfl := Except.ok.inj run
    exact h

theorem effect_owned (h : w.Owned) (enabled : w.Enabled m) (unheard : w.Unheard threadNum m)
    (run : w.effect srv threadNum m = .ok w') : w'.Owned := by
  have none : ∀ calls : List TimeoutCall, [] ⊆ calls := List.nil_subset
  cases m with
  | tick now =>
      obtain rfl := Except.ok.inj run
      exact h.fewer rfl fun _ => List.Subset.refl _
  | wait el sources =>
      obtain rfl := Except.ok.inj run
      exact h.setTurn (none _)
  | poll el =>
      obtain rfl := Except.ok.inj run
      exact h.setTurn (none _)
  | event el io respStr =>
      simp only [effect] at run
      split at run
      · exact handle_owned (h.setTurn (none _)) run
      · obtain rfl := Except.ok.inj run
        exact h
  | accept r address =>
      simp only [effect] at run
      split at run
      · cases r with
        | again =>
            obtain rfl := Except.ok.inj run
            exact h.setTurn (none _)
        | failed => cases run
        | conn fd =>
            refine execAll_owned ((h.setTurn (none _)).construct fun call armed => ?_) run
            exact unheard call (setTurn_timers (none _) _ armed)
      · obtain rfl := Except.ok.inj run
        exact h
  | swap el =>
      obtain rfl := Except.ok.inj run
      have handling : (w.setTurn el (.funcs (w.queue el))).Owned := h.setTurn (none _)
      exact handling.fewer rfl fun _ => List.Subset.refl _
  | func el =>
      simp only [effect] at run
      split at run
      · exact exec_owned (h.setTurn (none _)) run
      · obtain rfl := Except.ok.inj run
        exact h
  | drain el expired left =>
      obtain rfl := Except.ok.inj run
      obtain ⟨turn, all⟩ := enabled
      refine h.fewer rfl fun el' call armed => ?_
      change call ∈ (Function.update w.turn el (.timers expired) el').expired ++
        Function.update w.timers el left el' at armed
      by_cases hel : el' = el
      · subst hel
        rw [Function.update_self, Function.update_self] at armed
        exact List.mem_append_right _ (all.mem_iff.mpr armed)
      · rw [Function.update_of_ne hel, Function.update_of_ne hel] at armed
        exact armed
  | timer el =>
      simp only [effect] at run
      split at run
      · rename_i call expired ht
        refine timeoutCallback_owned (h.setTurn ?_) run
        rw [ht]
        exact List.subset_cons_self _ _
      · obtain rfl := Except.ok.inj run
        exact h

theorem owned_step (h : w.Owned) (unheard : w.Unheard threadNum m)
    (step : (world srv threadNum).step w m w') : w'.Owned := by
  obtain ⟨_, enabled, rfl⟩ := step
  unfold next
  cases done : w.effect srv threadNum m with
  | ok w' => exact effect_owned h enabled unheard done
  | error f => exact h

theorem owned_started (start : Started threadNum w) : w.Owned := by
  obtain ⟨clock, files, _, rfl⟩ := start
  intro el call armed
  cases armed

/-- What the timers see is a state of their own model, under its invariant. -/
theorem memory_named (linked : w.Linked) (owned : w.Owned) : w.memory.Named where
  listed el a ts := by
    refine (linked.listed el a ts).trans ?_
    simp [memory, Object.incarnation]
  owned el call armed c found hel hts := by
    obtain ⟨o, there, rfl⟩ := Option.map_eq_some_iff.mp found
    exact owned el call armed o there hel hts

theorem memory_store {x : Option Object} : (w.store a x).memory =
    { w.memory with heap := Function.update w.memory.heap a (x.map Object.incarnation) } := by
  have heap : (w.store a x).memory.heap = Function.update w.memory.heap a (x.map Object.incarnation) := by
    funext b
    change (Function.update w.heap a x b).map Object.incarnation = _
    by_cases hb : b = a
    · rw [hb, Function.update_self, Function.update_self]
    · rw [Function.update_of_ne hb, Function.update_of_ne hb]
      rfl
  exact congrArg (fun heap => { w.memory with heap }) heap

/-- To the timers, the same object is as good as the old one. -/
theorem memory_store_same {o' : Object} (there : w.heap a = some o) (same : o'.incarnation = o.incarnation) :
    (w.store a (some o')).memory = w.memory := by
  have found : w.memory.heap a = some o.incarnation := by
    change (w.heap a).map Object.incarnation = _
    rw [there]
    rfl
  rw [memory_store, Option.map_some, same, ← found, Function.update_eq_self]

theorem memory_removed : (w.removed a o).memory = w.memory.delete a o.incarnation :=
  memory_store (w := { w with channels := (w.removed a o).channels }) (x := none)

theorem exec_setEvent {event : Interest} (there : w.heap a = some o)
    (run : w.exec srv a (.setEvent event) = .ok w') :
    ∃ o', w'.heap a = some o' ∧ o'.incarnation = o.incarnation ∧ w'.memory = w.memory := by
  rw [exec, withObject_some there] at run
  obtain rfl := Except.ok.inj run
  exact ⟨_, store_self, rfl, memory_store_same there rfl⟩

theorem exec_updateChannel (there : w.heap a = some o) (run : w.exec srv a .updateChannel = .ok w') :
    ∃ o', w'.heap a = some o' ∧ o'.incarnation = o.incarnation ∧ w'.memory = w.memory := by
  rw [exec, withObject_some there] at run
  obtain ⟨l, updated, run⟩ := bind_ok.mp run
  obtain rfl := Except.ok.inj updated
  obtain ⟨w₁, asked, stored⟩ := bind_ok.mp run
  obtain rfl := Except.ok.inj stored
  refine ⟨_, store_self, rfl, ?_⟩
  obtain ⟨registration, _, rfl | rfl⟩ := epollCtl_ok asked
  · exact memory_store_same there rfl
  · exact memory_store_same (w := w.setEpoll o.el o.conn.fd registration) there rfl

/-- All that they see of a `close_callback` is that the object goes. -/
theorem closeCallback_memory (there : w.heap a = some o)
    (run : w.execAll srv a PbServer.closeCallback = .ok w') : w'.memory = w.memory.delete a o.incarnation := by
  change w.exec srv a (.setEvent .none) >>= (fun w => w.exec srv a .updateChannel >>= fun w =>
    w.execAll srv a [.closeFd, .removeChannel, .deleteConn]) = _ at run
  obtain ⟨w₁, set, run⟩ := bind_ok.mp run
  obtain ⟨o₁, there₁, same₁, memory₁⟩ := exec_setEvent there set
  obtain ⟨w₂, updated, run⟩ := bind_ok.mp run
  obtain ⟨o₂, there₂, same₂, memory₂⟩ := exec_updateChannel there₁ updated
  rw [execAll_removes there₂] at run
  obtain rfl := Except.ok.inj run
  rw [memory_removed, memory₂, memory₁, same₂, same₁]

/-- And of `timeout_callback` they see what their own model makes of it. -/
theorem timeoutCallback_memory (run : w.timeoutCallback srv el call = .ok w') :
    w'.memory = w.memory.timeoutCallback el call := by
  unfold timeoutCallback at run
  split_ifs at run with listed
  · obtain ⟨o, there, run⟩ := withObject_ok run
    have closes : w.memory.closes el call = (some o.incarnation).filter fun c =>
        c.timerId % 2 ^ 32 = call.timerId % 2 ^ 32 := by
      have found : w.memory.heap call.conn = some o.incarnation := by
        change (w.heap call.conn).map Object.incarnation = _
        rw [there]
        rfl
      rw [← found]
      exact if_pos listed
    by_cases newest : o.conn.timerId % 2 ^ 32 = call.timerId % 2 ^ 32
    · have own : w.memory.closes el call = some o.incarnation := closes.trans (if_pos (decide_eq_true newest))
      rw [if_pos newest] at run
      rw [Memory.timeoutCallback, own]
      exact closeCallback_memory there run
    · have none : w.memory.closes el call = none :=
        closes.trans (if_neg fun same => newest (of_decide_eq_true same))
      rw [if_neg newest] at run
      obtain rfl := Except.ok.inj run
      rw [Memory.timeoutCallback, none]
  · have closes : w.memory.closes el call = none := if_neg listed
    rw [Memory.timeoutCallback, closes]
    obtain rfl := Except.ok.inj run
    rfl

/-- No timer of a server acts on a connection it was not armed for, in every run in which no
connection is created at an address and in a millisecond that a timer of its loop knows. -/
theorem timers_act_on_own (run : Run (world srv threadNum) es w) (guarded : Guarded (Unheard threadNum) es) :
    Guarded ClosesOwn es := by
  refine run.forall_steps (I := fun w => (w.Linked ∧ w.fault ≠ some .danglingPointer) ∧ w.Owned) guarded
    ?_ ?_ fun {w m} h _ => ?_
  · exact fun start => ⟨⟨linked_started start, started_fault start⟩, owned_started start⟩
  · exact fun h unheard step => ⟨linked_step h.1 step, owned_step h.2 unheard step⟩
  · cases m with
    | timer el => exact (memory_named h.1.1 h.2).closesOwn (m := .expire el 0)
    | _ => trivial

/-- A server that waits a second for a request. -/
def impatient : PbServer := { TCPServer.echo false with readTimeoutMs := 1000 }

/-- The timer of the first connection at the address, or of the third. -/
def armedAt (ts : TimeStamp) (owner : Nat) : TimeoutCall :=
  { conn := 4096, connTs := ts, timerId := 1, isRead := true, deadline := ts.afterNowMs 1000, owner }

/-- A connection is gone before its timer is due; the third one gets its address, on the same
loop, a millisecond later. -/
def overtaken : List WorldMove :=
  let accepting (fd address : Nat) : List WorldMove :=
    [.wait .main [(none, {})], .accept (.conn fd) address, .swap .main, .drain .main [] [], .poll .main]
  let first := armedAt ⟨7, 0⟩ 0
  let third := armedAt ⟨7, 1⟩ 2
  accepting 7 4096 ++
  [.wait (.sub 1) [(some 7, { epollin := true })], .event (.sub 1) { read := .eof } [], .swap (.sub 1),
   .drain (.sub 1) [] [first], .poll (.sub 1)] ++
  accepting 7 8192 ++ [.tick ⟨7, 1⟩] ++ accepting 8 4096 ++
  [.tick ⟨8, 1⟩, .wait (.sub 1) [], .swap (.sub 1), .drain (.sub 1) [first] [third], .timer (.sub 1)]

theorem overtaken_acts_on_own : Guarded ClosesOwn (visits (next impatient 2) launched overtaken) :=
  timers_act_on_own (run_world impatient overtaken (by decide +kernel)) (by decide +kernel)

end World
end SmallRpc
