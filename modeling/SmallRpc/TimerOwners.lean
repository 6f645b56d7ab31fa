import SmallRpc.TCPServer
import SmallRpc.TimeStamps

/-! How a timer finds the connection it was armed for again: by its address, by the
millisecond in which it was created, and by a number that every connection counts from
zero. An address may be given out again as soon as it is free. -/
namespace SmallRpc
open Runs

/-- `_channels` of an event loop. -/
abbrev Channels := Nat → Option TimeStamp

namespace Channels

def addChannel (channels : Channels) (channel : Nat) (ts : TimeStamp) : Channels :=
  Function.update channels channel (some ts)

def hasChannel (channels : Channels) (channel : Nat) (ts : TimeStamp) : Bool :=
  match channels channel with
  | none => false
  | some registered => registered.eq ts

def removeChannel (channels : Channels) (channel : Nat) (ts : TimeStamp) : Channels :=
  if channels.hasChannel channel ts then Function.update channels channel none else channels

variable {channels : Channels} {channel : Nat} {ts : TimeStamp}

theorem hasChannel_iff : channels.hasChannel channel ts = true ↔ channels channel = some ts := by
  unfold hasChannel
  cases channels channel with
  | none => simp
  | some registered => rw [TimeStamp.eq_iff, Option.some_inj]

theorem removeChannel_own (h : channels channel = some ts) :
    channels.removeChannel channel ts = Function.update channels channel none :=
  if_pos (hasChannel_iff.mpr h)

end Channels

/-- What a connection object is known by, with its number among all that were created. -/
structure Incarnation where
  el : LoopId
  ts : TimeStamp
  timerId : Nat := 0
  serial : Nat
  deriving DecidableEq, Repr

/-- A queued call of `timeout_callback` with the arguments that are bound, and the number
of the connection that it was armed for. -/
structure TimeoutCall where
  conn : Nat
  connTs : TimeStamp
  timerId : Nat
  isRead : Bool
  deadline : TimeStamp
  owner : Nat
  deriving DecidableEq, Repr

/-- The objects in memory, the loops' `_channels` and timers, and the clock. -/
structure Memory where
  clock : TimeStamp
  heap : Nat → Option Incarnation := fun _ => none
  created : Nat := 0
  channels : LoopId → Channels := fun _ _ => none
  timers : LoopId → List TimeoutCall := fun _ => []

inductive MemoryMove where
  | tick (now : TimeStamp)
  | create (el : LoopId) (conn : Nat)
  | arm (conn : Nat) (timeoutMs : Int) (isRead : Bool)
  | delete (conn : Nat)
  | expire (el : LoopId) (n : Nat)
  deriving DecidableEq, Repr

namespace Memory

/-- The constructor and `add_channel`. -/
def create (w : Memory) (el : LoopId) (conn : Nat) : Memory :=
  { w with
    heap := Function.update w.heap conn (some { el, ts := w.clock, serial := w.created })
    created := w.created + 1
    channels := Function.update w.channels el ((w.channels el).addChannel conn w.clock) }

/-- `timer_id.fetch_add(1)` and `run_after`. -/
def arm (w : Memory) (conn : Nat) (c : Incarnation) (timeoutMs : Int) (isRead : Bool) : Memory :=
  let call : TimeoutCall :=
    { conn, connTs := c.ts, timerId := c.timerId + 1, isRead
      deadline := w.clock.afterNowMs timeoutMs, owner := c.serial }
  { w with
    heap := Function.update w.heap conn (some { c with timerId := c.timerId + 1 })
    timers := Function.update w.timers c.el (w.timers c.el ++ [call]) }

/-- `remove_channel` and `delete`, at the end of `close_callback`. -/
def delete (w : Memory) (conn : Nat) (c : Incarnation) : Memory :=
  { w with
    heap := Function.update w.heap conn none
    channels := Function.update w.channels c.el ((w.channels c.el).removeChannel conn c.ts) }

/-- The connection that `timeout_callback` goes on to close. -/
def closes (w : Memory) (el : LoopId) (call : TimeoutCall) : Option Incarnation :=
  if (w.channels el).hasChannel call.conn call.connTs then
    (w.heap call.conn).filter fun c => c.timerId % 2 ^ 32 = call.timerId % 2 ^ 32
  else none

def timeoutCallback (w : Memory) (el : LoopId) (call : TimeoutCall) : Memory :=
  match w.closes el call with
  | none => w
  | some c => w.delete call.conn c

def next (w : Memory) : MemoryMove → Memory
  | .tick now => { w with clock := now }
  | .create el conn => w.create el conn
  | .arm conn timeoutMs isRead =>
    match w.heap conn with
    | none => w
    | some c => w.arm conn c timeoutMs isRead
  | .delete conn =>
    match w.heap conn with
    | none => w
    | some c => w.delete conn c
  | .expire el n =>
    match (w.timers el)[n]? with
    | none => w
    | some call =>
      { w with timers := Function.update w.timers el ((w.timers el).eraseIdx n) }.timeoutCallback el call

/-- The clock may stand still, but it does not go back. -/
def Enabled (w : Memory) : MemoryMove → Prop
  | .tick now => now.lt w.clock = false
  | .create _ conn => w.heap conn = none
  | .arm conn _ _ => w.heap conn ≠ none
  | .delete conn => w.heap conn ≠ none
  | .expire el n => ∃ call ∈ (w.timers el)[n]?, call.deadline.lt w.clock = true

instance (w : Memory) : ∀ m, Decidable (w.Enabled m)
  | .tick _ => inferInstanceAs (Decidable (_ = _))
  | .create _ _ => inferInstanceAs (Decidable (_ = _))
  | .arm _ _ _ => inferInstanceAs (Decidable (_ ≠ _))
  | .delete _ => inferInstanceAs (Decidable (_ ≠ _))
  | .expire _ _ => inferInstanceAs (Decidable (∃ call ∈ _, _))

/-- Whatever a timer closes is what it was armed for. -/
def ClosesOwn (w : Memory) : MemoryMove → Prop
  | .expire el n => ∀ call ∈ (w.timers el)[n]?, ∀ c ∈ w.closes el call, c.serial = call.owner
  | _ => True

/-- No queued timer knows the address together with this millisecond. -/
def Unheard (w : Memory) : MemoryMove → Prop
  | .create el conn => ∀ call ∈ w.timers el, call.conn = conn → call.connTs ≠ w.clock
  | _ => True

instance (w : Memory) : ∀ m, Decidable (w.Unheard m)
  | .tick _ => inferInstanceAs (Decidable True)
  | .create _ _ => inferInstanceAs (Decidable (∀ call ∈ _, _ → _))
  | .arm _ _ _ => inferInstanceAs (Decidable True)
  | .delete _ => inferInstanceAs (Decidable True)
  | .expire _ _ => inferInstanceAs (Decidable True)

/-- The invariant: a loop lists its live connections, and a timer that could name one of
them was armed for it. -/
structure Named (w : Memory) : Prop where
  listed : ∀ el a ts, w.channels el a = some ts ↔ ∃ c, w.heap a = some c ∧ c.el = el ∧ c.ts = ts
  owned : ∀ el, ∀ call ∈ w.timers el, ∀ c, w.heap call.conn = some c → c.el = el →
    c.ts = call.connTs → c.serial = call.owner

end Memory

def memory : System Memory MemoryMove where
  start w := ∃ clock, w = { clock }
  step w m w' := w.Enabled m ∧ w' = w.next m

namespace Memory
variable {w w' : Memory} {m : MemoryMove} {el el' : LoopId} {conn a : Nat} {c d : Incarnation}
  {ts : TimeStamp} {call : TimeoutCall} {es : List (Memory × MemoryMove)}

theorem create_channels : (w.create el conn).channels el' a =
    if el' = el ∧ a = conn then some w.clock else w.channels el' a := by
  by_cases hel : el' = el
  · by_cases ha : a = conn
    · simp [create, Channels.addChannel, hel, ha]
    · simp [create, Channels.addChannel, hel, ha]
  · simp [create, hel]

theorem delete_channels (h : w.channels c.el conn = some c.ts) : (w.delete conn c).channels el' a =
    if el' = c.el ∧ a = conn then none else w.channels el' a := by
  by_cases hel : el' = c.el
  · by_cases ha : a = conn
    · simp [delete, Channels.removeChannel_own h, hel, ha]
    · simp [delete, Channels.removeChannel_own h, hel, ha]
  · simp [delete, hel]

theorem named_start (clock : TimeStamp) : Named { clock } where
  listed el a ts := iff_of_false nofun fun ⟨_, found, _⟩ => by cases found
  owned el call queued := by cases queued

theorem Named.registered (h : w.Named) (hc : w.heap conn = some c) :
    w.channels c.el conn = some c.ts :=
  (h.listed c.el conn c.ts).mpr ⟨c, hc, rfl, rfl⟩

theorem Named.create (h : w.Named) (free : w.heap conn = none) (unheard : w.Unheard (.create el conn)) :
    (w.create el conn).Named where
  listed el' a ts := by
    rw [create_channels]
    by_cases ha : a = conn
    · subst ha
      have unlisted : w.channels el' a ≠ some ts := by
        intro listed
        obtain ⟨c, found, _⟩ := (h.listed el' a ts).mp listed
        rw [free] at found
        cases found
      simp only [Memory.create, Function.update_self, and_true, Option.some.injEq, exists_eq_left']
      split_ifs with hel
      · simp [hel]
      · exact iff_of_false unlisted fun same => hel same.1.symm
    · simp only [Memory.create, ha, and_false, if_false, ne_eq, not_false_eq_true, Function.update_of_ne]
      exact h.listed el' a ts
  owned el' call queued c found hel hts := by
    by_cases ha : call.conn = conn
    · rw [ha] at found
      simp only [Memory.create, Function.update_self, Option.some.injEq] at found
      subst found
      change call ∈ w.timers el' at queued
      simp only at hel hts
      rw [← hel] at queued
      exact absurd hts.symm (unheard call queued ha)
    · simp only [Memory.create, ha, ne_eq, not_false_eq_true, Function.update_of_ne] at found
      exact h.owned el' call queued c found hel hts

theorem Named.arm (h : w.Named) (hc : w.heap conn = some c) (timeoutMs : Int) (isRead : Bool) :
    (w.arm conn c timeoutMs isRead).Named where
  listed el' a ts := by
    refine (h.listed el' a ts).trans ?_
    by_cases ha : a = conn
    · subst ha
      simp [Memory.arm, hc]
    · simp [Memory.arm, ha]
  owned el' call queued d found hel hts := by
    obtain ⟨old, hold, same⟩ : ∃ old, w.heap call.conn = some old ∧
        (old.el, old.ts, old.serial) = (d.el, d.ts, d.serial) := by
      by_cases ha : call.conn = conn
      · simp only [Memory.arm, ha, Function.update_self, Option.some.injEq] at found
        subst found
        exact ⟨c, by rw [ha, hc], rfl⟩
      · simp only [Memory.arm, ha, ne_eq, not_false_eq_true, Function.update_of_ne] at found
        exact ⟨d, found, rfl⟩
    simp only [Prod.mk.injEq] at same
    obtain ⟨sameEl, sameTs, sameSerial⟩ := same
    have kept : call ∈ w.timers el' → d.serial = call.owner := by
      intro before
      rw [← sameSerial]
      exact h.owned el' call before old hold (sameEl.trans hel) (sameTs.trans hts)
    by_cases he : el' = c.el
    · simp only [Memory.arm, he, Function.update_self, List.mem_append, List.mem_singleton] at queued
      rcases queued with before | rfl
      · exact kept (by rw [he]; exact before)
      · rw [← sameSerial]
        obtain rfl := Option.some.inj (hc.symm.trans hold)
        rfl
    · simp only [Memory.arm, ne_eq, he, not_false_eq_true, Function.update_of_ne] at queued
      exact kept queued

theorem Named.delete (h : w.Named) (hc : w.heap conn = some c) : (w.delete conn c).Named where
  listed el' a ts := by
    rw [delete_channels (h.registered hc)]
    by_cases ha : a = conn
    · subst ha
      refine iff_of_false ?_ fun ⟨_, found, _⟩ => by simp [Memory.delete] at found
      split_ifs with hel
      · exact nofun
      · intro listed
        obtain ⟨d, hd, same, _⟩ := (h.listed el' a ts).mp listed
        obtain rfl := Option.some.inj (hc.symm.trans hd)
        exact hel ⟨same.symm, rfl⟩
    · simp only [Memory.delete, ha, and_false, if_false, ne_eq, not_false_eq_true, Function.update_of_ne]
      exact h.listed el' a ts
  owned el' call queued d found hel hts := by
    by_cases ha : call.conn = conn
    · simp [Memory.delete, ha] at found
    · simp only [Memory.delete, ha, ne_eq, not_false_eq_true, Function.update_of_ne] at found
      exact h.owned el' call queued d found hel hts

/-- Timers may go at any time. -/
theorem Named.forget (h : w.Named) {timers : LoopId → List TimeoutCall}
    (fewer : ∀ el, timers el ⊆ w.timers el) : ({ w with timers } : Memory).Named where
  listed := h.listed
  owned el' call queued := h.owned el' call (fewer el' queued)

theorem closes_found (hd : w.closes el call = some d) : w.heap call.conn = some d := by
  unfold closes at hd
  split_ifs at hd
  exact (Option.filter_eq_some_iff.mp hd).1

theorem Named.timeoutCallback (h : w.Named) : (w.timeoutCallback el call).Named := by
  unfold Memory.timeoutCallback
  cases hd : w.closes el call with
  | none => exact h
  | some d => exact h.delete (closes_found hd)

theorem named_step (h : w.Named) (unheard : w.Unheard m) (step : memory.step w m w') : w'.Named := by
  obtain ⟨enabled, rfl⟩ := step
  cases m with
  | tick now => exact ⟨h.listed, h.owned⟩
  | create el conn => exact h.create enabled unheard
  | arm conn timeoutMs isRead =>
      obtain ⟨c, hc⟩ := Option.ne_none_iff_exists'.mp enabled
      simp only [next, hc]
      exact h.arm hc timeoutMs isRead
  | delete conn =>
      obtain ⟨c, hc⟩ := Option.ne_none_iff_exists'.mp enabled
      simp only [next, hc]
      exact h.delete hc
  | expire el n =>
      obtain ⟨call, hcall, _⟩ := enabled
      rw [Option.mem_def] at hcall
      simp only [next, hcall]
      refine (h.forget fun el' => ?_).timeoutCallback
      by_cases he : el' = el
      · rw [he, Function.update_self]
        exact List.eraseIdx_subset
      · rw [Function.update_of_ne he]
        exact List.Subset.refl _

/-- A timer that gets past `has_channel` has found a connection of its loop, created in
its millisecond. -/
theorem Named.closesOwn (h : w.Named) : w.ClosesOwn m := by
  cases m with
  | expire el n =>
      intro call hcall c hc
      have queued : call ∈ w.timers el := List.mem_of_getElem? hcall
      have found := closes_found hc
      unfold closes at hc
      split_ifs at hc with listed
      · obtain ⟨d, hd, hel, hts⟩ :=
          (h.listed el call.conn call.connTs).mp (Channels.hasChannel_iff.mp listed)
        obtain rfl := Option.some.inj (found.symm.trans hd)
        exact h.owned el call queued c found hel hts
      · cases hc
  | _ => trivial

/-- No timer acts on a connection it was not armed for, in every run in which no
connection is created at an address and in a millisecond that a queued timer knows. -/
theorem closes_own (run : Run memory es w) (guarded : Guarded Unheard es) : Guarded ClosesOwn es := by
  refine run.forall_steps (I := Named) guarded ?_ named_step fun h _ => h.closesOwn
  rintro _ ⟨clock, rfl⟩
  exact named_start clock

/-- At second zero of the clock. -/
def dawn : Memory := { clock := ⟨0, 0⟩ }

theorem run_memory (ms : List MemoryMove) (enabled : ∀ e ∈ visits next dawn ms, e.1.Enabled e.2) :
    Run memory (visits next dawn ms) (replay next dawn ms) :=
  ⟨dawn, ⟨_, rfl⟩, path_replay (S := memory) (E := Enabled) (fun {_ _} ready => ⟨ready, rfl⟩) enabled⟩

/-- A connection is answered at once and deleted, and another one gets its address after
`pause` milliseconds. It is asked five seconds later. When the write timer of the first
is due, that of the second is not. -/
def succession (pause : Int) : List MemoryMove :=
  [.create (.sub 1) 4096, .arm 4096 10000 true, .arm 4096 10000 false, .delete 4096,
   .tick ⟨0, pause⟩, .create (.sub 1) 4096, .arm 4096 10000 true, .tick ⟨5, 0⟩, .arm 4096 10000 false,
   .tick ⟨10, 5⟩]

theorem succession_closes_own :
    Guarded ClosesOwn (visits next dawn (succession 1 ++ [.expire (.sub 1) 1])) :=
  closes_own (run_memory _ (by decide +kernel)) (by decide +kernel)

/-- Within one millisecond the first connection's write timer closes the second. -/
theorem closes_another : ¬ ∀ es w, Run memory es w → Guarded ClosesOwn es := by
  intro claim
  have own := claim _ _ (run_memory (succession 0 ++ [.expire (.sub 1) 1]) (by decide +kernel)) _ visits_last
  have another : ∃ call ∈ ((replay next dawn (succession 0)).timers (.sub 1))[1]?,
      ∃ c ∈ (replay next dawn (succession 0)).closes (.sub 1) call, c.serial ≠ call.owner := by
    decide +kernel
  obtain ⟨call, queued, c, closed, other⟩ := another
  exact other (own call queued c closed)

end Memory

end SmallRpc
