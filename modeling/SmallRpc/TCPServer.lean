import SmallRpc.Moves

/-! The server with all its connections and reactors. Each connection lives its own life;
what they share is the descriptor table of the process and the threads: an event loop is
in one callback at a time, and the main reactor accepts only between its callbacks. -/
namespace SmallRpc
open Runs

/-- What a descriptor number in use stands for; connections are numbered as accepted. -/
inductive File where
  | conn (i : Nat)
  | other
  deriving DecidableEq, Repr

inductive LoopId where
  | main
  | sub (i : Nat)
  deriving DecidableEq, Repr

/-- An accepted connection: its loop, its descriptor number, and its life. -/
structure Client where
  loop : LoopId
  fd : Nat
  life : Lifetime
  deriving DecidableEq, Repr

structure TCPServer where
  nextEl : Option Nat
  clients : List Client := []
  files : Nat → Option File
  fault : Option Fault := none

/-- What `::accept` reports: a number that is free, an error that passes, or another. -/
inductive AcceptResult where
  | conn (fd : Nat)
  | again
  | failed
  deriving DecidableEq, Repr

inductive Action where
  | accept (r : AcceptResult)
  | act (i : Nat) (m : Move)
  deriving DecidableEq, Repr

/-- Who makes a move. -/
inductive Thread where
  | acceptor
  | loop
  | service
  deriving DecidableEq, Repr

def Lifetime.thread (l : Lifetime) : Move → Thread
  | .setup => .acceptor
  | .respond n =>
    match l.packs[n]? with
    | none => .loop
    | some pack => if pack.later then .service else .loop
  | _ => .loop

namespace TCPServer

/-- `_get_next_el`: the main reactor without sub-reactors, else the next of them in turn. -/
def getNextEl (threadNum : Nat) : Option Nat → LoopId × Option Nat
  | none => (.main, none)
  | some nextEl => (.sub ((nextEl + 1) % threadNum), some ((nextEl + 1) % threadNum))

/-- No other connection of this loop is in a callback. -/
def LoopFree (w : TCPServer) (loop : LoopId) (i : Nat) : Prop :=
  ∀ j < w.clients.length, j ≠ i → ∀ client ∈ w.clients[j]?, client.loop = loop → client.life.AtRest

/-- The main reactor is neither in a callback of a connection nor setting one up. -/
def MainFree (w : TCPServer) : Prop :=
  ∀ client ∈ w.clients, client.life.setup = [] ∧ (client.loop = .main → client.life.AtRest)

def Running (w : TCPServer) : Prop :=
  w.fault = none ∧ ∀ client ∈ w.clients, client.life.fault = none

def ThreadFree (w : TCPServer) (i : Nat) (client : Client) : Thread → Prop
  | .service => True
  | .loop => w.LoopFree client.loop i ∧
      (client.loop = .main → ∀ client ∈ w.clients, client.life.setup = [])
  | .acceptor => ∀ client ∈ w.clients, client.loop = .main → client.life.AtRest

def Enabled (srv : PbServer) (w : TCPServer) : Action → Prop
  | .accept (.conn fd) => w.Running ∧ w.MainFree ∧ w.files fd = none
  | .accept _ => w.Running ∧ w.MainFree
  | .act i m => w.Running ∧ ∃ client ∈ w.clients[i]?, client.life.Enabled srv m ∧
      w.ThreadFree i client (client.life.thread m)

instance (w : TCPServer) (loop : LoopId) (i : Nat) : Decidable (w.LoopFree loop i) :=
  inferInstanceAs (Decidable (∀ j < w.clients.length, j ≠ i → ∀ client ∈ w.clients[j]?,
    client.loop = loop → client.life.AtRest))

instance (w : TCPServer) : Decidable w.MainFree :=
  inferInstanceAs (Decidable (∀ client ∈ w.clients, _ ∧ _))

instance (w : TCPServer) : Decidable w.Running := inferInstanceAs (Decidable (_ ∧ _))

instance (w : TCPServer) (i : Nat) (client : Client) : ∀ t, Decidable (w.ThreadFree i client t)
  | .service => inferInstanceAs (Decidable True)
  | .loop => inferInstanceAs (Decidable (_ ∧ (_ → ∀ client ∈ w.clients, client.life.setup = [])))
  | .acceptor => inferInstanceAs (Decidable (∀ client ∈ w.clients, _ → _))

instance (srv : PbServer) (w : TCPServer) : ∀ a, Decidable (w.Enabled srv a)
  | .accept (.conn _) => inferInstanceAs (Decidable (_ ∧ _ ∧ _))
  | .accept .again => inferInstanceAs (Decidable (_ ∧ _))
  | .accept .failed => inferInstanceAs (Decidable (_ ∧ _))
  | .act i _ => inferInstanceAs (Decidable (_ ∧ ∃ client ∈ w.clients[i]?, _ ∧ _))

def setFile (files : Nat → Option File) (fd : Nat) (file : Option File) : Nat → Option File :=
  fun n => if n = fd then file else files n

/-- `handler_new_connection` up to the setting up, which the new life begins with. -/
def accept (srv : PbServer) (threadNum : Nat) (w : TCPServer) : AcceptResult → TCPServer
  | .again => w
  | .failed => { w with fault := some .aborted }
  | .conn fd =>
    let (loop, nextEl) := getNextEl threadNum w.nextEl
    { w with
      nextEl
      clients := w.clients ++ [⟨loop, fd, .accepted srv fd⟩]
      files := setFile w.files fd (some (.conn w.clients.length)) }

/-- A move of one connection; every `::close` it makes frees its number. -/
def act (srv : PbServer) (w : TCPServer) (i : Nat) (m : Move) : TCPServer :=
  match w.clients[i]? with
  | none => w
  | some client =>
    let life := client.life.next srv m
    { w with
      clients := w.clients.set i { client with life }
      files := if life.closed = client.life.closed then w.files else setFile w.files client.fd none }

def next (srv : PbServer) (threadNum : Nat) (w : TCPServer) : Action → TCPServer
  | .accept r => w.accept srv threadNum r
  | .act i m => w.act srv i m

/-- A server right after `start`, in a process that has other descriptors open. -/
def Started (threadNum : Nat) (w : TCPServer) : Prop :=
  w.nextEl = (if threadNum = 0 then none else some 0) ∧ w.clients = [] ∧ w.fault = none ∧
    ∀ fd i, w.files fd ≠ some (.conn i)

end TCPServer

def server (srv : PbServer) (threadNum : Nat) : System TCPServer Action where
  start := TCPServer.Started threadNum
  step w a w' := w.Enabled srv a ∧ w' = w.next srv threadNum a

namespace TCPServer
variable {srv : PbServer} {threadNum : Nat} {w w' : TCPServer} {a : Action} {i j : Nat}
  {client : Client} {es : List (TCPServer × Action)}

/-- What connection `i` does in one step of the server. -/
def part (i : Nat) (e : TCPServer × Action) : Option (Lifetime × Move) :=
  match e.2 with
  | .accept _ => none
  | .act j m => if j = i then (e.1.clients[i]?).map fun client => (client.life, m) else none

/-- The run of the server as connection `i` sees it. -/
def project (i : Nat) (es : List (TCPServer × Action)) : List (Lifetime × Move) :=
  es.filterMap (part i)

/-- What a step of the server can do: try to accept, or make one move of one life. -/
inductive Stepped (srv : PbServer) (threadNum : Nat) (w : TCPServer) : Action → TCPServer → Prop
  | refused {r : AcceptResult} {w' : TCPServer} : w'.clients = w.clients → w'.files = w.files →
      Stepped srv threadNum w (.accept r) w'
  | accepted {fd : Nat} {w' : TCPServer} {loop : LoopId} : w.files fd = none →
      w'.clients = w.clients ++ [⟨loop, fd, .accepted srv fd⟩] →
      w'.files = setFile w.files fd (some (.conn w.clients.length)) →
      Stepped srv threadNum w (.accept (.conn fd)) w'
  | acted {i : Nat} {m : Move} {client : Client} {life : Lifetime} {w' : TCPServer} :
      w.clients[i]? = some client → Lifetime.Step srv client.life m life →
      w'.clients = w.clients.set i { client with life } →
      w'.files = (if life.closed = client.life.closed then w.files
        else setFile w.files client.fd none) →
      Stepped srv threadNum w (.act i m) w'

theorem server_step (h : (server srv threadNum).step w a w') : Stepped srv threadNum w a w' := by
  obtain ⟨enabled, rfl⟩ := h
  cases a with
  | accept r =>
      cases r with
      | again => exact .refused rfl rfl
      | failed => exact .refused rfl rfl
      | conn fd => exact .accepted enabled.2.2 rfl rfl
  | act i m =>
      obtain ⟨running, client, hc, ready, _⟩ := enabled
      rw [Option.mem_def] at hc
      have run : Lifetime.Step srv client.life m (client.life.next srv m) :=
        ⟨running.2 client (List.mem_of_getElem? hc), ready, rfl⟩
      refine .acted hc run ?_ ?_
      · simp only [next, act, hc]
      · simp only [next, act, hc]

theorem Stepped.length_le (h : Stepped srv threadNum w a w') :
    w.clients.length ≤ w'.clients.length := by
  cases h with
  | refused clients _ => rw [clients]
  | accepted _ clients _ =>
      rw [clients, List.length_append]
      exact Nat.le_add_right _ _
  | acted _ _ clients _ => rw [clients, List.length_set]

/-- Before it is accepted a connection does nothing. -/
theorem project_eq_nil {w₀ : TCPServer} (path : Path (server srv threadNum) w₀ es w)
    (h : w.clients.length ≤ i) : project i es = [] := by
  induction path with
  | nil => rfl
  | @snoc es t a u path step ih =>
      have absent : t.clients.length ≤ i := (server_step step).length_le.trans h
      simp only [project, List.filterMap_append, List.filterMap_cons, List.filterMap_nil] at ih ⊢
      rw [ih absent, List.nil_append]
      cases a with
      | accept r => rfl
      | act j m =>
          have none_here : part i (t, .act j m) = none := by
            rw [part, List.getElem?_eq_none absent]
            exact ite_self _
          rw [none_here]

/-- Every connection of a run of the server lives a life of its own. -/
theorem project_run (run : Run (server srv threadNum) es w) (hc : w.clients[i]? = some client) :
    Run (lifetime srv client.fd) (project i es) client.life := by
  obtain ⟨w₀, start, path⟩ := run
  induction path generalizing client with
  | nil =>
      rw [start.2.1] at hc
      cases hc
  | @snoc es t a u path step ih =>
      have split : project i (es ++ [(t, a)]) = project i es ++ (part i (t, a)).toList := by
        simp only [project, List.filterMap_append]
        cases hp : part i (t, a) <;> simp [hp]
      rw [split]
      cases server_step step with
      | refused clients _ =>
          rw [clients] at hc
          simpa only [part, Option.toList_none, List.append_nil] using ih hc
      | @accepted fd _ loop _ clients _ =>
          rw [clients] at hc
          simp only [part, Option.toList_none, List.append_nil]
          by_cases hi : i < t.clients.length
          · rw [List.getElem?_append_left hi] at hc
            exact ih hc
          · obtain ⟨_, rfl⟩ : i - t.clients.length = 0 ∧ _ = client := by
              rw [List.getElem?_append_right (by omega), List.getElem?_singleton] at hc
              split_ifs at hc with h0
              exact ⟨h0, Option.some.inj hc⟩
            rw [project_eq_nil path (by omega)]
            exact ⟨_, rfl, .nil⟩
      | @acted j m d life _ hd moved clients _ =>
          rw [clients] at hc
          by_cases hj : j = i
          · subst hj
            rw [List.getElem?_set_self (List.getElem?_eq_some_iff.mp hd).1] at hc
            obtain rfl := Option.some.inj hc
            simp only [part, if_true, hd, Option.map_some, Option.toList_some]
            exact (ih hd).snoc moved
          · rw [List.getElem?_set_ne hj] at hc
            simpa only [part, if_neg hj, Option.toList_none, List.append_nil] using ih hc

/-- A service `a` with one method `b`, for requests in the binary protocol. -/
def echo (async : Bool) : PbServer :=
  { protocols := [.simple], services := [([97], [[98]])], parses := fun _ => true, async }

/-- Two sub-reactors, and the first five numbers taken. -/
def booted : TCPServer :=
  { nextEl := some 0, files := fun fd => if fd < 5 then some .other else none }

theorem booted_started : Started 2 booted := by
  refine ⟨rfl, rfl, rfl, fun fd i h => ?_⟩
  simp only [booted] at h
  split_ifs at h
  cases h

/-- A list of actions that are all enabled in turn is a run. -/
theorem run_visits (srv : PbServer) (as : List Action)
    (enabled : ∀ e ∈ visits (next srv 2) booted as, e.1.Enabled srv e.2) :
    Run (server srv 2) (visits (next srv 2) booted as) (replay (next srv 2) booted as) :=
  ⟨_, booted_started, path_replay (S := server srv 2) (E := fun w a => w.Enabled srv a)
    (fun {_ _} h => ⟨h, rfl⟩) enabled⟩

/-- A property of what each of the connections does. -/
def Each (G : Lifetime → Move → Prop) (w : TCPServer) (a : Action) : Prop :=
  ∀ i l m, part i (w, a) = some (l, m) → G l m

theorem each_accept {G : Lifetime → Move → Prop} {r : AcceptResult} : Each G w (.accept r) := by
  intro i l m hp
  simp only [part, reduceCtorEq] at hp

theorem each_act {G : Lifetime → Move → Prop} {m : Move} :
    Each G w (.act j m) ↔ ∀ client ∈ w.clients[j]?, G client.life m := by
  constructor
  · intro all client hc
    refine all j client.life m ?_
    simp only [part, if_true, Option.mem_def.mp hc, Option.map_some]
  · intro all i l m' hp
    simp only [part] at hp
    split_ifs at hp with hj
    obtain ⟨client, hc, same⟩ := Option.map_eq_some_iff.mp hp
    cases same
    exact all client (hj ▸ hc)

instance {G : Lifetime → Move → Prop} [∀ l m, Decidable (G l m)] (w : TCPServer) :
    ∀ a, Decidable (Each G w a)
  | .accept _ => .isTrue each_accept
  | .act j m => decidable_of_iff (∀ client ∈ w.clients[j]?, G client.life m) each_act.symm

/-- Whoever has made a move is still known, deleted or not. -/
theorem client_of_part {w₀ : TCPServer} (path : Path (server srv threadNum) w₀ es w)
    {e : TCPServer × Action} (he : e ∈ es) {x : Lifetime × Move} (hp : part i e = some x) :
    ∃ client, w.clients[i]? = some client := by
  by_cases hi : w.clients.length ≤ i
  · have never := project_eq_nil path hi
    rw [project, List.filterMap_eq_nil_iff] at never
    rw [never e he] at hp
    cases hp
  · exact ⟨_, List.getElem?_eq_getElem (by omega)⟩

/-- What holds of guarded lives holds of every connection of a guarded run. -/
theorem each_run {G P : Lifetime → Move → Prop} (run : Run (server srv threadNum) es w)
    (lives : ∀ {fd ls l}, Run (lifetime srv fd) ls l → Guarded G ls → Guarded P ls)
    (guarded : Guarded (Each G) es) : Guarded (Each P) es := by
  rintro e he i l m hp
  obtain ⟨w₀, start, path⟩ := id run
  obtain ⟨client, hc⟩ := client_of_part path he hp
  refine lives (project_run run hc) ?_ (l, m) (List.mem_filterMap.mpr ⟨e, he, hp⟩)
  rintro ⟨l', m'⟩ hm
  obtain ⟨e', he', hp'⟩ := List.mem_filterMap.mp hm
  exact guarded e' he' i l' m' hp'

end TCPServer
end SmallRpc
