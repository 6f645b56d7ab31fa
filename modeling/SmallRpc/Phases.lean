import SmallRpc.Synchronous

/-! The phases of a server's connections, and the registrations that the kernel keeps for
them. `update_channel` goes by what the connection says is registered; with handlers that
nothing comes between, that is what the kernel has under its descriptor number. -/
namespace SmallRpc
open Runs

/-- The operations of `::epoll_ctl`. -/
inductive EpollOp where
  | add
  | mod
  | del
  deriving DecidableEq, Repr

/-- What an operation makes of the registration of a file; `none` where the kernel
refuses it: what is registered cannot be added, what is not can neither be modified nor
deleted. -/
def EpollOp.perform (event registered : Interest) : EpollOp → Option Interest
  | .add => if registered = .none then some event else none
  | .mod => if registered = .none then none else some event
  | .del => if registered = .none then none else some .none

namespace TCPConnection

/-- The operation that `update_channel` chooses. -/
def epollOp (conn : TCPConnection) : Option EpollOp :=
  if conn.sevent ≠ conn.event then
    if conn.sevent = .none then
      if conn.event ≠ .none then some .add else none
    else if conn.event = .none then some .del
    else some .mod
  else none

/-- What it makes of the registration. -/
def epollCtl (conn : TCPConnection) (registered : Interest) : Interest :=
  match conn.epollOp with
  | none => registered
  | some op => (op.perform conn.event registered).getD registered

end TCPConnection

namespace Lifetime

instance (l : Lifetime) : Decidable l.Polling := inferInstanceAs (Decidable (_ ∧ _ ∧ _))

/-- A callback of the connection is under way, or its setting up. -/
def Busy (l : Lifetime) : Prop := l.setup ≠ [] ∨ ¬ l.AtRest

instance (l : Lifetime) : Decidable l.Busy := inferInstanceAs (Decidable (_ ∨ _))

end Lifetime

namespace TCPServer
open Lifetime

/-- Callbacks and the setting up of a connection are not interrupted. -/
def Atomic (w : TCPServer) : Action → Prop
  | .accept _ => ∀ client ∈ w.clients, ¬ client.life.Busy
  | .act i m => (∀ j < w.clients.length, j ≠ i → ∀ other ∈ w.clients[j]?, ¬ other.life.Busy) ∧
      ∀ client ∈ w.clients[i]?, client.life.setup ≠ [] → m = .setup

instance (w : TCPServer) : ∀ a, Decidable (w.Atomic a)
  | .accept _ => inferInstanceAs (Decidable (∀ client ∈ w.clients, ¬ client.life.Busy))
  | .act i m => inferInstanceAs (Decidable ((∀ j < w.clients.length, j ≠ i →
      ∀ other ∈ w.clients[j]?, ¬ other.life.Busy) ∧
      ∀ client ∈ w.clients[i]?, client.life.setup ≠ [] → m = .setup))

/-- The kernel's registrations after a step: a new file has none, nor has a closed one. -/
def track (kernel : Nat → Interest) : TCPServer × Action → Nat → Interest
  | (_, .accept (.conn fd)) => Function.update kernel fd .none
  | (_, .accept _) => kernel
  | (w, .act i m) =>
    match w.clients[i]? with
    | none => kernel
    | some client =>
      if client.life.Frees m then Function.update kernel client.fd .none
      else if client.life.statement m = some .updateChannel then
        match client.life.conn with
        | none => kernel
        | some conn => Function.update kernel client.fd (conn.epollCtl (kernel client.fd))
      else kernel

/-- The registrations that a run leaves. -/
def registrations (es : List (TCPServer × Action)) : Nat → Interest :=
  es.foldl track fun _ => .none

/-- The operation the move leads to is on the connection's own descriptor, and the kernel
does not refuse it. -/
def Legal (w : TCPServer) (kernel : Nat → Interest) (i : Nat) (m : Move) : Prop :=
  ∀ client ∈ w.clients[i]?, client.life.statement m = some .updateChannel →
    ∀ conn ∈ client.life.conn, ∀ op ∈ conn.epollOp,
      w.files client.fd = some (.conn i) ∧ op.perform conn.event (kernel client.fd) ≠ none

/-- As long as a connection has its descriptor the number is its own, and the kernel has
registered what the connection says. -/
structure Registered (srv : PbServer) (w : TCPServer) (kernel : Nat → Interest) : Prop where
  lives : ∀ client ∈ w.clients, Closable client.life ∧ Sound srv client.life
  setup : ∀ client ∈ w.clients, client.life.setup ≠ [] → client.life.closed = 0
  own : ∀ (i : Nat) (client : Client), w.clients[i]? = some client → client.life.closed = 0 →
    w.files client.fd = some (.conn i) ∧ ∀ c, client.life.conn = some c → kernel client.fd = c.sevent
  shut : ∀ (i : Nat) (client : Client), w.clients[i]? = some client → client.life.closed = 1 →
    w.files client.fd = none

variable {srv : PbServer} {threadNum : Nat} {w w' : TCPServer} {a : Action} {kernel : Nat → Interest}
  {l l' : Lifetime} {c c' : TCPConnection} {s : Stmt} {m : Move} {i j fd : Nat} {client other : Client}
  {es : List (TCPServer × Action)} {ls : List (Lifetime × Move)}

/-- On the registration that the connection knows of, no operation is refused. -/
theorem perform_own {op : EpollOp} (h : c.epollOp = some op) : op.perform c.event c.sevent ≠ none := by
  unfold TCPConnection.epollOp at h
  split_ifs at h with _ none _ gone
  · obtain rfl := Option.some.inj h
    simp [EpollOp.perform, none]
  · obtain rfl := Option.some.inj h
    simp [EpollOp.perform, none]
  · obtain rfl := Option.some.inj h
    simp [EpollOp.perform, none]

/-- `update_channel` brings the kernel where it leaves the connection. -/
theorem epollCtl_own : c.epollCtl c.sevent = c.updateChannel.sevent := by
  unfold TCPConnection.epollCtl TCPConnection.epollOp
  split_ifs with changed none some gone
  · simp [EpollOp.perform, none, TCPConnection.updateChannel]
  · simp only [ne_eq, not_not] at some
    simp [none, some, TCPConnection.updateChannel]
  · simp [EpollOp.perform, none, gone, TCPConnection.updateChannel]
  · simp [EpollOp.perform, none, TCPConnection.updateChannel]
  · simp only [ne_eq, not_not] at changed
    exact changed

theorem closed_cases (h : Closable l) : l.closed = 0 ∨ (l.closed = 1 ∧ l.agenda ≠ []) ∨
    (l.closed = 2 ∧ l.conn = none ∧ l.agenda = []) := by
  cases h.state with
  | opened _ h0 _ => exact .inl h0
  | shut _ h1 busy =>
      refine .inr (.inl ⟨h1, ?_⟩)
      rcases busy with busy | busy <;> simp [busy]
  | gone none h2 idle => exact .inr (.inr ⟨h2, none, idle⟩)

theorem busy_of_closed (h : Closable l) (closed : l.closed = 1) : l.Busy := by
  rcases closed_cases h with h0 | ⟨_, busy⟩ | ⟨h2, _⟩
  · omega
  · exact .inr fun rest => busy rest.1
  · omega

/-- The setting up only gets shorter. -/
theorem setup_shrinks (step : Step srv l m l') (left : l'.setup ≠ []) : l.setup ≠ [] := by
  cases step_moved step with
  | setup hs _ => simp [hs]
  | stmt _ run =>
      rw [run.setup] at left
      exact left
  | respond _ _ run =>
      rw [run.setup] at left
      exact left
  | func _ _ run =>
      rw [run.setup] at left
      exact left
  | event _ _ _ _ _ outcome => cases outcome <;> exact left
  | _ => exact left

/-- Whoever updates a channel that is still there has not closed it. -/
theorem open_of_update (closable : Closable l) (sync : Synchronous l)
    (setup : l.setup ≠ [] → l.closed = 0) (enabled : l.Enabled srv m)
    (hs : l.statement m = some .updateChannel) (hc : l.conn = some c) : l.closed = 0 := by
  rcases closed_cases closable with h0 | ⟨h1, busy⟩ | ⟨_, none, _⟩
  · exact h0
  · cases m with
    | setup => exact setup enabled
    | stmt =>
        cases closable.state with
        | opened _ h0 _ => exact h0
        | shut _ _ left =>
            rcases left with left | left <;> simp [statement, left] at hs
        | gone none _ _ =>
            rw [none] at hc
            cases hc
    | respond n =>
        obtain ⟨pack, hp, todo⟩ := enabled
        exact absurd (sync.running pack (List.mem_of_getElem? hp) todo).2.1 busy
    | func => exact absurd enabled.1.1 busy
    | _ => cases hs
  · rw [none] at hc
    cases hc

theorem Registered.legal (h : Registered srv w kernel) (enabled : w.Enabled srv (.act i m)) :
    w.Legal kernel i m := by
  intro client hc hs c conn op hop
  obtain ⟨_, other, ho, ready, _⟩ := enabled
  obtain rfl := Option.some.inj (hc.symm.trans ho)
  have hm := List.mem_of_getElem? hc
  obtain ⟨closable, sound⟩ := h.lives client hm
  have open_ := open_of_update closable sound.sync (h.setup client hm) ready hs conn
  obtain ⟨mine, known⟩ := h.own i client hc open_
  refine ⟨mine, ?_⟩
  rw [known c conn]
  exact perform_own hop

theorem registered_start (h : Started threadNum w) : Registered srv w fun _ => .none := by
  obtain ⟨_, none, _, _⟩ := h
  exact ⟨by simp [none], by simp [none], by simp [none], by simp [none]⟩

/-- A descriptor just accepted is nobody else's. -/
theorem registered_accept (h : Registered srv w kernel) (free : w.files fd = none)
    (guard : ∀ client ∈ w.clients, ¬ client.life.Busy) {loop : LoopId}
    (clients : w'.clients = w.clients ++ [⟨loop, fd, .accepted srv fd⟩])
    (files : w'.files = setFile w.files fd (some (.conn w.clients.length))) :
    Registered srv w' (Function.update kernel fd .none) := by
  have split : ∀ i client, w'.clients[i]? = some client →
      w.clients[i]? = some client ∨ (i = w.clients.length ∧ client = ⟨loop, fd, .accepted srv fd⟩) := by
    intro i client hc
    rw [clients] at hc
    by_cases hi : i < w.clients.length
    · rw [List.getElem?_append_left hi] at hc
      exact .inl hc
    · rw [List.getElem?_append_right (by omega), List.getElem?_singleton] at hc
      split_ifs at hc with hlen
      exact .inr ⟨by omega, (Option.some.inj hc).symm⟩
  refine ⟨fun client hm => ?_, fun client hm left => ?_, fun i client hc h0 => ?_,
    fun i client hc h1 => ?_⟩
  · obtain ⟨i, hc⟩ := List.getElem?_of_mem hm
    rcases split i client hc with old | ⟨_, rfl⟩
    · exact h.lives client (List.mem_of_getElem? old)
    · exact ⟨closable_start, sound_start⟩
  · obtain ⟨i, hc⟩ := List.getElem?_of_mem hm
    rcases split i client hc with old | ⟨_, rfl⟩
    · exact h.setup client (List.mem_of_getElem? old) left
    · rfl
  · rcases split i client hc with old | ⟨rfl, rfl⟩
    · obtain ⟨mine, known⟩ := h.own i client old h0
      have other : client.fd ≠ fd := fun same => by
        rw [same, free] at mine
        cases mine
      rw [files, setFile_other other, Function.update_of_ne other]
      exact ⟨mine, known⟩
    · rw [files, setFile_self, Function.update_self]
      refine ⟨rfl, fun c conn => ?_⟩
      obtain rfl := Option.some.inj conn
      rfl
  · rcases split i client hc with old | ⟨_, rfl⟩
    · have hm := List.mem_of_getElem? old
      exact absurd (busy_of_closed (h.lives client hm).1 h1) (guard client hm)
    · cases h1

theorem track_other (h : w.clients[i]? = some client) (hfd : fd ≠ client.fd) :
    track kernel (w, .act i m) fd = kernel fd := by
  simp only [track, h]
  split_ifs
  · exact Function.update_of_ne hfd ..
  · cases client.life.conn with
    | none => rfl
    | some conn => exact Function.update_of_ne hfd ..
  · rfl

/-- A move that neither closes nor updates leaves the registrations as they are. -/
theorem track_same (h : w.clients[i]? = some client) (keeps : ¬ client.life.Frees m)
    (quiet : client.life.conn = none ∨ client.life.statement m ≠ some .updateChannel) :
    track kernel (w, .act i m) = kernel := by
  simp only [track, h, if_neg keeps]
  split_ifs with hs
  · rw [quiet.resolve_right (not_not.mpr hs)]
  · rfl

/-- The kernel follows the connection whose move it is. -/
theorem track_own (hc : w.clients[i]? = some client) (ready : client.life.Enabled srv m)
    (keeps : ¬ client.life.Frees m) (known : ∀ c, client.life.conn = some c → kernel client.fd = c.sevent)
    (conn : client.life.conn = some c) (conn' : (client.life.next srv m).conn = some c') :
    track kernel (w, .act i m) client.fd = c'.sevent := by
  by_cases hs : client.life.statement m = some .updateChannel
  · obtain ⟨l₀, there, _, _, same⟩ := @effect_statement srv _ _ _ hs
    have done : l₀.exec .updateChannel = .ok (l₀.setConn c.updateChannel) :=
      withConn_some (there.trans conn)
    simp only [Lifetime.next, same, done] at conn'
    obtain rfl := Option.some.inj conn'
    simp only [track, hc, if_neg keeps, hs, if_true, conn]
    rw [Function.update_self, known c conn]
    exact epollCtl_own
  · have unchanged : c'.sevent = c.sevent := by
      by_contra changed
      exact hs (registers ready conn conn' changed).1
    rw [track_same hc keeps (.inr hs), unchanged]
    exact known c conn

theorem registered_acted (sync : srv.async = false) (h : Registered srv w kernel)
    (hc : w.clients[i]? = some client) (ready : client.life.Enabled srv m)
    (guard : w.Atomic (.act i m)) (moved : Step srv client.life m (client.life.next srv m))
    (clients : w'.clients = w.clients.set i { client with life := client.life.next srv m })
    (files : w'.files = if (client.life.next srv m).closed = client.life.closed then w.files
      else setFile w.files client.fd none) :
    Registered srv w' (track kernel (w, .act i m)) := by
  have hm := List.mem_of_getElem? hc
  have hi : i < w.clients.length := (List.getElem?_eq_some_iff.mp hc).1
  obtain ⟨closable, sound⟩ := h.lives client hm
  have after := closed_step closable moved
  have freed := frees_iff ready
  -- nobody else is between the two closes
  have others : ∀ j other, i ≠ j → w.clients[j]? = some other → other.life.closed ≠ 1 := by
    intro j other hj ho h1
    have hlt := (List.getElem?_eq_some_iff.mp ho).1
    exact guard.1 j hlt hj.symm other ho (busy_of_closed (h.lives other (List.mem_of_getElem? ho)).1 h1)
  have split : ∀ j other, w'.clients[j]? = some other →
      (j = i ∧ other = { client with life := client.life.next srv m }) ∨
        (i ≠ j ∧ w.clients[j]? = some other) := by
    intro j other ho
    rw [clients] at ho
    by_cases hj : i = j
    · subst hj
      rw [List.getElem?_set_self hi] at ho
      exact .inl ⟨rfl, (Option.some.inj ho).symm⟩
    · rw [List.getElem?_set_ne hj] at ho
      exact .inr ⟨hj, ho⟩
  have lives : Closable (client.life.next srv m) ∧ Sound srv (client.life.next srv m) :=
    ⟨after.closable, sound_step sync sound moved⟩
  have setup : (client.life.next srv m).setup ≠ [] → (client.life.next srv m).closed = 0 := by
    intro left
    have before := setup_shrinks moved left
    obtain rfl := guard.2 client hc before
    have keeps : ¬ client.life.Frees .setup := by
      rintro ⟨⟨s, hs, closes⟩, _⟩
      exact closes (closable.setup s (List.mem_of_head? hs))
    rw [not_not.mp (mt freed.mp keeps)]
    exact h.setup client hm before
  refine ⟨fun other ho => ?_, fun other ho left => ?_, fun j other ho h0 => ?_, fun j other ho h1 => ?_⟩
  · obtain ⟨j, ho⟩ := List.getElem?_of_mem ho
    rcases split j other ho with ⟨_, rfl⟩ | ⟨_, old⟩
    · exact lives
    · exact h.lives other (List.mem_of_getElem? old)
  · obtain ⟨j, ho⟩ := List.getElem?_of_mem ho
    rcases split j other ho with ⟨_, rfl⟩ | ⟨_, old⟩
    · exact setup left
    · exact h.setup other (List.mem_of_getElem? old) left
  · rcases split j other ho with ⟨rfl, rfl⟩ | ⟨hj, old⟩
    · have mono := after.mono
      change (client.life.next srv m).closed = 0 at h0
      have same : (client.life.next srv m).closed = client.life.closed := by omega
      obtain ⟨mine, known⟩ := h.own j client hc (by omega)
      rw [files, if_pos same]
      refine ⟨mine, fun c' conn' => ?_⟩
      cases conn : client.life.conn with
      | none =>
          rcases closed_cases closable with _ | ⟨h1, _⟩ | ⟨h2, _⟩
          · cases closable.state with
            | opened there _ _ =>
                rw [conn] at there
                cases there
            | shut there _ _ =>
                rw [conn] at there
                cases there
            | gone _ h2 _ => omega
          · omega
          · omega
      | some c =>
          have keeps : ¬ client.life.Frees m := fun frees => freed.mpr frees same
          have followed := track_own hc ready keeps known conn conn'
          exact followed
    · obtain ⟨mine, known⟩ := h.own j other old h0
      by_cases shared : other.fd = client.fd
      · -- the number has passed on, so the client that moves is gone
        have gone : client.life.conn = none := by
          rcases closed_cases closable with opened | ⟨h1, _⟩ | ⟨_, none, _⟩
          · have theirs := (h.own i client hc opened).1
            rw [← shared, mine] at theirs
            exact absurd (File.conn.inj (Option.some.inj theirs)).symm hj
          · have free := h.shut i client hc h1
            rw [← shared, mine] at free
            cases free
          · exact none
        have keeps : ¬ client.life.Frees m := fun frees => frees.2 gone
        rw [files, if_pos (not_not.mp (mt freed.mp keeps)), track_same hc keeps (.inl gone)]
        exact ⟨mine, known⟩
      · rw [track_other hc shared, files]
        refine ⟨?_, known⟩
        split_ifs
        · exact mine
        · rw [setFile_other shared]
          exact mine
  · rcases split j other ho with ⟨rfl, rfl⟩ | ⟨hj, old⟩
    · change (client.life.next srv m).closed = 1 at h1
      rw [files]
      split_ifs with same
      · exact h.shut j client hc (by omega)
      · exact setFile_self
    · exact absurd h1 (others j other hj old)

theorem registered_step (sync : srv.async = false) (h : Registered srv w kernel)
    (guard : w.Atomic a) (step : (server srv threadNum).step w a w') :
    Registered srv w' (track kernel (w, a)) := by
  obtain ⟨enabled, rfl⟩ := step
  cases a with
  | accept r =>
      cases r with
      | conn fd => exact registered_accept h enabled.2.2 guard rfl rfl
      | again => exact h
      | failed => exact ⟨h.lives, h.setup, h.own, h.shut⟩
  | act i m =>
      obtain ⟨running, client, hc, ready, _⟩ := enabled
      rw [Option.mem_def] at hc
      have moved : Step srv client.life m (client.life.next srv m) :=
        ⟨running.2 client (List.mem_of_getElem? hc), ready, rfl⟩
      refine registered_acted sync h hc ready guard moved ?_ ?_
      · simp only [TCPServer.next, act, hc]
      · simp only [TCPServer.next, act, hc]

theorem registered_run (sync : srv.async = false) (run : Run (server srv threadNum) es w)
    (atomic : Guarded Atomic es) : Registered srv w (registrations es) := by
  obtain ⟨w₀, start, path⟩ := run
  induction path with
  | nil => exact registered_start start
  | @snoc es t a u path step ih =>
      obtain ⟨before, here⟩ := guarded_snoc.mp atomic
      rw [registrations, List.foldl_append]
      exact registered_step sync (ih before) here step

/-- With services that answer inside `CallMethod`, no null pointer is followed; every
connection that its loop comes to wait for is reading or writing; and as long as handlers
are not interrupted, every operation on its registration is one that the kernel takes. -/
theorem phases (sync : srv.async = false) (run : Run (server srv threadNum) es w) :
    (∀ client ∈ w.clients, client.life.fault ≠ some .nullPointer ∧
      (client.life.Polling → ∀ c ∈ client.life.conn, Reading c ∨ Lifetime.Writing srv c)) ∧
    (Guarded Atomic es → ∀ i m, w.Enabled srv (.act i m) → w.Legal (registrations es) i m) := by
  refine ⟨fun client hm => ?_, fun atomic i m => (registered_run sync run atomic).legal⟩
  obtain ⟨i, hc⟩ := List.getElem?_of_mem hm
  have sound : Sound srv client.life := by
    apply (project_run run hc).invariant guarded_true
    · rintro _ rfl
      exact sound_start
    · exact fun h _ step => sound_step sync h step
  exact ⟨sound.fault, fun polling c conn => (sound.steady c conn).phase sound.sync polling⟩

/-- A request is answered inside its handler, and the loop goes on to wait. -/
def answeredInside : List Action :=
  .accept (.conn 7) :: List.replicate 6 (.act 0 .setup) ++
    .act 0 (.event { epollin := true } { read := .data (headOfRequest ++ [1, 2, 3, 4]) }
      { respStr := [104, 105] }) :: List.replicate 6 (.act 0 (.respond 0)) ++
    [.act 0 .swap, .act 0 .func, .act 0 (.drain [] []), .act 0 .poll]

theorem answeredInside_phases :
    (∀ client ∈ (replay (next (echo false) 2) booted answeredInside).clients,
      client.life.fault ≠ some .nullPointer ∧
      (client.life.Polling → ∀ c ∈ client.life.conn, Reading c ∨ Lifetime.Writing (echo false) c)) ∧
    ∀ i m, (replay (next (echo false) 2) booted answeredInside).Enabled (echo false) (.act i m) →
      (replay (next (echo false) 2) booted answeredInside).Legal
        (registrations (visits (next (echo false) 2) booted answeredInside)) i m := by
  have run := run_visits (echo false) answeredInside (by decide +kernel)
  obtain ⟨ready, legal⟩ := phases rfl run
  exact ⟨ready, legal (by decide +kernel)⟩

/-- It waits for the socket to take the response. -/
example : ∀ client ∈ (replay (next (echo false) 2) booted answeredInside).clients,
    client.life.Polling ∧ ∃ c ∈ client.life.conn, c.event = .epollout ∧ c.sevent = .epollout := by
  decide +kernel

end TCPServer
end SmallRpc
