import SmallRpc.Completions
import SmallRpc.PeerFailures

/-! Who owns a parser context. `parse_request` creates one and the connection points to
it; `write_complete_callback` deletes it, and nothing else does. -/
namespace SmallRpc

/-- The contexts of one connection, numbered as created: how many there were, which were
deleted, and which one the connection points to. -/
structure Ledger where
  created : Nat := 0
  deleted : List Nat := []
  attached : Option Nat := none
  deriving DecidableEq, Repr

namespace Ledger

def create (g : Ledger) : Ledger := { g with created := g.created + 1, attached := some g.created }

/-- Deleting a null pointer does nothing. -/
def delete (g : Ledger) : Ledger :=
  { g with deleted := g.deleted ++ g.attached.toList, attached := none }

def drop (g : Ledger) : Ledger := { g with attached := none }

/-- Created and not deleted are those that are attached, and none is deleted twice. -/
structure Balanced (g : Ledger) : Prop where
  once : g.deleted.Nodup
  live : ∀ k, k < g.created ∧ k ∉ g.deleted ↔ g.attached = some k

/-- What holds with leaks, too. -/
structure Sound (g : Ledger) : Prop where
  once : g.deleted.Nodup
  old : ∀ k ∈ g.deleted, k < g.created
  live : ∀ k, g.attached = some k → k < g.created ∧ k ∉ g.deleted

variable {g : Ledger} {k : Nat}

theorem sound_empty : Sound {} := ⟨.nil, nofun, nofun⟩

theorem Sound.create (h : Sound g) : Sound g.create where
  once := h.once
  old k hk := (h.old k hk).trans (Nat.lt_add_one _)
  live k hk := by
    obtain rfl := Option.some.inj hk
    exact ⟨Nat.lt_add_one _, fun hm => Nat.lt_irrefl _ (h.old _ hm)⟩

theorem Sound.drop (h : Sound g) : Sound g.drop := ⟨h.once, h.old, nofun⟩

theorem Sound.delete (h : Sound g) : Sound g.delete := by
  unfold Ledger.delete
  cases ha : g.attached with
  | none => exact ⟨by simpa using h.once, by simpa using h.old, nofun⟩
  | some n =>
      obtain ⟨lt, fresh⟩ := h.live n ha
      refine ⟨?_, fun k hk => ?_, nofun⟩
      · rw [Option.toList_some, List.nodup_append]
        refine ⟨h.once, List.nodup_singleton n, fun a hm b hb => ?_⟩
        rw [List.mem_singleton.mp hb]
        exact fun same => fresh (same ▸ hm)
      · rcases List.mem_append.mp hk with old | new
        · exact h.old k old
        · rw [List.mem_singleton.mp new]
          exact lt

/-- A ledger is balanced unless a context that is neither deleted nor attached is left. -/
theorem Sound.balanced_iff (h : Sound g) :
    g.Balanced ↔ ∀ k < g.created, k ∉ g.deleted → g.attached = some k := by
  constructor
  · exact fun balanced k lt fresh => (balanced.live k).mp ⟨lt, fresh⟩
  · exact fun all => ⟨h.once, fun k => ⟨fun ⟨lt, fresh⟩ => all k lt fresh, h.live k⟩⟩

theorem balanced_create (h : Sound g) (free : g.attached = none) :
    g.create.Balanced ↔ g.Balanced := by
  rw [h.balanced_iff, h.create.balanced_iff]
  constructor
  · intro all k lt fresh
    have same := all k (lt.trans (Nat.lt_add_one _)) fresh
    exact absurd (Option.some.inj same) lt.ne'
  · intro all k lt fresh
    rcases Nat.lt_succ_iff_lt_or_eq.mp lt with older | rfl
    · have same := all k older fresh
      rw [free] at same
      cases same
    · rfl

theorem balanced_delete (h : Sound g) : g.delete.Balanced ↔ g.Balanced := by
  rw [h.balanced_iff, h.delete.balanced_iff]
  constructor
  · intro all k lt fresh
    by_contra other
    have missing : k ∉ g.deleted ++ g.attached.toList := by
      simpa [fresh] using other
    cases all k lt missing
  · intro all k lt fresh
    rw [delete, List.mem_append, not_or] at fresh
    have same := all k lt fresh.1
    rw [same] at fresh
    exact absurd (List.mem_singleton_self k) fresh.2

theorem balanced_drop (h : Sound g) : g.drop.Balanced ↔ g.Balanced ∧ g.attached = none := by
  rw [h.balanced_iff, h.drop.balanced_iff]
  constructor
  · intro all
    have free : g.attached = none := by
      cases ha : g.attached with
      | none => rfl
      | some n =>
          obtain ⟨lt, fresh⟩ := h.live n ha
          cases all n lt fresh
    refine ⟨fun k lt fresh => ?_, free⟩
    cases all k lt fresh
  · rintro ⟨all, free⟩ k lt fresh
    have same := all k lt fresh
    rw [free] at same
    cases same

end Ledger

namespace PbServer
variable {srv : PbServer} {c d : TCPConnection} {next : DataRead}

/-- `data_read_callback` never takes a context away. -/
theorem dataReadCallback_keeps (h : srv.dataReadCallback c = .ok (next, d)) (hc : c.ctx ≠ none) :
    d.ctx ≠ none := by
  obtain ⟨⟨status, idx, s'⟩, htry, h⟩ := bind_ok.mp h
  obtain ⟨tried, other⟩ := tryProtocols_tried htry
  cases tried with
  | exhausted =>
      cases h
      exact hc
  | answered _ ans =>
      cases ans with
      | success complete =>
          obtain ⟨ctx, _, hs, _⟩ := complete
          cases h
          exact fun none => Option.some_ne_none ctx (hs.symm.trans none)
      | error kept =>
          cases h
          exact kept
      | noEnoughData kept =>
          cases h
          exact kept hc
      | tryAnotherProtocol _ _ => exact absurd rfl other

end PbServer

namespace Lifetime
open Runs

/-- What a move enters in the ledger: a context pointer that is no longer null, a
`delete` of the context, or the deletion of the connection with whatever it points to. -/
def enter (srv : PbServer) (g : Ledger) (l : Lifetime) (m : Move) : Ledger :=
  if ¬ l.Attached ∧ (l.next srv m).Attached then g.create
  else if l.statement m = some .deleteContext then g.delete
  else if l.statement m = some .deleteConn then g.drop
  else g

/-- The ledger of a whole life. -/
def ledger (srv : PbServer) (ls : List (Lifetime × Move)) : Ledger :=
  ls.foldl (fun g e => enter srv g e.1 e.2) {}

/-- The connection is deleted with its context. -/
def Leaks (l : Lifetime) (m : Move) : Prop := l.statement m = some .deleteConn ∧ l.Attached

instance (l : Lifetime) (m : Move) : Decidable (l.Leaks m) := inferInstanceAs (Decidable (_ ∧ _))

variable {srv : PbServer} {l l' : Lifetime} {s : Stmt} {m : Move} {g : Ledger} {fd : Nat}
  {ls : List (Lifetime × Move)} {c : TCPConnection} {events : Events} {io : SocketResults}
  {answer : Answer}

theorem Outcome.attached (outcome : Outcome srv l c events io answer l') (hc : c.ctx ≠ none) :
    l'.Attached := by
  cases outcome with
  | wrote => exact ⟨_, rfl, hc⟩
  | ignored _ => exact ⟨_, rfl, hc⟩
  | completes _ _ _ _ _ => exact ⟨_, rfl, hc⟩
  | waits _ _ _ _ hcall => exact ⟨_, rfl, PbServer.dataReadCallback_keeps hcall hc⟩
  | dispatches _ _ _ _ hcall _ => exact ⟨_, rfl, PbServer.dataReadCallback_keeps hcall hc⟩
  | closes _ closing =>
      cases closing with
      | eof _ => exact ⟨_, rfl, hc⟩
      | unparsed _ _ hcall _ => exact ⟨_, rfl, PbServer.dataReadCallback_keeps hcall hc⟩
      | unserved _ _ hcall _ _ => exact ⟨_, rfl, PbServer.dataReadCallback_keeps hcall hc⟩

/-- A statement other than the two deletions leaves the pointer as it is. -/
theorem exec_attached (run : Executed s l l') (conn : s ≠ .deleteConn) (ctx : s ≠ .deleteContext) :
    l'.Attached ↔ l.Attached := by
  refine ⟨?_, fun h => h.exec run conn ctx⟩
  rintro ⟨c', hc', kept⟩
  obtain ⟨_, c, hc, touched, _⟩ := run.kept c' hc'
  have same := touched.progress
  rw [if_neg ctx] at same
  refine ⟨c, hc, fun none => kept ?_⟩
  rw [none] at same
  exact Option.map_eq_none_iff.mp same

/-- A move that neither deletes keeps a context attached. -/
theorem attached_step (step : Step srv l m l') (h : l.Attached)
    (ctx : l.statement m ≠ some .deleteContext) (conn : l.statement m ≠ some .deleteConn) :
    l'.Attached := by
  cases step_moved step with
  | fault _ => exact h
  | quiet _ => exact h
  | swap _ _ => exact h
  | drain _ _ _ => exact h
  | expire _ _ _ _ _ => exact h
  | stale _ _ => exact h
  | poll _ _ => exact h
  | func _ _ run => exact (exec_attached run (by simp) (by simp)).mpr h
  | event rest _ hc _ _ outcome =>
      obtain ⟨d, hd, kept⟩ := h
      obtain rfl := Option.some.inj (hc.symm.trans hd)
      exact outcome.attached kept
  | @setup s rest _ hs run =>
      have same : l.statement .setup = some s := by rw [statement, hs]; rfl
      rw [same] at ctx conn
      exact (exec_attached run (fun e => conn (e ▸ rfl)) (fun e => ctx (e ▸ rfl))).mpr h
  | @stmt s rest _ hs run =>
      have same : l.statement .stmt = some s := by rw [statement, hs]; rfl
      rw [same] at ctx conn
      exact (exec_attached run (fun e => conn (e ▸ rfl)) (fun e => ctx (e ▸ rfl))).mpr h
  | @respond n pack s rest _ hp hs run =>
      have same : l.statement (.respond n) = some s := by simp [statement, hp, hs]
      rw [same] at ctx conn
      exact (exec_attached run (fun e => conn (e ▸ rfl)) (fun e => ctx (e ▸ rfl))).mpr h

/-- Either deletion leaves no context attached. -/
theorem deletion_step (step : Step srv l m l') (hs : l.statement m = some s)
    (deletes : s = .deleteContext ∨ s = .deleteConn) : ¬ l'.Attached := by
  obtain ⟨_, _, rfl⟩ := step
  obtain ⟨l₀, conn, _, _, same⟩ := @effect_statement srv _ _ _ hs
  unfold next
  rw [same]
  cases hc : l₀.conn with
  | none =>
      have lost : l₀.exec s = .error .danglingPointer := by
        rcases deletes with rfl | rfl
        · simp only [exec, withConn, hc]
        · simp only [exec, withConn, hc]
      rw [lost]
      rintro ⟨c, hc', _⟩
      rw [Option.mem_def, ← conn, hc] at hc'
      cases hc'
  | some c =>
      rcases deletes with rfl | rfl
      · have done : l₀.exec .deleteContext = .ok (l₀.setConn { c with ctx := none }) :=
          withConn_some hc
        rw [done]
        rintro ⟨c', hc', kept⟩
        obtain rfl := Option.some.inj hc'
        exact kept rfl
      · have done : l₀.exec .deleteConn = .ok { l₀ with conn := none, closed := l₀.closed + 1 } :=
          withConn_some hc
        rw [done]
        rintro ⟨c', hc', _⟩
        cases hc'

/-- The ledger is sound and knows whether a context is attached. -/
structure Kept (g : Ledger) (l : Lifetime) : Prop where
  sound : g.Sound
  attached : g.attached ≠ none ↔ l.Attached

theorem kept_step (h : Kept g l) (step : Step srv l m l') :
    Kept (enter srv g l m) l' ∧
      ((enter srv g l m).Balanced ↔ g.Balanced ∧ ¬ l.Leaks m) := by
  obtain rfl := step.2.2
  unfold enter
  split_ifs with creates context conn
  · have free : g.attached = none := by
      by_contra some
      exact creates.1 (h.attached.mp some)
    refine ⟨⟨h.sound.create, iff_of_true (Option.some_ne_none _) creates.2⟩, ?_⟩
    rw [Ledger.balanced_create h.sound free]
    exact (and_iff_left fun leaks => creates.1 leaks.2).symm
  · refine ⟨⟨h.sound.delete, iff_of_false (fun some => some rfl) ?_⟩, ?_⟩
    · exact deletion_step step context (.inl rfl)
    · rw [Ledger.balanced_delete h.sound]
      exact (and_iff_left fun leaks => by simp [Leaks, context] at leaks).symm
  · refine ⟨⟨h.sound.drop, iff_of_false (fun some => some rfl) ?_⟩, ?_⟩
    · exact deletion_step step conn (.inr rfl)
    · rw [Ledger.balanced_drop h.sound, Leaks, and_iff_right conn, ← h.attached, not_not]
  · refine ⟨⟨h.sound, h.attached.trans ⟨fun att => attached_step step att context conn, ?_⟩⟩, ?_⟩
    · exact fun att => by_contra fun without => creates ⟨without, att⟩
    · exact (and_iff_left fun leaks => conn leaks.1).symm

theorem ledger_snoc : ledger srv (ls ++ [(l, m)]) = enter srv (ledger srv ls) l m := by
  rw [ledger, List.foldl_append]
  rfl

theorem ledger_kept (run : Run (lifetime srv fd) ls l) : Kept (ledger srv ls) l ∧
    ((ledger srv ls).Balanced ↔ Guarded (fun l m => ¬ l.Leaks m) ls) := by
  obtain ⟨l₀, rfl, path⟩ := run
  induction path with
  | nil =>
      refine ⟨⟨Ledger.sound_empty, iff_of_false (fun some => some rfl) ?_⟩,
        iff_of_true ⟨.nil, fun k => iff_of_false (fun h => Nat.not_lt_zero k h.1) nofun⟩ guarded_nil⟩
      rintro ⟨c, hc, kept⟩
      obtain rfl := Option.some.inj hc
      exact kept rfl
  | snoc path step ih =>
      obtain ⟨kept, balanced⟩ := kept_step ih.1 step
      rw [ledger_snoc, guarded_snoc, ← ih.2]
      exact ⟨kept, balanced⟩

end Lifetime

namespace TCPServer
open Runs Lifetime

variable {srv : PbServer} {threadNum : Nat} {w : TCPServer} {es : List (TCPServer × Action)}

/-- Of every connection that was ever accepted the contexts are accounted for: those
created and not deleted are those attached to it, while it is there. -/
def ContextsOwned (srv : PbServer) (es : List (TCPServer × Action)) (w : TCPServer) : Prop :=
  ∀ i client, w.clients[i]? = some client →
    (ledger srv (project i es)).Balanced ∧
      ((ledger srv (project i es)).attached ≠ none ↔ client.life.Attached)

/-- Every context has an owner exactly in those runs in which no connection is deleted
with a context. -/
theorem contextsOwned_iff (run : Run (server srv threadNum) es w) :
    ContextsOwned srv es w ↔ Guarded (Each fun l m => ¬ l.Leaks m) es := by
  constructor
  · rintro owned e he i l m hp
    obtain ⟨_, _, path⟩ := id run
    obtain ⟨client, hc⟩ := client_of_part path he hp
    have guarded := (ledger_kept (project_run run hc)).2.mp (owned i client hc).1
    exact guarded (l, m) (List.mem_filterMap.mpr ⟨e, he, hp⟩)
  · intro guarded i client hc
    obtain ⟨kept, balanced⟩ := ledger_kept (project_run run hc)
    refine ⟨balanced.mpr ?_, kept.attached⟩
    rintro ⟨l, m⟩ hm
    obtain ⟨e, he, hp⟩ := List.mem_filterMap.mp hm
    exact guarded e he i l m hp

/-- A request comes, its response is written, and the context goes, and then the connection. -/
def oneAnswer : List Action :=
  List.flatten [.accept (.conn 7) :: List.replicate 6 (.act 0 .setup),
    .act 0 (.event { epollin := true } { read := .data (headOfRequest ++ [1, 2, 3, 4]) }
      { respStr := [104, 105] }) :: List.replicate 6 (.act 0 (.respond 0)),
    [.act 0 .swap, .act 0 .func, .act 0 (.drain [] []), .act 0 .poll,
      .act 0 (.event { epollout := true } { head := .wrote 16, extra := .wrote 2 } {})],
    List.replicate 7 (.act 0 .stmt)]

theorem oneAnswer_contextsOwned_iff :
    ContextsOwned (echo false) (visits (next (echo false) 2) booted oneAnswer)
        (replay (next (echo false) 2) booted oneAnswer) ↔
      Guarded (Each fun l m => ¬ l.Leaks m) (visits (next (echo false) 2) booted oneAnswer) :=
  contextsOwned_iff (run_visits (echo false) oneAnswer (by decide +kernel))

/-- A client sends the magic number and leaves. -/
def hangup : List Action :=
  .accept (.conn 7) :: List.replicate 6 (.act 0 .setup) ++
    [.act 0 (.event { epollin := true } { read := .data [0x19, 0x95, 0x10, 0x28] } {}), .act 0 .swap,
      .act 0 (.drain [] []), .act 0 .poll, .act 0 (.event { epollin := true } { read := .eof } {})] ++
    List.replicate 5 (.act 0 .stmt)

/-- The context of the unfinished request is never deleted. -/
theorem hangup_leaks :
    ¬ ∀ srv threadNum es w, Run (server srv threadNum) es w → ContextsOwned srv es w := by
  intro claim
  have run := run_visits (echo false) hangup (by decide +kernel)
  have guarded := (contextsOwned_iff run).mp (claim _ _ _ _ run)
  revert guarded
  decide +kernel

end TCPServer
end SmallRpc
