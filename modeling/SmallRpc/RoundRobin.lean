import Mathlib
import SmallRpc.TCPServer

/-! How the main reactor deals the connections out: each goes to the sub-reactor after the
one that the last went to, and stays there. -/
namespace SmallRpc.TCPServer
open Runs

variable {srv : PbServer} {threadNum : Nat} {w w' : TCPServer} {a : Action}
  {es : List (TCPServer × Action)} {i : Nat}

/-- The loop of the `k`-th connection. -/
def dealt (threadNum k : Nat) : LoopId := if threadNum = 0 then .main else .sub ((k + 1) % threadNum)

structure Dealt (threadNum : Nat) (w : TCPServer) : Prop where
  nextEl : w.nextEl = if threadNum = 0 then none else some (w.clients.length % threadNum)
  loops : w.clients.map Client.loop = (List.range w.clients.length).map (dealt threadNum)

theorem getNextEl_dealt (k : Nat) :
    getNextEl threadNum (if threadNum = 0 then none else some (k % threadNum)) =
      (dealt threadNum k, if threadNum = 0 then none else some ((k + 1) % threadNum)) := by
  unfold dealt
  split_ifs with none
  · rfl
  · rw [getNextEl, Nat.mod_add_mod]

theorem Dealt.start (h : Started threadNum w) : Dealt threadNum w := by
  obtain ⟨nextEl, clients, _⟩ := h
  constructor
  · rw [nextEl, clients, List.length_nil, Nat.zero_mod]
  · rw [clients]
    rfl

theorem Dealt.step (h : Dealt threadNum w) (step : (server srv threadNum).step w a w') :
    Dealt threadNum w' := by
  obtain ⟨_, rfl⟩ := step
  cases a with
  | accept r =>
      cases r with
      | again => exact h
      | failed => exact ⟨h.nextEl, h.loops⟩
      | conn fd =>
          simp only [next, accept, h.nextEl, getNextEl_dealt]
          constructor
          · rw [List.length_append, List.length_singleton]
          · rw [List.map_append, List.length_append, List.length_singleton, List.range_succ,
              List.map_append, h.loops]
            rfl
  | act i m =>
      simp only [next, act]
      cases hc : w.clients[i]? with
      | none => exact h
      | some client =>
          obtain ⟨lt, rfl⟩ := List.getElem?_eq_some_iff.mp hc
          have same : (w.clients.set i { w.clients[i] with life := w.clients[i].life.next srv m }).map
              Client.loop = w.clients.map Client.loop := by
            apply List.ext_getElem?
            intro k
            by_cases hk : i = k
            · subst hk
              simp [lt]
            · simp [List.getElem?_set_ne hk]
          constructor
          · rw [List.length_set, h.nextEl]
          · rw [List.length_set, same, h.loops]

theorem dealt_run (run : Run (server srv threadNum) es w) : Dealt threadNum w :=
  run.invariant guarded_true Dealt.start fun before _ step => before.step step

/-- The turns of a sub-reactor are those that leave the remainder it starts with. -/
theorem dealt_sub_iff (h : i < threadNum) (k : Nat) :
    dealt threadNum k = .sub i ↔ k ≡ i + (threadNum - 1) [MOD threadNum] := by
  have some : threadNum ≠ 0 := by omega
  have due : (i + (threadNum - 1) + 1) % threadNum = i := by
    rw [show i + (threadNum - 1) + 1 = i + threadNum by omega, Nat.add_mod_right, Nat.mod_eq_of_lt h]
  rw [dealt, if_neg some, LoopId.sub.injEq, ← Nat.ModEq.add_iff_right (Nat.ModEq.refl 1), Nat.ModEq, due]

theorem Dealt.count (d : Dealt threadNum w) (h : i < threadNum) :
    w.clients.countP (·.loop = .sub i) =
      w.clients.length.count (· ≡ i + (threadNum - 1) [MOD threadNum]) := by
  have there : w.clients.countP (·.loop = .sub i) = (w.clients.map Client.loop).countP (· = .sub i) := by
    rw [List.countP_map]
    rfl
  rw [there, d.loops, List.countP_map, Nat.count]
  apply List.countP_congr
  intro k _
  simp only [Function.comp_apply, decide_eq_true_eq]
  exact dealt_sub_iff h k

/-- In every run of a server, whoever leaves in between and whatever `accept` reports, a
connection is on the loop that was due when it came, and never on another; and each
sub-reactor was given its share of the connections, or one more. -/
theorem connections_dealt (run : Run (server srv threadNum) es w) :
    (∀ k client, w.clients[k]? = some client → client.loop = dealt threadNum k) ∧
      ∀ i < threadNum, w.clients.countP (·.loop = .sub i) = w.clients.length / threadNum ∨
        w.clients.countP (·.loop = .sub i) = w.clients.length / threadNum + 1 := by
  have d := dealt_run run
  constructor
  · intro k client hc
    have lt : k < w.clients.length := (List.getElem?_eq_some_iff.mp hc).1
    have at_k : (w.clients.map Client.loop)[k]? = some client.loop := by
      rw [List.getElem?_map, hc]
      rfl
    rw [d.loops, List.getElem?_map, List.getElem?_range lt] at at_k
    exact (Option.some.inj at_k).symm
  · intro i h
    rw [d.count h, Nat.count_modEq_card _ (by omega)]
    split_ifs with more
    · exact .inr rfl
    · exact .inl rfl

def threeCome : List Action := [.accept (.conn 7)] ++ List.replicate 6 (.act 0 .setup) ++
  [.accept .again, .accept (.conn 8)] ++ List.replicate 6 (.act 1 .setup) ++
  [.act 0 (.event { epollin := true } { read := .eof } {}), .accept (.conn 9)]

theorem threeCome_dealt :
    (∀ k client, (replay (next (echo false) 2) booted threeCome).clients[k]? = some client →
      client.loop = dealt 2 k) ∧
    ∀ i < 2, (replay (next (echo false) 2) booted threeCome).clients.countP (·.loop = .sub i) =
        (replay (next (echo false) 2) booted threeCome).clients.length / 2 ∨
      (replay (next (echo false) 2) booted threeCome).clients.countP (·.loop = .sub i) =
        (replay (next (echo false) 2) booted threeCome).clients.length / 2 + 1 :=
  connections_dealt (run_visits (echo false) threeCome (by decide +kernel))

example : (replay (next (echo false) 2) booted threeCome).clients.map Client.loop =
    [.sub 1, .sub 0, .sub 1] := by
  decide +kernel

end SmallRpc.TCPServer
