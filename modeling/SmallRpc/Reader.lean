import SmallRpc.Context

/-! Chunks appended to a receive buffer with a call of the parser after each. -/
namespace SmallRpc

/-- What a parser's state is fed with, and how it is called. -/
structure Reader (σ : Type) where
  recv : σ → Bytes → σ
  parse : σ → Except Fault (ParseProtocolStatus × σ)

namespace Reader
variable {σ : Type}

def feed (R : Reader σ) : σ → List Bytes → Except Fault (ParseProtocolStatus × σ)
  | s, [] => .ok (.noEnoughData, s)
  | s, chunk :: chunks =>
    match R.parse (R.recv s chunk) with
    | .ok (.noEnoughData, s) => R.feed s chunks
    | out => out

/-- One call: the state it was made in, and what came of it. -/
structure Call (σ : Type) where
  entry : σ
  result : Except Fault (ParseProtocolStatus × σ)

/-- A call after every chunk, whatever status the last one gave; a fault ends the run. -/
def calls (R : Reader σ) : σ → List Bytes → List (Call σ)
  | _, [] => []
  | s, chunk :: chunks =>
    let entry := R.recv s chunk
    ⟨entry, R.parse entry⟩ :: match R.parse entry with
      | .ok (_, s) => R.calls s chunks
      | .error _ => []

variable {R : Reader σ} {s s' : σ} {chunk : Bytes} {chunks : List Bytes}

theorem feed_more (h : R.parse (R.recv s chunk) = .ok (.noEnoughData, s')) :
    R.feed s (chunk :: chunks) = R.feed s' chunks := by
  rw [feed, h]

theorem feed_done {status : ParseProtocolStatus} (h : R.parse (R.recv s chunk) = .ok (status, s'))
    (hne : status ≠ .noEnoughData) : R.feed s (chunk :: chunks) = .ok (status, s') := by
  rw [feed, h]
  cases status <;> first | rfl | exact absurd rfl hne

theorem feed_fault {f : Fault} (h : R.parse (R.recv s chunk) = .error f) :
    R.feed s (chunk :: chunks) = .error f := by
  rw [feed, h]

/-- A conclusive answer to a prefix of the chunks is the answer to all of them. -/
theorem feed_append (ds : List Bytes) {out : Except Fault (ParseProtocolStatus × σ)}
    (h : R.feed s chunks = out) (conclusive : ∀ s', out ≠ .ok (.noEnoughData, s')) :
    R.feed s (chunks ++ ds) = out := by
  induction chunks generalizing s with
  | nil => exact absurd h.symm (conclusive s)
  | cons c cs ih =>
      rw [List.cons_append]
      rw [feed] at h ⊢
      split at h
      · exact ih h
      · exact h

theorem first_mem_calls :
    ⟨R.recv s chunk, R.parse (R.recv s chunk)⟩ ∈ R.calls s (chunk :: chunks) := List.mem_cons_self

/-- The call rule. An invariant that receiving keeps, and that every call keeps which is
not made on a bad entry, reduces the safety of a run to its entries. -/
theorem calls_safe_iff (Inv : σ → Prop) {Safe : Call σ → Prop} {Bad : σ → Prop}
    (recv : ∀ {s} chunk, Inv s → Inv (R.recv s chunk))
    (safe : ∀ {s}, Inv s → ¬ Bad s → ∃ status s', R.parse s = .ok (status, s') ∧ Inv s' ∧
      Safe ⟨s, R.parse s⟩)
    (bad : ∀ {s}, Inv s → Bad s → ¬ Safe ⟨s, R.parse s⟩) (hs : Inv s) (chunks : List Bytes) :
    (∀ c ∈ R.calls s chunks, Safe c) ↔ ∀ c ∈ R.calls s chunks, ¬ Bad c.entry := by
  induction chunks generalizing s with
  | nil => simp [calls]
  | cons chunk chunks ih =>
      have here := recv chunk hs
      by_cases hbad : Bad (R.recv s chunk)
      · constructor
        · exact fun all => absurd (all _ List.mem_cons_self) (bad here hbad)
        · exact fun clean => absurd hbad (clean _ List.mem_cons_self)
      · obtain ⟨status, s', hparse, next, hsafe⟩ := safe here hbad
        rw [hparse] at hsafe
        simp only [calls, hparse, List.forall_mem_cons, hsafe, hbad, not_false_eq_true, true_and]
        exact ih next

/-- The feed rule. `At w s` holds of a state in which `w` has been received and more is
waited for; `Ends w status m` says what a stream `w` is answered with, `m` being shown. -/
theorem feed_ends {τ : Type} {obs : σ → τ} {At : Bytes → σ → Prop} {Good : Bytes → Prop}
    {Ends : Bytes → ParseProtocolStatus → τ → Prop} {w : Bytes}
    (call : ∀ {w s c}, Good (w ++ c) → At w s → ∃ status s', R.parse (R.recv s c) = .ok (status, s') ∧
      Ends (w ++ c) status (obs s') ∧ (status = .noEnoughData → At (w ++ c) s'))
    (idle : ∀ {w s}, At w s → Ends w .noEnoughData (obs s))
    (kept : ∀ {w v status m}, status ≠ .noEnoughData → Ends w status m → Ends (w ++ v) status m)
    (before : ∀ {w v}, Good (w ++ v) → Good w) (hs : At w s) (good : Good (w ++ chunks.flatten)) :
    ∃ status s', R.feed s chunks = .ok (status, s') ∧ Ends (w ++ chunks.flatten) status (obs s') := by
  induction chunks generalizing w s with
  | nil => exact ⟨_, s, rfl, by simpa using idle hs⟩
  | cons c cs ih =>
      rw [List.flatten_cons, ← List.append_assoc] at good ⊢
      obtain ⟨status, s', hparse, ends, waits⟩ := call (before good) hs
      by_cases more : status = .noEnoughData
      · subst more
        obtain ⟨status, t, hfeed, ends⟩ := ih (waits rfl) good
        exact ⟨status, t, (feed_more hparse).trans hfeed, ends⟩
      · exact ⟨status, s', feed_done hparse more, kept more ends⟩

end Reader

/-- Both calls return the same status and, on `Success`, show the same. -/
def SameOutcome {σ τ : Type} (obs : σ → τ) (out out' : Except Fault (ParseProtocolStatus × σ)) : Prop :=
  ∃ status s s', out = .ok (status, s) ∧ out' = .ok (status, s') ∧
    (status = .success → obs s = obs s')

instance {σ τ : Type} [DecidableEq τ] (obs : σ → τ) :
    ∀ out out' : Except Fault (ParseProtocolStatus × σ), Decidable (SameOutcome obs out out')
  | .ok (status, s), .ok (status', s') =>
      decidable_of_iff (status = status' ∧ (status = .success → obs s = obs s'))
        ⟨by rintro ⟨rfl, same⟩; exact ⟨status, s, s', rfl, rfl, same⟩,
          by rintro ⟨_, _, _, h, h', same⟩; cases h; cases h'; exact ⟨rfl, same⟩⟩
  | .error _, _ => .isFalse nofun
  | .ok _, .error _ => .isFalse nofun

end SmallRpc
