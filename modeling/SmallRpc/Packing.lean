import SmallRpc.Buffer

/-! A message head goes into the write buffer piece by piece. -/
namespace SmallRpc
namespace Buffer

def appendAll (b : Buffer) (mems : List Bytes) : Except Fault Buffer := mems.foldlM append b

/-- Each piece fits in a storage of this size, in front of which `windex` bytes are taken,
after at most one doubling. -/
def Room (windex size : Nat) : List Bytes → Prop
  | [] => True
  | mem :: mems => windex + mem.length ≤ 2 * size ∧
      Room (windex + mem.length) (if windex + mem.length ≤ size then size else 2 * size) mems

instance decidableRoom : ∀ (windex size : Nat) (mems : List Bytes), Decidable (Room windex size mems)
  | _, _, [] => .isTrue trivial
  | windex, size, mem :: mems =>
      have := decidableRoom (windex + mem.length)
        (if windex + mem.length ≤ size then size else 2 * size) mems
      inferInstanceAs (Decidable (_ ∧ _))

/-- Where the write index stands behind all pieces; nothing where one of them does not fit.
The storage is doubled for a piece longer than the free part, both counted as an `int`. -/
def filled (windex size : Nat) : List Bytes → Option Nat
  | [] => some windex
  | mem :: mems =>
    let memlen := castInt mem.length
    let size := if castInt (size - windex) < memlen then 2 * size else size
    if 0 ≤ memlen ∧ windex + memlen.toNat ≤ size then filled (windex + memlen.toNat) size mems
    else none

variable {b b' : Buffer} {mem : Bytes} {mems : List Bytes} {windex size k : Nat}

/-- What fits still fits after doublings that were not needed. -/
theorem Room.doubled (h : Room windex size mems) (k : Nat) : Room windex (2 ^ k * size) mems := by
  induction mems generalizing windex size k with
  | nil => trivial
  | cons mem mems ih =>
      obtain ⟨fits, rest⟩ := h
      have least : size ≤ 2 ^ k * size := Nat.le_mul_of_pos_left size (Nat.two_pow_pos k)
      refine ⟨by omega, ?_⟩
      by_cases grown : windex + mem.length ≤ size
      · rw [if_pos grown] at rest
        rw [if_pos (grown.trans least)]
        exact ih rest k
      · rw [if_neg grown] at rest
        cases k with
        | zero =>
            rw [Nat.pow_zero, Nat.one_mul, if_neg grown]
            exact rest
        | succ k =>
            have same : 2 ^ (k + 1) * size = 2 ^ k * (2 * size) := by rw [Nat.pow_succ]; ring
            have fits' : windex + mem.length ≤ 2 ^ (k + 1) * size := by
              rw [same]
              exact fits.trans (Nat.le_mul_of_pos_left _ (Nat.two_pow_pos k))
            rw [if_pos fits', same]
            exact ih rest k

/-- The pieces of a message, where all of them fit, end up behind what was unread. -/
theorem Wf.appendAll (h : b.Wf) (room : Room b.windex b.data.length mems)
    (small : ∀ mem ∈ mems, mem.length < 2 ^ 31) : ∃ b', b.appendAll mems = .ok b' ∧ b'.Wf ∧
      b'.unread = b.unread ++ mems.flatten ∧ b'.extraData = b.extraData ∧
      b'.extraIndex = b.extraIndex := by
  induction mems generalizing b with
  | nil => exact ⟨b, rfl, h, by simp, rfl, rfl⟩
  | cons mem mems ih =>
      obtain ⟨fits, rest⟩ := room
      obtain ⟨short, later⟩ := List.forall_mem_cons.mp small
      obtain ⟨c, out, done⟩ := h.append ⟨short, fits⟩
      have bound := done.wf.bound
      rw [done.windex] at bound
      have rest : Room c.windex c.data.length mems := by
        rw [done.windex]
        rcases done.storage with same | twice
        · rw [same] at bound ⊢
          rwa [if_pos bound] at rest
        · rw [twice]
          split_ifs at rest
          · exact rest.doubled 1
          · exact rest
      obtain ⟨b', outs, wf, unread, extra, index⟩ := ih done.wf rest later
      refine ⟨b', ?_, wf, ?_, extra.trans done.extra, index.trans done.extraIndex⟩
      · rw [Buffer.appendAll, List.foldlM_cons, out]
        exact outs
      · rw [unread, done.unread, List.flatten_cons, List.append_assoc]

/-- A head goes into a buffer exactly if it can be counted in. -/
theorem Wf.appendAll_filled (h : b.Wf) :
    match filled b.windex b.data.length mems with
    | none => ∃ f, b.appendAll mems = .error f
    | some n => ∃ b', b.appendAll mems = .ok b' ∧ b'.Wf ∧ b'.rindex = b.rindex ∧ b'.windex = n ∧
        b'.extraIndex = b.extraIndex := by
  induction mems generalizing b with
  | nil => exact ⟨b, rfl, h, rfl, rfl, rfl⟩
  | cons mem mems ih =>
      have step : b.appendAll (mem :: mems) = b.append mem >>= (·.appendAll mems) := List.foldlM_cons
      have grown : ∃ c, c = (if castInt b.writeable < castInt mem.length then b.double else b) ∧
          c.Wf ∧ c.rindex = b.rindex ∧ c.windex = b.windex ∧ c.extraIndex = b.extraIndex ∧
          c.data.length = if castInt (b.data.length - b.windex) < castInt mem.length then
            2 * b.data.length else b.data.length := by
        rw [← h.writeable_eq]
        split_ifs
        · exact ⟨_, rfl, h.double, rfl, rfl, rfl, double_length b⟩
        · exact ⟨_, rfl, h, rfl, rfl, rfl, rfl⟩
      obtain ⟨c, made, wf, rindex, windex, index, size⟩ := grown
      simp only [filled, ← size]
      by_cases fits : 0 ≤ castInt mem.length ∧
          b.windex + (castInt mem.length).toNat ≤ c.data.length
      · have taken : (mem.take (castInt mem.length).toNat).length = (castInt mem.length).toNat := by
          have low := castInt_le mem.length
          rw [List.length_take]
          omega
        have out : b.append mem = .ok (c.put (mem.take (castInt mem.length).toNat)) := by
          rw [Buffer.append, ← made]
          exact if_pos (windex.symm ▸ fits)
        have room : c.windex + (mem.take (castInt mem.length).toNat).length ≤ c.data.length := by
          rw [taken, windex]
          exact fits.2
        have put := wf.put room
        have moved : (c.put (mem.take (castInt mem.length).toNat)).windex =
            b.windex + (castInt mem.length).toNat := by
          change c.windex + _ = _
          rw [windex, taken]
        have rest := ih put.1
        rw [moved, put.2.2] at rest
        rw [if_pos fits, step, out]
        generalize filled _ _ mems = n at rest ⊢
        cases n with
        | none => exact rest
        | some n =>
            obtain ⟨b', outs, wf', rindex', windex', index'⟩ := rest
            exact ⟨b', outs, wf', rindex'.trans rindex, windex', index'.trans index⟩
      · have out : b.append mem = .error .outOfStorage := by
          rw [Buffer.append, ← made]
          exact if_neg (windex.symm ▸ fits)
        rw [if_neg fits, step, out]
        exact ⟨_, rfl⟩

theorem appended_of_appendAll (h : b.appendAll mems = .ok b') (hm : mem ∈ mems) :
    ∃ c c', Buffer.append c mem = .ok c' := by
  induction mems generalizing b with
  | nil => cases hm
  | cons first mems ih =>
      rw [appendAll, List.foldlM_cons] at h
      cases out : b.append first with
      | error f =>
          rw [out] at h
          cases h
      | ok c =>
          rw [out] at h
          rcases List.mem_cons.mp hm with rfl | later
          · exact ⟨b, c, out⟩
          · exact ih h later

/-- A piece whose length an `int` shows as negative is never appended. -/
theorem lt_of_append (h : b.append mem = .ok b') (word : mem.length < 2 ^ 32) :
    mem.length < 2 ^ 31 := by
  obtain ⟨_, _, nonneg, _⟩ := append_ok h
  unfold castInt at nonneg
  split_ifs at nonneg <;> omega

end Buffer
end SmallRpc
