import SmallRpc.Resumable
import SmallRpc.SimpleContext

/-! What the binary format means: a machine that waits for all declared bytes of a
field before it consumes the field. The parsers of `SimpleContext` follow it, stage
by stage, except where fewer than four bytes of a field are missing. -/
namespace SmallRpc
open Resumable
open FirstMatch (firstMatch firstMatch_append firstMatch_bound)

/-- What has been read of a message. -/
structure Frame where
  stage : Nat := 0
  connType : ConnType := .short
  rpcStatus : Option RpcStatus := none
  service : Bytes := []
  method : Bytes := []
  payload : Option Bytes := none
  deriving DecidableEq, Repr

namespace Frame

abbrev FrameVerdict := Verdict Frame ParseProtocolStatus

/-- The unsigned integer in front of `w`. -/
def word (w : Bytes) : Nat := BigEndian.decode (w.take 4)

def magicVerdict (mismatch : ParseProtocolStatus) (s : Frame) (w : Bytes) : FrameVerdict :=
  if w.length < 4 then .more
  else if castInt (word w) ≠ magicNum then .stop mismatch
  else .advance { s with stage := 1 } 4

def connTypeVerdict (s : Frame) (w : Bytes) : FrameVerdict :=
  if w.length < 4 then .more
  else match ConnType.ofInt (castInt (word w)) with
    | none => .stop .error
    | some connType => .advance { s with connType, stage := 2 } 4

def statusVerdict (s : Frame) (w : Bytes) : FrameVerdict :=
  if w.length < 8 then .more
  else match ConnType.ofInt (castInt (word w)), RpcStatus.ofInt (castInt (word (w.drop 4))) with
    | some connType, some rpcStatus =>
        .advance { s with connType, rpcStatus := some rpcStatus, stage := 2 } 8
    | _, _ => .stop .error

def pathVerdict (s : Frame) (w : Bytes) : FrameVerdict :=
  if w.length < 4 ∨ w.length < 4 + word w then .more
  else match firstMatch [slash] ((w.drop 4).take (word w)) with
    | none => .stop .error
    | some tmp =>
        let path := (w.drop 4).take (word w)
        .advance { s with service := path.take tmp, method := path.drop (tmp + 1), stage := 3 }
          (4 + word w)

def payloadVerdict (next : Nat) (s : Frame) (w : Bytes) : FrameVerdict :=
  if w.length < 4 ∨ w.length < 4 + word w then .more
  else .advance { s with payload := some ((w.drop 4).take (word w)), stage := next } (4 + word w)

def requestVerdict (mismatch : ParseProtocolStatus) (s : Frame) (w : Bytes) : FrameVerdict :=
  match s.stage with
  | 0 => magicVerdict mismatch s w
  | 1 => connTypeVerdict s w
  | 2 => pathVerdict s w
  | 3 => payloadVerdict 4 s w
  | _ => .stop .success

def responseVerdict (s : Frame) (w : Bytes) : FrameVerdict :=
  match s.stage with
  | 0 => magicVerdict .error s w
  | 1 => statusVerdict s w
  | 2 => payloadVerdict 3 s w
  | _ => .stop .success

variable {s s' : Frame} {w v : Bytes} {n : Nat} {mismatch : ParseProtocolStatus}

theorem word_append (h : 4 ≤ w.length) (v : Bytes) : word (w ++ v) = word w := by
  rw [word, List.take_append_of_le_length h, word]

theorem field_append (h : 4 + word w ≤ w.length) (v : Bytes) :
    ((w ++ v).drop 4).take (word w) = (w.drop 4).take (word w) := by
  rw [List.drop_append_of_le_length (by omega),
    List.take_append_of_le_length (by rw [List.length_drop]; omega)]

theorem magicVerdict_settled : Settled (magicVerdict mismatch) where
  progress h := by
    unfold magicVerdict at h
    split_ifs at h with hw hm
    cases h
    omega
  stable v h := by
    unfold magicVerdict at h ⊢
    split_ifs at h with hw
    · exact absurd rfl h
    all_goals rw [word_append (by omega), List.length_append, if_neg (by omega), if_neg hw]

theorem connTypeVerdict_settled : Settled connTypeVerdict where
  progress h := by
    unfold connTypeVerdict at h
    split_ifs at h with hw
    cases hc : ConnType.ofInt (castInt (word _)) <;> rw [hc] at h <;> cases h
    omega
  stable v h := by
    unfold connTypeVerdict at h ⊢
    split_ifs at h with hw
    · exact absurd rfl h
    · rw [word_append (by omega), List.length_append, if_neg (by omega), if_neg hw]

theorem statusVerdict_settled : Settled statusVerdict where
  progress h := by
    unfold statusVerdict at h
    split_ifs at h with hw
    cases hc : ConnType.ofInt (castInt (word _)) <;>
      cases hr : RpcStatus.ofInt (castInt (word (List.drop 4 _))) <;> rw [hc, hr] at h <;> cases h
    omega
  stable v h := by
    unfold statusVerdict at h ⊢
    split_ifs at h with hw
    · exact absurd rfl h
    · rw [List.drop_append_of_le_length (by omega), word_append (by omega),
        word_append (by rw [List.length_drop]; omega), List.length_append, if_neg (by omega),
        if_neg hw]

theorem pathVerdict_settled : Settled pathVerdict where
  progress h := by
    unfold pathVerdict at h
    split_ifs at h with hw
    split at h
    · cases h
    · cases h
      omega
  stable v h := by
    unfold pathVerdict at h ⊢
    split_ifs at h with hw
    · exact absurd rfl h
    · rw [word_append (by omega), field_append (by omega), List.length_append, if_neg (by omega),
        if_neg hw]

theorem payloadVerdict_settled {next : Nat} : Settled (payloadVerdict next) where
  progress h := by
    unfold payloadVerdict at h
    split_ifs at h with hw
    cases h
    omega
  stable v h := by
    unfold payloadVerdict at h ⊢
    split_ifs at h with hw
    · exact absurd rfl h
    · rw [word_append (by omega), field_append (by omega), List.length_append, if_neg (by omega),
        if_neg hw]

theorem magicVerdict_next (h : magicVerdict mismatch s w = .advance s' n) :
    s'.stage = 1 ∧ n = 4 := by
  unfold magicVerdict at h
  split_ifs at h
  cases h
  exact ⟨rfl, rfl⟩

theorem connTypeVerdict_next (h : connTypeVerdict s w = .advance s' n) :
    s'.stage = 2 ∧ n = 4 := by
  unfold connTypeVerdict at h
  split_ifs at h
  split at h <;> cases h
  exact ⟨rfl, rfl⟩

theorem statusVerdict_next (h : statusVerdict s w = .advance s' n) : s'.stage = 2 := by
  unfold statusVerdict at h
  split_ifs at h
  split at h <;> cases h
  rfl

theorem pathVerdict_next (h : pathVerdict s w = .advance s' n) : s'.stage = 3 := by
  unfold pathVerdict at h
  split_ifs at h
  split at h <;> cases h
  rfl

theorem payloadVerdict_next {next : Nat} (h : payloadVerdict next s w = .advance s' n) :
    s'.stage = next ∧ ∃ bytes, s'.payload = some bytes := by
  unfold payloadVerdict at h
  split_ifs at h
  cases h
  exact ⟨rfl, _, rfl⟩

theorem magicVerdict_success : magicVerdict .error s w ≠ .stop .success := by
  unfold magicVerdict
  split_ifs <;> simp

theorem connTypeVerdict_success : connTypeVerdict s w ≠ .stop .success := by
  unfold connTypeVerdict
  split_ifs
  · simp
  · split <;> simp

theorem statusVerdict_success : statusVerdict s w ≠ .stop .success := by
  unfold statusVerdict
  split_ifs
  · simp
  · split <;> simp

theorem pathVerdict_success : pathVerdict s w ≠ .stop .success := by
  unfold pathVerdict
  split_ifs
  · simp
  · split <;> simp

theorem payloadVerdict_success {next : Nat} : payloadVerdict next s w ≠ .stop .success := by
  unfold payloadVerdict
  split_ifs <;> simp

/-- The request format. A first word that is not the magic number ends in
`mismatch`: an error inside a context, another protocol before there is one. -/
def request (mismatch : ParseProtocolStatus) : Machine UInt8 Frame ParseProtocolStatus where
  stage := requestVerdict mismatch
  progress {s w s' n} h := by
    unfold requestVerdict at h
    split at h
    · exact magicVerdict_settled.progress h
    · exact connTypeVerdict_settled.progress h
    · exact pathVerdict_settled.progress h
    · exact payloadVerdict_settled.progress h
    · cases h
  stable {s w} v h := by
    unfold requestVerdict at h ⊢
    split
    · simp_all only
      exact magicVerdict_settled.stable v h
    · simp_all only
      exact connTypeVerdict_settled.stable v h
    · simp_all only
      exact pathVerdict_settled.stable v h
    · simp_all only
      exact payloadVerdict_settled.stable v h
    · rfl

def response : Machine UInt8 Frame ParseProtocolStatus where
  stage := responseVerdict
  progress {s w s' n} h := by
    unfold responseVerdict at h
    split at h
    · exact magicVerdict_settled.progress h
    · exact statusVerdict_settled.progress h
    · exact payloadVerdict_settled.progress h
    · cases h
  stable {s w} v h := by
    unfold responseVerdict at h ⊢
    split
    · simp_all only
      exact magicVerdict_settled.stable v h
    · simp_all only
      exact statusVerdict_settled.stable v h
    · simp_all only
      exact payloadVerdict_settled.stable v h
    · rfl

theorem request_advance (h : (request mismatch).stage s w = .advance s' n) :
    s'.stage = s.stage + 1 ∧ (s.stage < 2 → n = 4 ∧ 4 ≤ w.length) := by
  have hn := ((request mismatch).progress h).2
  change requestVerdict mismatch s w = _ at h
  unfold requestVerdict at h
  generalize s.stage = k at h ⊢
  match k with
  | 0 =>
      obtain ⟨hs, rfl⟩ := magicVerdict_next h
      exact ⟨hs, fun _ => ⟨rfl, hn⟩⟩
  | 1 =>
      obtain ⟨hs, rfl⟩ := connTypeVerdict_next h
      exact ⟨hs, fun _ => ⟨rfl, hn⟩⟩
  | 2 => exact ⟨pathVerdict_next h, by omega⟩
  | 3 => exact ⟨(payloadVerdict_next h).1, by omega⟩
  | _ + 4 => cases h

/-- The path stage is reached with eight bytes consumed. -/
theorem request_path_at {r : Option ParseProtocolStatus} {t : Frame} {x : Bytes}
    (h : Drains (request mismatch) s w r t x) (ht : t.stage = 2) :
    (s.stage = 2 → x = w) ∧ (s.stage = 1 → 4 ≤ w.length ∧ x = w.drop 4) ∧
      (s.stage = 0 → 8 ≤ w.length ∧ x = w.drop 8) ∧ s.stage ≤ 2 := by
  induction h with
  | more _ => exact ⟨fun _ => rfl, by omega, by omega, by omega⟩
  | stop _ => exact ⟨fun _ => rfl, by omega, by omega, by omega⟩
  | advance hv _ ih =>
      obtain ⟨hs, hn⟩ := request_advance hv
      obtain ⟨h2, h1, _, hle⟩ := ih ht
      refine ⟨by omega, fun h0 => ?_, fun h0 => ?_, by omega⟩
      · obtain ⟨rfl, h4⟩ := hn (by omega)
        exact ⟨h4, h2 (by omega)⟩
      · obtain ⟨rfl, h4⟩ := hn (by omega)
        obtain ⟨h8, hx⟩ := h1 (by omega)
        rw [List.length_drop] at h8
        exact ⟨by omega, by rw [hx, List.drop_drop]⟩

/-- Only the first word tells the two readings of a mismatch apart. -/
theorem request_agree {m m' : ParseProtocolStatus}
    (h : 1 ≤ s.stage ∨ 4 ≤ w.length ∧ castInt (word w) = magicNum) :
    (request m).stage s w = (request m').stage s w := by
  show requestVerdict m s w = requestVerdict m' s w
  unfold requestVerdict
  generalize s.stage = k at h ⊢
  match k with
  | 0 =>
      obtain ⟨h4, hm⟩ := h.resolve_left (by omega)
      show magicVerdict m s w = magicVerdict m' s w
      have short : ¬ w.length < 4 := by omega
      simp only [magicVerdict, short, if_false, hm, ne_eq, not_true_eq_false]
  | 1 | 2 | 3 | _ + 4 => rfl

theorem drains_agree {m m' : ParseProtocolStatus} {r : Option ParseProtocolStatus} {t : Frame}
    {x : Bytes} (h : Drains (request m) s w r t x)
    (known : 1 ≤ s.stage ∨ 4 ≤ w.length ∧ castInt (word w) = magicNum) :
    Drains (request m') s w r t x := by
  induction h with
  | more hv => exact .more (by rw [← request_agree known]; exact hv)
  | stop hv => exact .stop (by rw [← request_agree known]; exact hv)
  | advance hv _ ih =>
      have hs := (request_advance hv).1
      exact .advance (by rw [← request_agree known]; exact hv) (ih (Or.inl (by omega)))

theorem request_first (hs : s.stage = 0) (h4 : 4 ≤ w.length) (hm : castInt (word w) = magicNum) :
    (request mismatch).stage s w = .advance { s with stage := 1 } 4 := by
  show requestVerdict mismatch s w = _
  have short : ¬ w.length < 4 := by omega
  simp only [requestVerdict, hs, magicVerdict, short, if_false, hm, ne_eq, not_true_eq_false]

theorem drains_started {r : Option ParseProtocolStatus} {t : Frame} {x : Bytes}
    (h : Drains (request mismatch) s w r t x)
    (known : 1 ≤ s.stage ∨ 4 ≤ w.length ∧ castInt (word w) = magicNum) : 1 ≤ t.stage := by
  have begun : ∀ {s w}, Drains (request mismatch) s w r t x → 1 ≤ s.stage → 1 ≤ t.stage :=
    fun h hs => h.invariant (P := fun s => 1 ≤ s.stage) hs fun hv _ => by
      have := (request_advance hv).1
      omega
  by_cases hs : 1 ≤ s.stage
  · exact begun h hs
  obtain ⟨h4, hm⟩ := known.resolve_left hs
  have hv := @request_first s w mismatch (by omega : s.stage = 0) h4 hm
  cases h with
  | more hv' => rw [hv] at hv'; cases hv'
  | stop hv' => rw [hv] at hv'; cases hv'
  | advance hv' rest =>
      rw [hv] at hv'
      cases hv'
      exact begun rest le_rfl

/-- Once the path is consumed a request can only succeed. -/
theorem payload_succeeds {o : ParseProtocolStatus} {t : Frame} {x : Bytes}
    (h : Drains (request mismatch) s w (some o) t x) (hs : 3 ≤ s.stage) : o = .success := by
  have ht : 3 ≤ t.stage := h.invariant (P := fun s => 3 ≤ s.stage) hs fun hv hle => by
    have := (request_advance hv).1
    omega
  have hv : requestVerdict mismatch t x = .stop o := h.stopped
  unfold requestVerdict at hv
  generalize t.stage = k at hv ht
  match k with
  | 3 =>
      change payloadVerdict 4 t x = .stop o at hv
      unfold payloadVerdict at hv
      split_ifs at hv
  | _ + 4 =>
      cases hv
      rfl

/-- The status a machine stops with is never the one that asks for more. -/
theorem requestVerdict_conclusive (hm : mismatch ≠ .noEnoughData) :
    requestVerdict mismatch s w ≠ .stop .noEnoughData := by
  unfold requestVerdict magicVerdict connTypeVerdict pathVerdict payloadVerdict
  repeat' split
  all_goals simp [hm]

theorem responseVerdict_conclusive : responseVerdict s w ≠ .stop .noEnoughData := by
  unfold responseVerdict magicVerdict statusVerdict payloadVerdict
  repeat' split
  all_goals simp

end Frame
end SmallRpc
