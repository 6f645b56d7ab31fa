import Mathlib

/-! Unsigned integers in network byte order, and the signed reading of a word. -/
namespace BigEndian

/-- The number a word of bytes spells, most significant byte first. -/
def decode (w : List UInt8) : Nat := w.foldl (fun a b => 256 * a + b.toNat) 0

/-- The last `k` base-256 digits of `n`, most significant first. -/
def encode : Nat → Nat → List UInt8
  | 0, _ => []
  | k + 1, n => encode k (n / 256) ++ [UInt8.ofNat n]

@[simp] theorem encode_length (k n : Nat) : (encode k n).length = k := by
  induction k generalizing n with
  | zero => rfl
  | succ k ih => simp [encode, ih]

@[simp] theorem decode_nil : decode [] = 0 := rfl

@[simp] theorem decode_snoc (w : List UInt8) (b : UInt8) :
    decode (w ++ [b]) = 256 * decode w + b.toNat := by
  simp [decode, List.foldl_append]

theorem decode_lt (w : List UInt8) : decode w < 256 ^ w.length := by
  induction w using List.reverseRecOn with
  | nil => simp
  | append_singleton w b ih =>
      have hb := b.toNat_lt
      rw [decode_snoc, List.length_append, List.length_singleton, Nat.pow_succ]
      omega

theorem decode_encode (k n : Nat) : decode (encode k n) = n % 256 ^ k := by
  induction k generalizing n with
  | zero => simp [encode, Nat.mod_one]
  | succ k ih =>
      have low : (UInt8.ofNat n).toNat = n % 256 := UInt8.toNat_ofNat'
      rw [encode, decode_snoc, ih, low, Nat.pow_succ, Nat.mul_comm (256 ^ k) 256, Nat.mod_mul]
      omega

theorem encode_decode (w : List UInt8) : encode w.length (decode w) = w := by
  induction w using List.reverseRecOn with
  | nil => rfl
  | append_singleton w b ih =>
      have hb := b.toNat_lt
      have high : (256 * decode w + b.toNat) / 256 = decode w := by omega
      have low : UInt8.ofNat (256 * decode w + b.toNat) = b := by
        apply UInt8.toNat_inj.mp
        rw [UInt8.toNat_ofNat']
        omega
      rw [List.length_append, List.length_singleton, decode_snoc, encode, high, low, ih]

end BigEndian
