/-! Big-endian bytes of a number: the most significant byte comes first.

`encode n v` writes the low `n` bytes of `v` and `decode` reads a byte list back. The two are
inverse to each other on `n` bytes: `decode_encode` and `encode_decode`. -/

namespace CallGate.BigEndian

/-- What a byte is worth with `n` bytes behind it. -/
def weight : Nat → Nat
  | 0 => 1
  | n + 1 => weight n * 256

def encode : Nat → Nat → List UInt8
  | 0, _ => []
  | n + 1, v => UInt8.ofNat (v / weight n) :: encode n v

def decode : List UInt8 → Nat
  | [] => 0
  | b :: bytes => b.toNat * weight bytes.length + decode bytes

theorem weight_pos (n : Nat) : 0 < weight n := by
  induction n with
  | zero => exact Nat.one_pos
  | succ n ih => exact Nat.mul_pos ih (by decide)

theorem weight_add (m n : Nat) : weight (m + n) = weight m * weight n := by
  induction n with
  | zero => exact (Nat.mul_one _).symm
  | succ n ih =>
    calc
      weight (m + n) * 256 = weight m * weight n * 256 := by rw [ih]
      _ = weight m * (weight n * 256) := Nat.mul_assoc _ _ _

@[simp] theorem length_encode (n v : Nat) : (encode n v).length = n := by
  induction n with
  | zero => rfl
  | succ n ih => simp [encode, ih]

theorem getD_encode (n v i : Nat) (inside : i < n) :
    (encode n v).getD i 0 = UInt8.ofNat (v / weight (n - (i + 1))) := by
  induction n generalizing i with
  | zero => omega
  | succ n ih =>
    cases i with
    | zero => rfl
    | succ i =>
      have next := ih i (by omega)
      rw [Nat.add_sub_add_right]
      simpa [encode] using next

theorem decode_lt (bytes : List UInt8) : decode bytes < weight bytes.length := by
  induction bytes with
  | nil => exact Nat.one_pos
  | cons b bytes ih =>
    have top : b.toNat + 1 ≤ 256 := b.toNat_lt
    have scaled := Nat.mul_le_mul_right (weight bytes.length) top
    simp only [decode, List.length_cons, weight]
    rw [Nat.add_mul] at scaled
    omega

theorem decode_append (first rest : List UInt8) :
    decode (first ++ rest) = decode first * weight rest.length + decode rest := by
  induction first with
  | nil => rw [List.nil_append, decode, Nat.zero_mul, Nat.zero_add]
  | cons b first ih =>
    calc
      decode (b :: first ++ rest)
          = b.toNat * weight (first ++ rest).length + decode (first ++ rest) := rfl
      _ = b.toNat * (weight first.length * weight rest.length)
          + (decode first * weight rest.length + decode rest) := by
        rw [ih, List.length_append, weight_add]
      _ = (b.toNat * weight first.length + decode first) * weight rest.length + decode rest := by
        rw [Nat.add_mul, Nat.mul_assoc, Nat.add_assoc]

theorem decode_encode (n v : Nat) : decode (encode n v) = v % weight n := by
  induction n with
  | zero => exact (Nat.mod_one v).symm
  | succ n ih =>
    have head : (UInt8.ofNat (v / weight n)).toNat = v / weight n % 256 := by simp
    rw [encode, decode, head, ih, length_encode, weight, Nat.mod_mul, Nat.mul_comm, Nat.add_comm]

theorem encode_mod (n m v : Nat) (fits : n ≤ m) : encode n (v % weight m) = encode n v := by
  induction n with
  | zero => rfl
  | succ n ih =>
    have split : weight m = weight n * (256 * weight (m - (n + 1))) := by
      rw [← Nat.mul_assoc]
      change weight m = weight (n + 1) * weight (m - (n + 1))
      rw [← weight_add]
      congr 1
      omega
    have head : UInt8.ofNat (v % weight m / weight n) = UInt8.ofNat (v / weight n) := by
      rw [← UInt8.toNat_inj, UInt8.toNat_ofNat', UInt8.toNat_ofNat', split,
        Nat.mod_mul_right_div_self]
      exact Nat.mod_mul_right_mod _ _ _
    rw [encode, encode, head, ih (by omega)]

theorem encode_decode (bytes : List UInt8) : encode bytes.length (decode bytes) = bytes := by
  induction bytes with
  | nil => rfl
  | cons b bytes ih =>
    have small := decode_lt bytes
    have head : (b.toNat * weight bytes.length + decode bytes) / weight bytes.length
        = b.toNat := by
      rw [Nat.mul_comm, Nat.mul_add_div (weight_pos _), Nat.div_eq_of_lt small, Nat.add_zero]
    have tail : (b.toNat * weight bytes.length + decode bytes) % weight bytes.length
        = decode bytes := by
      rw [Nat.mul_comm, Nat.mul_add_mod, Nat.mod_eq_of_lt small]
    rw [List.length_cons, encode, decode, head, ← encode_mod _ _ _ (Nat.le_refl _), tail, ih]
    simp

end CallGate.BigEndian
