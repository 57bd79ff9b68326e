import CallGate.Floating
import Mathlib

/-! The order of single-precision patterns is the order of the numbers that they stand for.

`Float32` compares two numbers by their signs, exponents and significands. Counting the representable
numbers from zero on puts the same order on one line (`Binary32.ordinal`), and a pattern's place on that
line is its sign and magnitude, that is `Single.rank`. -/

namespace CallGate

open Float.Model (Format UnpackedFloat)
open Float.Model.UnpackedFloat (Sign unpackSign unpackExponent unpackMantissa)

namespace Binary32

/-- How many representable numbers lie between zero and this one, with its sign. -/
def ordinal : UnpackedFloat → Int
  | .notANumber => 0
  | .infinity s => s.apply 0x7f800000
  | .zero _ => 0
  | .finite s m e _ => s.apply ((e + 149) * 0x800000 + m)

/-- Of the ways to write a finite number, the one with 24 bits of significand, or with the least exponent
where there are fewer. -/
def Canonical : UnpackedFloat → Prop
  | .finite _ m e _ => m < 0x1000000 ∧ (0x800000 ≤ m ∧ -149 ≤ e ∧ e ≤ 104 ∨ e = -149)
  | _ => True

variable {s t : Sign} {m n : Nat} {e f : Int} {present : 0 < m} {present' : 0 < n}

theorem size_between (canonical : Canonical (.finite s m e present)) :
    0 < (e + 149) * 0x800000 + m ∧ (e + 149) * 0x800000 + m < 0x7f800000 := by
  obtain ⟨short, placed⟩ := canonical
  omega

theorem ordinal_negative (canonical : Canonical (.finite .negative m e present)) :
    ordinal (.finite .negative m e present) < 0 := by
  have size := size_between canonical
  simp only [ordinal, Sign.apply]
  omega

theorem ordinal_positive (canonical : Canonical (.finite .positive m e present)) :
    0 < ordinal (.finite .positive m e present) := by
  have size := size_between canonical
  simp only [ordinal, Sign.apply]
  omega

theorem ordinal_between (canonical : Canonical (.finite s m e present)) :
    ordinal (.infinity .negative) < ordinal (.finite s m e present) ∧
      ordinal (.finite s m e present) < ordinal (.infinity .positive) := by
  have size := size_between canonical
  cases s with
  | negative | positive =>
    simp only [ordinal, Sign.apply]
    omega

/-- The exponent decides first: one more is worth as much as all the significands below it. -/
theorem compare_size (left : Canonical (.finite s m e present))
    (right : Canonical (.finite t n f present')) :
    (compare e f).then (compare m n)
      = compare ((e + 149) * 0x800000 + m : Int) ((f + 149) * 0x800000 + n) := by
  obtain ⟨short, placed⟩ := left
  obtain ⟨short', placed'⟩ := right
  rcases Int.lt_trichotomy e f with lower | rfl | higher
  · rw [Int.compare_eq_lt.mpr lower, Ordering.lt_then, eq_comm, Int.compare_eq_lt]
    omega
  · rw [Int.compare_eq_eq.mpr rfl, Ordering.eq_then]
    rcases Nat.lt_trichotomy m n with lower | rfl | higher
    · rw [Nat.compare_eq_lt.mpr lower, eq_comm, Int.compare_eq_lt]
      omega
    · rw [Nat.compare_eq_eq.mpr rfl, eq_comm, Int.compare_eq_eq]
    · rw [Nat.compare_eq_gt.mpr higher, eq_comm, Int.compare_eq_gt]
      omega
  · rw [Int.compare_eq_gt.mpr higher, Ordering.gt_then, eq_comm, Int.compare_eq_gt]
    omega

theorem compare_neg (a b : Int) : compare (-a) (-b) = (compare a b).swap := by
  rw [Int.compare_swap]
  rcases Int.lt_trichotomy a b with lower | rfl | higher
  · rw [Int.compare_eq_gt.mpr lower, Int.compare_eq_gt]
    omega
  · rw [Int.compare_eq_eq.mpr rfl, Int.compare_eq_eq.mpr rfl]
  · rw [Int.compare_eq_lt.mpr higher, Int.compare_eq_lt]
    omega

theorem some_lt {a b : Int} (below : a < b) : some Ordering.lt = some (compare a b) := by
  rw [Int.compare_eq_lt.mpr below]

theorem some_gt {a b : Int} (above : b < a) : some Ordering.gt = some (compare a b) := by
  rw [Int.compare_eq_gt.mpr above]

theorem compare_finite (left : Canonical (.finite s m e present))
    (right : Canonical (.finite t n f present')) :
    (UnpackedFloat.finite s m e present).compare (.finite t n f present')
      = some (compare (ordinal (.finite s m e present)) (ordinal (.finite t n f present'))) := by
  have same := compare_size left right
  cases s with
  | negative =>
    cases t with
    | negative => simp only [UnpackedFloat.compare, ordinal, Sign.apply, compare_neg, same]
    | positive => exact some_lt ((ordinal_negative left).trans (ordinal_positive right))
  | positive =>
    cases t with
    | negative => exact some_gt ((ordinal_negative right).trans (ordinal_positive left))
    | positive => simp only [UnpackedFloat.compare, ordinal, Sign.apply, same]

theorem compare_ordinal {u w : UnpackedFloat} (left : Canonical u) (right : Canonical w)
    (number : u ≠ .notANumber) (number' : w ≠ .notANumber) :
    u.compare w = some (compare (ordinal u) (ordinal w)) := by
  rcases u with s | _ | s | ⟨s, m, e, present⟩
  · rcases w with t | _ | t | ⟨t, n, f, present'⟩
    · cases s <;> cases t <;> rfl
    · contradiction
    · cases s <;> rfl
    · cases s with
      | negative => exact some_lt (ordinal_between right).1
      | positive => exact some_gt (ordinal_between right).2
  · contradiction
  · rcases w with t | _ | t | ⟨t, n, f, present'⟩
    · cases t <;> rfl
    · contradiction
    · rfl
    · cases t with
      | negative => exact some_gt (ordinal_negative right)
      | positive => exact some_lt (ordinal_positive right)
  · rcases w with t | _ | t | ⟨t, n, f, present'⟩
    · cases t with
      | negative => exact some_gt (ordinal_between left).1
      | positive => exact some_lt (ordinal_between left).2
    · contradiction
    · cases s with
      | negative => exact some_lt (ordinal_negative left)
      | positive => exact some_gt (ordinal_positive left)
    · exact compare_finite left right

theorem compare_notANumber (u : UnpackedFloat) : u.compare .notANumber = none := by
  rcases u with s | _ | _ | ⟨s, m, e, present⟩
  · cases s <;> rfl
  · rfl
  · rfl
  · cases s <;> rfl

end Binary32

namespace Single

open Binary32

def pattern (v : Single) : BitVec Format.binary32.numBits := v.bits.toBitVec

def sign (v : Single) : Sign := Sign.ofBitVec (unpackSign v.pattern)

def exponent (v : Single) : Nat := (unpackExponent v.pattern).toNat

def fraction (v : Single) : Nat := (unpackMantissa v.pattern).toNat

variable {v : Single} {u : UnpackedFloat}

theorem exponent_lt (v : Single) : v.exponent < 0x100 := (unpackExponent v.pattern).isLt

theorem fraction_lt (v : Single) : v.fraction < 0x800000 := (unpackMantissa v.pattern).isLt

theorem exponent_eq_iff (e : BitVec 8) : v.exponent = e.toNat ↔ unpackExponent v.pattern = e :=
  BitVec.toNat_inj

theorem fraction_eq_iff (m : BitVec 23) : v.fraction = m.toNat ↔ unpackMantissa v.pattern = m :=
  BitVec.toNat_inj

theorem exponent_eq (v : Single) : v.exponent = v.bits.toNat / 0x800000 % 0x100 := by
  simp [exponent, pattern, unpackExponent, BitVec.extractLsb, Nat.shiftRight_eq_div_pow]

theorem fraction_eq (v : Single) : v.fraction = v.bits.toNat % 0x800000 := by
  simp [fraction, pattern, unpackMantissa, BitVec.extractLsb]

theorem isNegative_iff : v.isNegative = true ↔ 0x80000000 ≤ v.bits.toNat := by
  simp only [isNegative, decide_eq_true_eq, ge_iff_le, UInt32.le_iff_toNat_le]
  rfl

theorem sign_eq (v : Single) : v.sign = if v.isNegative then .negative else .positive := by
  have bound : v.bits.toNat < 0x100000000 := v.bits.toNat_lt
  have top : (unpackSign v.pattern).toNat = v.bits.toNat / 0x80000000 % 2 := by
    simp [unpackSign, pattern, BitVec.extractLsb, Nat.shiftRight_eq_div_pow]
  have clear : unpackSign v.pattern = 0#1 ↔ ¬ v.isNegative = true := by
    rw [isNegative_iff, ← BitVec.toNat_inj, top]
    change v.bits.toNat / 0x80000000 % 2 = 0 ↔ _
    omega
  simp only [sign, Sign.ofBitVec, clear, ite_not]

theorem magnitude_eq (v : Single) :
    v.magnitude.toNat = v.exponent * 0x800000 + v.fraction := by
  have low : v.magnitude.toNat = v.bits.toNat % 0x80000000 := by
    rw [magnitude, UInt32.toNat_and]
    exact Nat.and_two_pow_sub_one_eq_mod v.bits.toNat 31
  rw [low, exponent_eq, fraction_eq]
  omega

theorem rank_eq (v : Single) : v.rank = v.sign.apply (v.exponent * 0x800000 + v.fraction) := by
  rw [rank, sign_eq, magnitude_eq]
  split <;> rfl

theorem isNaN_iff : v.isNaN = true ↔ v.exponent = 0xff ∧ v.fraction ≠ 0 := by
  have exponent := v.exponent_lt
  have fraction := v.fraction_lt
  have magnitude := v.magnitude_eq
  simp only [isNaN, decide_eq_true_eq, gt_iff_lt, UInt32.lt_iff_toNat_lt]
  change 0x7f800000 < v.magnitude.toNat ↔ _
  omega

inductive Reads (v : Single) : UnpackedFloat → Prop
  | notANumber (full : v.exponent = 0xff) (present : v.fraction ≠ 0) : Reads v .notANumber
  | infinity (full : v.exponent = 0xff) (absent : v.fraction = 0) : Reads v (.infinity v.sign)
  | zero (empty : v.exponent = 0) (absent : v.fraction = 0) : Reads v (.zero v.sign)
  | subnormal (empty : v.exponent = 0) (present : 0 < v.fraction) :
      Reads v (.finite v.sign v.fraction (-149) present)
  | normal (above : 0 < v.exponent) (below : v.exponent < 0xff) (present : 0 < 0x800000 + v.fraction) :
      Reads v (.finite v.sign (0x800000 + v.fraction) (v.exponent - 150) present)

def unpacked (v : Single) : UnpackedFloat := UnpackedFloat.unpack .binary32 v.pattern

theorem exponentBias_eq : ((Format.binary32.exponentBias : Nat) : Int) = 127 := by
  decide

theorem toNat_one_append (v : Single) :
    (1#1 ++ unpackMantissa v.pattern).toNat = 0x800000 + v.fraction := by
  rw [BitVec.toNat_append, ← Nat.shiftLeft_add_eq_or_of_lt (unpackMantissa v.pattern).isLt]
  rfl

theorem reads_unpacked (v : Single) : v.Reads v.unpacked := by
  have bound := v.exponent_lt
  unfold unpacked UnpackedFloat.unpack
  simp only [exponentBias_eq]
  -- the exponent field tells the kind of number, and the fraction the special one of each kind
  split
  · next full =>
    have full : v.exponent = 0xff := (exponent_eq_iff (-1#8)).mpr full
    split
    · next absent =>
      exact .infinity full ((fraction_eq_iff 0#23).mpr absent)
    · next present =>
      exact .notANumber full (mt (fraction_eq_iff 0#23).mp present)
  · next notFull =>
    have notFull : v.exponent ≠ 0xff := mt (exponent_eq_iff (-1#8)).mp notFull
    split
    · next empty =>
      have empty : v.exponent = 0 := (exponent_eq_iff 0#8).mpr empty
      split
      · next absent =>
        exact .zero empty ((fraction_eq_iff 0#23).mpr absent)
      · next present =>
        have least : (v.exponent : Int) - (127 + 23) + 1 = -149 := by omega
        have reads := Reads.subnormal empty
          (Nat.pos_of_ne_zero (mt (fraction_eq_iff 0#23).mp present))
        rw [← least] at reads
        exact reads
    · next notEmpty =>
      have notEmpty : v.exponent ≠ 0 := mt (exponent_eq_iff 0#8).mp notEmpty
      have reads : v.Reads _ := .normal (by omega) (by omega) (by omega)
      simp only [← toNat_one_append] at reads
      exact reads

theorem canonical_of_reads (reads : v.Reads u) : Canonical u := by
  have bound := v.fraction_lt
  cases reads with
  | notANumber | infinity | zero => trivial
  | subnormal => exact ⟨by omega, .inr rfl⟩
  | normal above below => exact ⟨by omega, .inl ⟨by omega, by omega, by omega⟩⟩

theorem ordinal_of_reads (reads : v.Reads u) (number : u ≠ .notANumber) : ordinal u = v.rank := by
  rw [rank_eq]
  cases reads with
  | notANumber => contradiction
  | infinity full absent =>
    rw [full, absent]
    rfl
  | zero empty absent =>
    rw [empty, absent]
    cases v.sign <;> rfl
  | subnormal empty =>
    rw [empty]
    rfl
  | normal =>
    rw [ordinal]
    congr 1
    omega

theorem unpacked_eq_notANumber : v.unpacked = .notANumber ↔ v.isNaN = true := by
  rw [isNaN_iff]
  have reads := v.reads_unpacked
  generalize v.unpacked = u at reads
  cases reads with
  | notANumber full present => exact iff_of_true rfl ⟨full, present⟩
  | infinity full absent => exact iff_of_false nofun (fun nan => nan.2 absent)
  | zero empty absent => exact iff_of_false nofun (fun nan => nan.2 absent)
  | subnormal empty => exact iff_of_false nofun (by omega)
  | normal above below => exact iff_of_false nofun (by omega)

theorem isNaNBits_pattern (v : Single) : UnpackedFloat.isNaNBits v.pattern = v.isNaN := by
  rw [Bool.eq_iff_iff, isNaN_iff, UnpackedFloat.isNaNBits, decide_eq_true_iff]
  exact and_congr (exponent_eq_iff (-1#8)).symm (not_congr (fraction_eq_iff 0#23).symm)

def float (v : Single) : Float32 := Float32.ofBits v.bits

/-- A NaN loses its payload on the way, no other pattern changes. -/
theorem unpack_float (v : Single) : v.float.toModel.unpack = v.unpacked := by
  change UnpackedFloat.unpack .binary32 (UnpackedFloat.pack .binary32 v.unpacked) = _
  rw [unpacked, UnpackedFloat.pack_unpack, isNaNBits_pattern]
  split
  · next nan => rw [UnpackedFloat.unpack_packedNaN, ← unpacked, unpacked_eq_notANumber.mpr nan]
  · rfl

theorem isNaN_float (v : Single) : v.float.isNaN = v.isNaN := by
  change v.float.toModel.unpack.isNaN = _
  rw [unpack_float, Bool.eq_iff_iff, UnpackedFloat.isNaN_iff, unpacked_eq_notANumber]

variable {a b : Single}

theorem compare_unpacked (left : a.isNaN = false) (right : b.isNaN = false) :
    a.unpacked.compare b.unpacked = some (compare a.rank b.rank) := by
  have number : a.unpacked ≠ .notANumber := by
    rw [Ne, unpacked_eq_notANumber, left]
    decide
  have number' : b.unpacked ≠ .notANumber := by
    rw [Ne, unpacked_eq_notANumber, right]
    decide
  rw [compare_ordinal (canonical_of_reads a.reads_unpacked) (canonical_of_reads b.reads_unpacked)
    number number', ordinal_of_reads a.reads_unpacked number, ordinal_of_reads b.reads_unpacked number']

theorem compare_unpacked_eq_none (unordered : a.isNaN = true ∨ b.isNaN = true) :
    a.unpacked.compare b.unpacked = none := by
  rcases unordered with left | right
  · rw [unpacked_eq_notANumber.mpr left]
    rfl
  · rw [unpacked_eq_notANumber.mpr right, compare_notANumber]

theorem float_lt_iff : a.float < b.float ↔ a.lt b = true := by
  change decide (a.float.toModel < b.float.toModel) = true ↔ _
  rw [decide_eq_true_iff]
  change a.float.toModel.unpack.lt b.float.toModel.unpack = true ↔ _
  rw [unpack_float, unpack_float, UnpackedFloat.lt, lt]
  rcases left : a.isNaN with _ | _
  · rcases right : b.isNaN with _ | _
    · simp [compare_unpacked left right, Int.compare_eq_lt]
    · simp [compare_unpacked_eq_none (.inr right)]
  · simp [compare_unpacked_eq_none (.inl left)]

theorem clamp_float (v low high : Single) :
    v.clamp low high =
      if v.float < low.float then low else if high.float < v.float then high else v := by
  simp only [clamp, float_lt_iff]

theorem float_le_iff :
    a.float ≤ b.float ↔ a.isNaN = false ∧ b.isNaN = false ∧ a.rank ≤ b.rank := by
  change decide (a.float.toModel ≤ b.float.toModel) = true ↔ _
  rw [decide_eq_true_iff]
  change a.float.toModel.unpack.le b.float.toModel.unpack = true ↔ _
  rw [unpack_float, unpack_float, UnpackedFloat.le]
  rcases left : a.isNaN with _ | _
  · rcases right : b.isNaN with _ | _
    · simp [compare_unpacked left right, Int.isLE_compare]
    · simp [compare_unpacked_eq_none (.inr right)]
  · simp [compare_unpacked_eq_none (.inl left)]

end Single

end CallGate
