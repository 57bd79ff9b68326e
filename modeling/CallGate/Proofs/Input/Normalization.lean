import CallGate.Proofs.Floating.Comparison
import CallGate.Proofs.Input.Controller

/-! The bits that a stick reports, for all the bits that it can be given.

An axis is settled on its pattern alone: a NaN to zero, a magnitude over one to one, anything else as it
is. The clamp of a controller compares numbers, and comes to the same (`normalized_eq_settled`). -/

namespace CallGate

namespace Single

def settled (v : Single) : Single :=
  if v.float.isNaN then zero
  else if v.bits &&& 0x7fffffff ≤ 0x3f800000 then v
  else ⟨v.bits &&& 0x80000000 ||| 0x3f800000⟩

/-- The other sign, also of a zero. -/
def negated (v : Single) : Single := ⟨v.bits ^^^ 0x80000000⟩

variable {v w : Single}

theorem isNegative_eq (v : Single) : v.isNegative = v.bits.toNat.testBit 31 := by
  have bound : v.bits.toNat < 0x100000000 := v.bits.toNat_lt
  rw [Bool.eq_iff_iff, isNegative_iff, Nat.testBit_eq_decide_div_mod_eq, decide_eq_true_iff]
  omega

theorem and_signBit (v : Single) :
    v.bits &&& 0x80000000 = if v.isNegative then 0x80000000 else 0 := by
  have bit : (v.bits &&& 0x80000000).toNat = (v.bits.toNat.testBit 31).toNat * 0x80000000 :=
    Nat.and_two_pow v.bits.toNat 31
  apply UInt32.toNat_inj.mp
  rw [bit, ← isNegative_eq]
  cases v.isNegative <;> rfl

theorem isNegative_of_lt (below : v.rank < 0) : v.isNegative = true := by
  unfold rank at below
  split at below
  · next negative => exact negative
  · omega

theorem isNegative_of_gt (above : 0 < v.rank) : v.isNegative = false := by
  unfold rank at above
  split at above
  · omega
  · next positive => exact Bool.eq_false_iff.mpr positive

theorem clamp_eq (number : v.isNaN = false) :
    v.clamp minusOne one =
      if v.InUnit then v else if v.isNegative then minusOne else one := by
  have limits : minusOne.isNaN = false ∧ one.isNaN = false := by decide
  have signs : minusOne.rank < 0 ∧ 0 < one.rank := by decide
  simp only [clamp, lt_iff number limits.1, lt_iff limits.2 number, inUnit_iff number]
  rcases Int.lt_or_le v.rank minusOne.rank with under | least
  · rw [if_pos under, if_neg (by omega), if_pos (isNegative_of_lt (by omega))]
  · rcases Int.lt_or_le one.rank v.rank with beyond | most
    · rw [if_neg (by omega), if_pos beyond, if_neg (by omega), isNegative_of_gt (by omega)]
      rfl
    · rw [if_neg (by omega), if_neg (by omega), if_pos ⟨least, most⟩]

theorem normalized_eq (number : v.isNaN = false) :
    v.normalized = if v.InUnit then v else if v.isNegative then minusOne else one := by
  rw [normalized, if_neg (Bool.eq_false_iff.mp number), clamp_eq number]

theorem normalized_of_inUnit (inside : v.InUnit) : v.normalized = v := by
  rw [normalized_eq inside.1, if_pos inside]

theorem normalized_eq_settled (v : Single) : v.normalized = v.settled := by
  rw [settled, isNaN_float]
  split
  · next nan => rw [normalized, if_pos nan]
  · next isNumber =>
    have number : v.isNaN = false := Bool.eq_false_iff.mpr isNumber
    have inside : v.InUnit ↔ v.bits &&& 0x7fffffff ≤ 0x3f800000 := and_iff_right number
    simp only [normalized_eq number, inside, and_signBit]
    cases v.isNegative <;> rfl

theorem rank_normalized (number : v.isNaN = false) :
    v.normalized.rank = max minusOne.rank (min one.rank v.rank) := by
  have signs : minusOne.rank < 0 ∧ 0 < one.rank := by decide
  have inUnit := inUnit_iff number
  rw [normalized_eq number]
  split
  · next inside =>
    obtain ⟨least, most⟩ := inUnit.mp inside
    omega
  · next outside =>
    have outside := mt inUnit.mpr outside
    split
    · next negative =>
      have most : ¬ 0 < v.rank := by
        intro above
        rw [isNegative_of_gt above] at negative
        contradiction
      omega
    · next positive =>
      have least : ¬ v.rank < 0 := mt isNegative_of_lt positive
      omega

theorem float_normalized_le (ordered : v.float ≤ w.float) : v.normalized.float ≤ w.normalized.float := by
  obtain ⟨left, right, below⟩ := float_le_iff.mp ordered
  refine float_le_iff.mpr ⟨v.inUnit_normalized.1, w.inUnit_normalized.1, ?_⟩
  rw [rank_normalized left, rank_normalized right]
  omega

theorem magnitude_negated (v : Single) : v.negated.magnitude = v.magnitude := by
  have bits : v.negated.bits.toNat = v.bits.toNat ^^^ 0x80000000 := UInt32.toNat_xor ..
  apply UInt32.toNat_inj.mp
  rw [magnitude, magnitude, UInt32.toNat_and, UInt32.toNat_and, bits, Nat.and_xor_distrib_right]
  exact Nat.xor_zero _

theorem isNegative_negated (v : Single) : v.negated.isNegative = !v.isNegative := by
  have bits : v.negated.bits.toNat = v.bits.toNat ^^^ 0x80000000 := UInt32.toNat_xor ..
  have signBit : Nat.testBit 0x80000000 31 = true := by decide
  rw [isNegative_eq, isNegative_eq, bits, Nat.testBit_xor, signBit, Bool.xor_true]

theorem isNaN_negated (v : Single) : v.negated.isNaN = v.isNaN := by
  rw [isNaN, isNaN, magnitude_negated]

theorem normalized_negated (number : v.isNaN = false) : v.negated.normalized = v.normalized.negated := by
  have inUnit : v.negated.InUnit ↔ v.InUnit := by
    rw [InUnit, InUnit, isNaN_negated, magnitude_negated]
  have limits : one.negated = minusOne ∧ minusOne.negated = one := by decide
  rw [normalized_eq number, normalized_eq (v.isNaN_negated.trans number), isNegative_negated]
  simp only [inUnit]
  split
  · rfl
  · cases v.isNegative
    · exact limits.1.symm
    · exact limits.2.symm

end Single

namespace Axes

def settled (a : Axes) : Axes := ⟨a.x.settled, a.y.settled⟩

theorem normalized_eq_settled (a : Axes) : a.normalized = a.settled := by
  rw [normalized, settled, a.x.normalized_eq_settled, a.y.normalized_eq_settled]

theorem normalized_of_inSquare {a : Axes} (inside : a.InSquare) : a.normalized = a := by
  rw [normalized, Single.normalized_of_inUnit inside.1, Single.normalized_of_inUnit inside.2]

end Axes

namespace Controller

/-- A stick reports the bits of the last deflection that was set on it, with a NaN at zero and what lies
outside of `[-1, 1]` at the nearer end; to set it to what it reports changes nothing. An axis with the other
sign comes out with the other sign, and a greater one no lower. -/
theorem sticks_report_settled (updates : List Update) :
    let c := updates.foldl Update.apply {}
    c.left = ((lastOf Update.left? updates).map Axes.settled).getD Axes.rest ∧
    c.right = ((lastOf Update.right? updates).map Axes.settled).getD Axes.rest ∧
    c.setLeft c.left = c ∧ c.setRight c.right = c ∧
    ∀ v : Single, v.normalized = v.settled ∧ v.normalized.normalized = v.normalized ∧
      (v.float.isNaN = false → v.negated.normalized = v.normalized.negated) ∧
      ∀ w : Single, v.float ≤ w.float → v.normalized.float ≤ w.normalized.float := by
  intro c
  have whole : c = _ := Update.foldl_apply_neutral updates
  have settles : Axes.normalized = Axes.settled := funext Axes.normalized_eq_settled
  have leftInside : c.left.InSquare := by
    rw [whole]
    exact Update.inSquare_lastOf Update.left? updates
  have rightInside : c.right.InSquare := by
    rw [whole]
    exact Update.inSquare_lastOf Update.right? updates
  refine ⟨?_, ?_, ?_, ?_, ?_⟩
  · rw [whole, settles]
  · rw [whole, settles]
  · rw [setLeft, Axes.normalized_of_inSquare leftInside]
  · rw [setRight, Axes.normalized_of_inSquare rightInside]
  · intro v
    refine ⟨v.normalized_eq_settled, Single.normalized_of_inUnit v.inUnit_normalized, ?_, ?_⟩
    · intro number
      exact Single.normalized_negated (v.isNaN_float.symm.trans number)
    · intro w ordered
      exact Single.float_normalized_le ordered

/-- A NaN and a negative zero on the left stick; on the right one, negative infinity and the least number
over zero, after the neighbours of one. -/
def edgeUpdates : List Update :=
  [.right ⟨⟨0x3f800001⟩, ⟨0x3f7fffff⟩⟩, .left ⟨⟨0xffc01234⟩, ⟨0x80000000⟩⟩, .buttons 0x8001,
    .right ⟨⟨0xff800000⟩, ⟨1⟩⟩]

theorem sticks_report_settled_edgeUpdates :
    (edgeUpdates.foldl Update.apply {}).left = ⟨⟨0⟩, ⟨0x80000000⟩⟩ ∧
    (edgeUpdates.foldl Update.apply {}).right = ⟨⟨0xbf800000⟩, ⟨1⟩⟩ ∧
    (Single.mk 0x3f800001).float.isNaN = false ∧
    (Single.mk 0x3f800001).negated.normalized = Single.minusOne ∧
    (Single.mk 0xff800000).float ≤ (Single.mk 1).float ∧
    (Single.mk 0xff800000).normalized.float ≤ (Single.mk 1).normalized.float := by
  obtain ⟨left, right, -, -, laws⟩ := sticks_report_settled edgeUpdates
  have number : (Single.mk 0x3f800001).float.isNaN = false := by decide +kernel
  have ordered : (Single.mk 0xff800000).float ≤ (Single.mk 1).float := by decide +kernel
  obtain ⟨-, -, flips, -⟩ := laws ⟨0x3f800001⟩
  obtain ⟨-, -, -, keeps⟩ := laws ⟨0xff800000⟩
  have one : (Single.mk 0x3f800001).normalized.negated = Single.minusOne := by decide +kernel
  exact ⟨left.trans (by decide +kernel), right.trans (by decide +kernel), number,
    (flips number).trans one, ordered, keeps ⟨1⟩ ordered⟩

end Controller

end CallGate
