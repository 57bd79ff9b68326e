import CallGate.Convention.Return
import CallGate.Registers.Field

/-! Register files as runs of stores into their fields.

Every way of writing a register file comes to stores of 64-bit values into some of its fields, one after the
other, and each field holds the last value stored into it (`raw_storeAll`). Whoever reads a register is told
by its field alone, but for register 0, which reads as zero whatever its field holds (`shows_raw`). -/

namespace CallGate

/-- The word as the low half of 64 bits that all repeat its top bit above it. -/
def widened (word : UInt32) : UInt64 :=
  if word.toNat < 0x80000000 then UInt64.ofNat word.toNat
  else UInt64.ofNat (0xffffffff00000000 + word.toNat)

theorem signExtend_eq_widened (word : UInt32) : signExtend word = widened word := by
  have small := word.toNat_lt
  have wide : (signExtend word).toNat = (word.toBitVec.signExtend 64).toNat := rfl
  rw [← UInt64.toNat_inj, wide, BitVec.toNat_signExtend, BitVec.toNat_setWidth, BitVec.msb_eq_decide,
    widened]
  change word.toNat % 2 ^ 64 + (if decide (2 ^ 31 ≤ word.toNat) = true then 2 ^ 64 - 2 ^ 32 else 0) = _
  by_cases positive : word.toNat < 0x80000000
  · rw [if_pos positive, if_neg (by simpa using positive), UInt64.toNat_ofNat']
    omega
  · rw [if_neg positive, if_pos (by simpa using positive), UInt64.toNat_ofNat']
    omega

theorem toUInt32_widened (word : UInt32) : (widened word).toUInt32 = word := by
  rw [← signExtend_eq_widened, Registers.toUInt32_signExtend]

def ReturnValue.stores : ReturnValue → List (Field × UInt64)
  | .unit => []
  | .u32 v => [(.gpr Reg.v0, widened v)]
  | .i32 v => [(.gpr Reg.v0, widened v.toUInt32)]
  | .u64 v => [(.gpr Reg.v0, widened (v >>> 32).toUInt32), (.gpr Reg.v1, widened v.toUInt32)]
  | .f32 v => [(.fpr Reg.f0, UInt64.ofNat v.bits.toNat)]
  | .ptr v => [(.gpr Reg.v0, widened v.address)]

def ReturnValue.carriers : ReturnValue → List Field
  | .unit => []
  | .u64 _ => [.gpr Reg.v0, .gpr Reg.v1]
  | .f32 _ => [.fpr Reg.f0]
  | _ => [.gpr Reg.v0]

theorem ReturnValue.map_fst_stores (v : ReturnValue) : v.stores.map Prod.fst = v.carriers := by
  cases v <;> rfl

theorem ReturnValue.zero_not_mem_carriers (v : ReturnValue) : .gpr Reg.zero ∉ v.carriers := by
  cases v <;> simp [carriers, Reg.zero, Reg.v0, Reg.v1]

namespace Registers

variable {regs : Registers}

def storeAll (regs : Registers) (stores : List (Field × UInt64)) : Registers :=
  stores.foldl (fun regs s => regs.poke s.1 s.2) regs

def lastStored (regs : Registers) (stores : List (Field × UInt64)) (f : Field) : UInt64 :=
  (stores.reverse.lookup f).getD (regs.raw f)

theorem raw_poke_same (regs : Registers) (f : Field) (value : UInt64) :
    (regs.poke f value).raw f = value := by
  cases f with
  | gpr r => simp [poke, raw, rawGpr, withGpr]
  | fpr r => simp [poke, raw, rawFpr, withFpr]
  | hi => rfl
  | lo => rfl

theorem raw_poke_other (regs : Registers) {f g : Field} (other : g ≠ f) (value : UInt64) :
    (regs.poke f value).raw g = regs.raw g := by
  cases f with
  | gpr r =>
      cases g with
      | gpr q =>
          have apart : r.val ≠ q.val := fun same => other (congrArg Field.gpr (Fin.ext same.symm))
          simp [poke, raw, rawGpr, withGpr, apart]
      | _ => rfl
  | fpr r =>
      cases g with
      | fpr q =>
          have apart : r.val ≠ q.val := fun same => other (congrArg Field.fpr (Fin.ext same.symm))
          simp [poke, raw, rawFpr, withFpr, apart]
      | _ => rfl
  | hi =>
      cases g with
      | hi => exact absurd rfl other
      | _ => rfl
  | lo =>
      cases g with
      | lo => exact absurd rfl other
      | _ => rfl

theorem storeAll_append (regs : Registers) (first later : List (Field × UInt64)) :
    regs.storeAll (first ++ later) = (regs.storeAll first).storeAll later := List.foldl_append

theorem raw_storeAll (regs : Registers) (stores : List (Field × UInt64)) (f : Field) :
    (regs.storeAll stores).raw f = regs.lastStored stores f := by
  induction stores generalizing regs with
  | nil => rfl
  | cons s stores ih =>
      obtain ⟨g, value⟩ := s
      have rest : (regs.storeAll ((g, value) :: stores)).raw f
          = (regs.poke g value).lastStored stores f := ih _
      rw [rest, lastStored, lastStored, List.reverse_cons, List.lookup_append]
      cases stores.reverse.lookup f with
      | some later => rfl
      | none =>
          by_cases here : f = g
          · subst here
            simp [raw_poke_same]
          · have unlike : (f == g) = false := beq_eq_false_iff_ne.mpr here
            simp [raw_poke_other regs here, List.lookup_cons, unlike]

theorem lastStored_of_not_mem {stores : List (Field × UInt64)} {f : Field}
    (kept : ∀ value, (f, value) ∉ stores) : regs.lastStored stores f = regs.raw f := by
  have missing : stores.reverse.lookup f = none := by
    rw [List.lookup_eq_none_iff]
    intro s member
    rw [bne_iff_ne]
    rintro rfl
    exact kept s.2 (List.mem_reverse.mp member)
  rw [lastStored, missing, Option.getD_none]

/-- What holds of every value stored into a field holds of the field afterwards, if it held before or
something is stored there. -/
theorem raw_storeAll_holds {P : UInt64 → Prop} {stores : List (Field × UInt64)} {f : Field}
    (stored : ∀ value, (f, value) ∈ stores → P value)
    (reached : P (regs.raw f) ∨ f ∈ stores.map Prod.fst) : P ((regs.storeAll stores).raw f) := by
  induction stores generalizing regs with
  | nil =>
      rcases reached with before | missing
      · exact before
      · cases missing
  | cons s stores ih =>
      refine ih (fun value later => stored value (List.mem_cons_of_mem s later)) ?_
      by_cases here : f = s.1
      · left
        subst here
        rw [raw_poke_same]
        exact stored s.2 List.mem_cons_self
      · rw [raw_poke_other regs here]
        exact reached.imp_right fun member => (List.mem_cons.mp member).resolve_left here

theorem set_zero (regs : Registers) (value : UInt64) : regs.set Reg.zero value = regs := if_pos rfl

theorem set_eq_poke {r : Reg} (nonzero : r ≠ Reg.zero) (value : UInt64) :
    regs.set r value = regs.poke (.gpr r) value := if_neg nonzero

theorem setWord_eq_poke {r : Reg} (nonzero : r ≠ Reg.zero) (value : UInt32) :
    regs.setWord r value = regs.poke (.gpr r) (widened value) := by
  rw [setWord, set_eq_poke nonzero, signExtend_eq_widened]

theorem setSingle_eq_poke (regs : Registers) (r : Reg) (value : Single) :
    regs.setSingle r value = regs.poke (.fpr r) (UInt64.ofNat value.bits.toNat) := by
  have bits : value.bits.toUInt64 = UInt64.ofNat value.bits.toNat := by simp
  rw [setSingle, bits]
  rfl

theorem store_eq_storeAll (regs : Registers) (value : ReturnValue) :
    regs.store value = regs.storeAll value.stores := by
  have first : Reg.v0 ≠ Reg.zero := by decide
  have second : Reg.v1 ≠ Reg.zero := by decide
  cases value with
  | unit => rfl
  | u32 | i32 | ptr => exact setWord_eq_poke first _
  | u64 v =>
      rw [store, setWord_eq_poke first, setWord_eq_poke second]
      rfl
  | f32 v => exact setSingle_eq_poke regs _ v

/-- A register file in which every field holds what is said, as its readers show it. -/
structure Shows (regs : Registers) (held : Field → UInt64) : Prop where
  raw : ∀ f, regs.raw f = held f
  zero : regs.get Reg.zero = 0 ∧ regs.word Reg.zero = 0
  get : ∀ r, r ≠ Reg.zero → regs.get r = held (.gpr r)
  word : ∀ r, r ≠ Reg.zero → (regs.word r).toNat = (held (.gpr r)).toNat % 0x100000000
  single : ∀ r, (regs.single r).bits.toNat = (held (.fpr r)).toNat % 0x100000000

theorem shows_raw (regs : Registers) : regs.Shows regs.raw where
  raw _ := rfl
  zero := by
    rw [word, get_zero]
    exact ⟨rfl, rfl⟩
  get _ nonzero := if_neg nonzero
  word r nonzero := by
    rw [word_of_ne_zero regs nonzero]
    exact UInt64.toNat_toUInt32 _
  single _ := UInt64.toNat_toUInt32 _

end Registers

end CallGate
