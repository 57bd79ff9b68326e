import CallGate.Floating

/-! The register file at a call boundary.

Integer registers are 64 bits wide; a 32-bit value is kept sign-extended in them. Float registers
hold raw bits, with a single-precision value in the low word. Register 0 reads as zero and drops
writes, whatever its raw field holds. -/

namespace CallGate

abbrev Reg := Fin 32

namespace Reg

def zero : Reg := 0

def v0 : Reg := 2
def v1 : Reg := 3

def argument (n : Fin 4) : Reg := ⟨4 + n, by omega⟩

def a0 : Reg := 4
def a1 : Reg := 5
def f12 : Reg := 12

def sp : Reg := 29

def f0 : Reg := 0

def floatArgument (n : Fin 2) : Reg := ⟨12 + 2 * n, by omega⟩

end Reg

structure NoSuchRegister where
  index : Nat
deriving DecidableEq, Repr

def NoSuchRegister.message (e : NoSuchRegister) : String :=
  "index out of bounds: the len is 32 but the index is " ++ toString e.index

def Reg.ofIndex (index : Nat) : Except NoSuchRegister Reg :=
  if inside : index < 32 then .ok ⟨index, inside⟩ else .error ⟨index⟩

structure Registers where
  gpr : Vector UInt64 32 := Vector.replicate 32 0
  fpr : Vector UInt64 32 := Vector.replicate 32 0
  hi : UInt64 := 0
  lo : UInt64 := 0
deriving DecidableEq

def signExtend (word : UInt32) : UInt64 := word.toInt32.toInt64.toUInt64

namespace Registers

/-- What the field itself holds, also that of register 0. -/
def rawGpr (regs : Registers) (r : Reg) : UInt64 := regs.gpr[r]

def rawFpr (regs : Registers) (r : Reg) : UInt64 := regs.fpr[r]

def withGpr (regs : Registers) (r : Reg) (value : UInt64) : Registers :=
  { regs with gpr := regs.gpr.set r value }

def withFpr (regs : Registers) (r : Reg) (value : UInt64) : Registers :=
  { regs with fpr := regs.fpr.set r value }

def get (regs : Registers) (r : Reg) : UInt64 := if r = Reg.zero then 0 else regs.rawGpr r

def set (regs : Registers) (r : Reg) (value : UInt64) : Registers :=
  if r = Reg.zero then regs else regs.withGpr r value

def word (regs : Registers) (r : Reg) : UInt32 := (regs.get r).toUInt32

def setWord (regs : Registers) (r : Reg) (value : UInt32) : Registers :=
  regs.set r (signExtend value)

def single (regs : Registers) (r : Reg) : Single := ⟨(regs.rawFpr r).toUInt32⟩

/-- Clears the high word. -/
def setSingle (regs : Registers) (r : Reg) (value : Single) : Registers :=
  regs.withFpr r value.bits.toUInt64

@[simp] theorem get_zero (regs : Registers) : regs.get Reg.zero = 0 := if_pos rfl

theorem argument_ne_zero (n : Fin 4) : Reg.argument n ≠ Reg.zero := by
  intro same
  have index := congrArg Fin.val same
  simp [Reg.argument, Reg.zero] at index

theorem argument_ne_sp (n : Fin 4) : Reg.argument n ≠ Reg.sp := by
  intro same
  have index := congrArg Fin.val same
  simp only [Reg.argument, Reg.sp] at index
  omega

theorem argument_inj {a b : Fin 4} (same : Reg.argument a = Reg.argument b) : a = b := by
  have index := congrArg Fin.val same
  exact Fin.ext (Nat.add_left_cancel index)

theorem floatArgument_inj {a b : Fin 2} (same : Reg.floatArgument a = Reg.floatArgument b) :
    a = b := by
  have index := congrArg Fin.val same
  simp only [Reg.floatArgument] at index
  omega

theorem word_of_ne_zero (regs : Registers) {r : Reg} (nonzero : r ≠ Reg.zero) :
    regs.word r = (regs.rawGpr r).toUInt32 := by
  simp [word, get, nonzero]

theorem get_set_same (regs : Registers) {r : Reg} (nonzero : r ≠ Reg.zero) (value : UInt64) :
    (regs.set r value).get r = value := by
  simp [get, set, rawGpr, withGpr, nonzero]

theorem get_set_other (regs : Registers) {r q : Reg} (other : q ≠ r) (value : UInt64) :
    (regs.set r value).get q = regs.get q := by
  have apart : r.val ≠ q.val := fun same => other (Fin.ext same.symm)
  unfold get set
  split
  · rfl
  · split
    · rfl
    · simp [rawGpr, withGpr, apart]

theorem toUInt32_signExtend (word : UInt32) : (signExtend word).toUInt32 = word := by
  rw [← UInt32.toBitVec_inj]
  have wide : (signExtend word).toBitVec = word.toBitVec.signExtend 64 := rfl
  simp only [UInt64.toBitVec_toUInt32, wide]
  apply BitVec.eq_of_getLsbD_eq
  intro i small
  simp [BitVec.getLsbD_signExtend, small]
  omega

theorem word_setWord_same (regs : Registers) {r : Reg} (nonzero : r ≠ Reg.zero) (value : UInt32) :
    (regs.setWord r value).word r = value := by
  rw [word, setWord, get_set_same regs nonzero, toUInt32_signExtend]

theorem word_setWord_other (regs : Registers) {r q : Reg} (other : q ≠ r) (value : UInt32) :
    (regs.setWord r value).word q = regs.word q := by
  rw [word, setWord, get_set_other regs other, word]

@[simp] theorem single_setWord (regs : Registers) (r q : Reg) (value : UInt32) :
    (regs.setWord r value).single q = regs.single q := by
  unfold setWord set
  split <;> rfl

theorem single_setSingle_same (regs : Registers) (r : Reg) (value : Single) :
    (regs.setSingle r value).single r = value := by
  simp [single, setSingle, rawFpr, withFpr]

theorem single_setSingle_other (regs : Registers) {r q : Reg} (other : q ≠ r) (value : Single) :
    (regs.setSingle r value).single q = regs.single q := by
  have apart : r.val ≠ q.val := fun same => other (Fin.ext same.symm)
  simp [single, setSingle, rawFpr, withFpr, apart]

@[simp] theorem word_setSingle (regs : Registers) (r q : Reg) (value : Single) :
    (regs.setSingle r value).word q = regs.word q := rfl

end Registers

end CallGate
