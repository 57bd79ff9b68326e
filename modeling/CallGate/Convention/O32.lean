import CallGate.Convention.Cursor
import CallGate.Memory.Basic
import CallGate.Registers.Basic

/-! The O32 convention: where the arguments of a call are.

The arguments form a sequence of 32-bit slots. The first four slots are integer registers, the others
are words of guest memory behind the stack pointer. Doublewords start at an even slot, high word
first. Single-precision values in the first two slots, with nothing else before them, are in float
registers instead, and still use up their slots. -/

namespace CallGate.O32

def slotWord (regs : Registers) (m : Memory) (slot : Nat) : Except Fault UInt32 :=
  if inRegister : slot < 4 then .ok (regs.word (Reg.argument ⟨slot, inRegister⟩))
  else m.readWord (regs.word Reg.sp + UInt32.ofNat (4 * slot))

/-- The next slot, and whether only singles came before it. -/
structure Position where
  slot : Nat := 0
  singlesOnly : Bool := true
deriving DecidableEq, Repr

def joinWords (high low : UInt32) : UInt64 := high.toUInt64 <<< 32 ||| low.toUInt64

/-- A slot counts as used when its word faults; a doubleword then leaves its second slot unread. -/
def cursor (regs : Registers) (m : Memory) : Cursor Position
  | .word, p => (slotWord regs m p.slot, ⟨p.slot + 1, false⟩)
  | .doubleWord, p =>
    let first := p.slot + p.slot % 2
    match slotWord regs m first with
    | .error fault => (.error fault, ⟨first + 1, false⟩)
    | .ok high => ((slotWord regs m (first + 1)).map (joinWords high), ⟨first + 2, false⟩)
  | .single, p =>
    if leading : p.singlesOnly ∧ p.slot < 2 then
      (.ok (regs.single (Reg.floatArgument ⟨p.slot, leading.2⟩)), ⟨p.slot + 1, true⟩)
    else ((slotWord regs m p.slot).map Single.mk, ⟨p.slot + 1, false⟩)

def decode (regs : Registers) (m : Memory) (ts : List ArgType) : Except Fault (Arguments ts) :=
  ((cursor regs m).decodeAll ts {}).1

end CallGate.O32
