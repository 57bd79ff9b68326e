import CallGate.Convention.Argument
import CallGate.Registers.Basic

/-! Handing a return value back to the guest: `v0`, the pair `v0` and `v1` with the high word first, or
`f0`. -/

namespace CallGate

inductive ReturnValue
  | unit
  | u32 (v : UInt32)
  | i32 (v : Int32)
  | u64 (v : UInt64)
  | f32 (v : Single)
  | ptr (v : Pointer)
deriving DecidableEq, Repr

def Registers.store (regs : Registers) : ReturnValue → Registers
  | .unit => regs
  | .u32 v => regs.setWord Reg.v0 v
  | .i32 v => regs.setWord Reg.v0 v.toUInt32
  | .u64 v => (regs.setWord Reg.v0 (v >>> 32).toUInt32).setWord Reg.v1 v.toUInt32
  | .f32 v => regs.setSingle Reg.f0 v
  | .ptr v => regs.setWord Reg.v0 v.address

end CallGate
