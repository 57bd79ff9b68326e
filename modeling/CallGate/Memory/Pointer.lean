import CallGate.Memory.Basic

/-! Pointers into guest memory. A pointer is an address and nothing more; it is checked against an
image at every use. -/

namespace CallGate

structure Pointer where
  address : UInt32
deriving DecidableEq, Repr

def Memory.text (m : Memory) (p : Pointer) (size : UInt32) : Except Fault ByteArray :=
  m.bytes p.address size

end CallGate
