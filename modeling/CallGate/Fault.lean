import CallGate.Text.Hex

/-! What stops a guest: an access that its memory image does not hold. -/

namespace CallGate

inductive Fault
  | outOfBounds (address length : UInt32)
deriving DecidableEq, Repr

def Fault.message : Fault → String
  | .outOfBounds address length =>
    "out-of-bounds guest access: " ++ toString length.toNat ++ " bytes at "
      ++ Hex.literal 8 address.toNat

end CallGate
