/-! Floating-point values kept as IEEE 754 bit patterns.

Values are moved and compared here, never computed with, so every NaN payload and every signed zero
survives. The order of two single-precision values is read off their sign and magnitude. -/

namespace CallGate

structure Single where
  bits : UInt32
deriving DecidableEq, Repr, Inhabited

structure Double where
  bits : UInt64
deriving DecidableEq, Repr, Inhabited

namespace Single

def zero : Single := ⟨0⟩
def one : Single := ⟨0x3f800000⟩
def minusOne : Single := ⟨0xbf800000⟩

def magnitude (v : Single) : UInt32 := v.bits &&& 0x7fffffff

def isNegative (v : Single) : Bool := v.bits ≥ 0x80000000

def isNaN (v : Single) : Bool := v.magnitude > 0x7f800000

/-- Orders the values that are numbers; the two zeros have one rank. -/
def rank (v : Single) : Int :=
  if v.isNegative then -(v.magnitude.toNat : Int) else v.magnitude.toNat

/-- A comparison with a NaN never holds. -/
def lt (a b : Single) : Bool := !a.isNaN && !b.isNaN && decide (a.rank < b.rank)

def clamp (v low high : Single) : Single :=
  if v.lt low then low else if high.lt v then high else v

end Single

end CallGate
