/-! Numbers and bytes in lower-case hexadecimal. -/

namespace CallGate.Hex

/-- At least `width` digits, filled up with zeros on the left. -/
def padded (width n : Nat) : String :=
  let digits := Nat.toDigits 16 n
  String.ofList (List.replicate (width - digits.length) '0' ++ digits)

def literal (width n : Nat) : String := "0x" ++ padded width n

def ofBytes (bytes : List UInt8) : String :=
  String.join (bytes.map fun b => padded 2 b.toNat)

end CallGate.Hex
