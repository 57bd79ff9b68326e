import CallGate.Convention.Cursor

/-! A cursor that answers from a script: one entry for each fetch, whatever its kind. -/

namespace CallGate.Script

/-- The low bits of an entry serve the narrower fetches. -/
def shape : (k : Fetch) → UInt64 → k.Value
  | .word, bits => bits.toUInt32
  | .doubleWord, bits => bits
  | .single, bits => Single.mk bits.toUInt32

/-- Behind the end of the script every answer is zero. -/
def cursor : Cursor (List (Except Fault UInt64)) := fun k script =>
  ((script.headD (.ok 0)).map (shape k), script.tail)

end CallGate.Script
