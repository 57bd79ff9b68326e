import CallGate.Memory.Basic

/-! Which bytes of an image changed. -/

namespace CallGate

structure ByteRun where
  offset : Nat
  bytes : List UInt8
deriving DecidableEq, Repr

namespace ByteRun

/-- Puts one more byte in front, into the first run if that one starts right behind it. -/
def extend (offset : Nat) (b : UInt8) : List ByteRun → List ByteRun
  | [] => [⟨offset, [b]⟩]
  | run :: runs =>
    if run.offset = offset + 1 then ⟨offset, b :: run.bytes⟩ :: runs
    else ⟨offset, [b]⟩ :: run :: runs

/-- The maximal runs of bytes that differ, in ascending order. -/
def between (offset : Nat) : List UInt8 → List UInt8 → List ByteRun
  | a :: before, b :: after =>
    if a = b then between (offset + 1) before after
    else extend offset b (between (offset + 1) before after)
  | _, _ => []

end ByteRun

def Memory.changes (before after : Memory) : List ByteRun :=
  ByteRun.between 0 before.image.data.toList after.image.data.toList

end CallGate
