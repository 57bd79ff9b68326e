import CallGate.Convention.Argument
import CallGate.Fault

/-! Walking the arguments of one call from left to right.

A cursor answers each fetch with a value or a fault and moves on. Decoding a list stops at the first
fault (`decodeAll`); `decodeEach` takes every type in turn, faults or not. -/

namespace CallGate

abbrev Cursor (σ : Type) := (k : Fetch) → σ → Except Fault k.Value × σ

namespace Cursor

variable {σ : Type}

def decode (c : Cursor σ) (t : ArgType) (s : σ) : Except Fault t.Value × σ :=
  let (fetched, s) := c t.fetch s
  (fetched.map t.interpret, s)

def decodeAll (c : Cursor σ) : (ts : List ArgType) → σ → Except Fault (Arguments ts) × σ
  | [], s => (.ok .nil, s)
  | t :: ts, s =>
    match c.decode t s with
    | (.error fault, s) => (.error fault, s)
    | (.ok v, s) =>
      let (rest, s) := c.decodeAll ts s
      (rest.map (.cons v), s)

def decodeEach (c : Cursor σ) : List ArgType → σ → List (Except Fault Argument) × σ
  | [], s => ([], s)
  | t :: ts, s =>
    let (result, s) := c.decode t s
    let (results, s) := c.decodeEach ts s
    (result.map (⟨t, ·⟩) :: results, s)

/-- Keeps a list of what was asked of a cursor, in order. -/
def recorded (c : Cursor σ) : Cursor (σ × List Fetch) := fun k (s, asked) =>
  let (answer, s) := c k s
  (answer, s, asked ++ [k])

end Cursor

end CallGate
