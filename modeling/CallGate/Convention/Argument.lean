import CallGate.Floating
import CallGate.Memory.Pointer

/-! The types of arguments and of what the calling convention hands over for them. -/

namespace CallGate

/-- What an argument list is made of at the level of the convention. -/
inductive Fetch
  | word
  | doubleWord
  | single
deriving DecidableEq, Repr

abbrev Fetch.Value : Fetch → Type
  | word => UInt32
  | doubleWord => UInt64
  | single => Single

inductive ArgType
  | u32 | i32 | u64 | i64 | f32 | ptr
deriving DecidableEq, Repr

namespace ArgType

abbrev Value : ArgType → Type
  | u32 => UInt32
  | i32 => Int32
  | u64 => UInt64
  | i64 => Int64
  | f32 => Single
  | ptr => Pointer

def fetch : ArgType → Fetch
  | u32 | i32 | ptr => .word
  | u64 | i64 => .doubleWord
  | f32 => .single

/-- Reads what was fetched as a value of the type; no bit is lost. -/
def interpret : (t : ArgType) → t.fetch.Value → t.Value
  | u32, w => w
  | i32, w => UInt32.toInt32 w
  | u64, w => w
  | i64, w => UInt64.toInt64 w
  | f32, v => v
  | ptr, w => Pointer.mk w

def represent : (t : ArgType) → t.Value → t.fetch.Value
  | u32, v => v
  | i32, v => Int32.toUInt32 v
  | u64, v => v
  | i64, v => Int64.toUInt64 v
  | f32, v => v
  | ptr, v => Pointer.address v

theorem interpret_represent (t : ArgType) (v : t.Value) : t.interpret (t.represent v) = v := by
  cases t <;> simp [interpret, represent]

theorem represent_interpret (t : ArgType) (w : t.fetch.Value) :
    t.represent (t.interpret w) = w := by
  cases t
  · rfl
  · exact UInt32.toUInt32_toInt32 w
  · rfl
  · exact UInt64.toUInt64_toInt64 w
  · rfl
  · rfl

end ArgType

abbrev Argument := (t : ArgType) × t.Value

inductive Arguments : List ArgType → Type
  | nil : Arguments []
  | cons {t : ArgType} {ts : List ArgType} (v : t.Value) (rest : Arguments ts) :
      Arguments (t :: ts)

def Arguments.toList : {ts : List ArgType} → Arguments ts → List Argument
  | [], nil => []
  | t :: _, cons v rest => ⟨t, v⟩ :: rest.toList

end CallGate
