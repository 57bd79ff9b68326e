/-! Destinations of guest text. -/

namespace CallGate

/-- A sink keeps the bytes of every write that it does not refuse. Whether it refuses may depend on
all writes tried so far, the current one first; an empty write counts. -/
structure Sink where
  refusal : List ByteArray → Option String := fun _ => none
  tried : List ByteArray := []
  kept : ByteArray := ByteArray.empty

namespace Sink

instance : Inhabited Sink := ⟨{}⟩

def capture : Sink := {}

def failingAfter (count : Nat) (reason : String) : Sink :=
  { refusal := fun tried => if tried.length > count then some reason else none }

def write (s : Sink) (data : ByteArray) : Except String Unit × Sink :=
  let tried := data :: s.tried
  match s.refusal tried with
  | none => (.ok (), { s with tried, kept := s.kept ++ data })
  | some reason => (.error reason, { s with tried })

def take (s : Sink) : ByteArray × Sink := (s.kept, { s with kept := ByteArray.empty })

end Sink

end CallGate
