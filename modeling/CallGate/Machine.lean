import CallGate.Memory.Pointer
import CallGate.Registers.Basic
import CallGate.Services.Basic

/-! A guest and its surroundings: register file, memory and services. -/

namespace CallGate

structure Machine where
  registers : Registers := {}
  memory : Memory
  services : Services := {}

/-- What a call comes to. A fault stops the guest; what was done before it stays done. -/
abbrev Outcome := Except Fault Unit × Machine

namespace Machine

def log (m : Machine) (entry : LogEntry) : Machine := { m with services := m.services.log entry }

def store (m : Machine) (t : Scalar) (p : Pointer) (value : t.Value) : Outcome :=
  match m.memory.write t p.address value with
  | .ok memory => (.ok (), { m with memory })
  | .error fault => (.error fault, m)

end Machine

end CallGate
