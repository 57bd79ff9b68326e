import CallGate.Capability.Basic
import CallGate.Convention.O32
import CallGate.Machine
import CallGate.Services.Native

/-! Serving a guest call: arguments out of the register file, the native form, results back into guest
memory. -/

namespace CallGate.Capability

/-- What the handler of a capability decodes: one for each declared argument (`length_params`). -/
@[reducible] def params : Capability → List ArgType
  | itemInputs => [.ptr]
  | cameraInputs => [.ptr, .ptr]
  | puts => [.ptr, .u32]

theorem length_params (c : Capability) : c.params.length = c.arity := by
  cases c <;> rfl

/-- What a capability does once its arguments are known. Nothing is emitted before the whole text of a
`puts` is found in bounds, and an empty text is not looked for at all. -/
def serve (host : Host) (m : Machine) : (c : Capability) → Arguments c.params → Outcome
  | itemInputs, .cons out .nil =>
    let (held, services) := m.services.itemInputs host
    { m with services }.store .u32 out held
  | cameraInputs, .cons xOut (.cons yOut .nil) =>
    let (axes, services) := m.services.cameraInputs host
    match { m with services }.store .f32 xOut axes.x with
    | (.ok _, m) => m.store .f32 yOut axes.y
    | (.error fault, m) => (.error fault, m)
  | puts, .cons text (.cons size .nil) =>
    if size = 0 then (.ok (), m)
    else match m.memory.text text size with
      | .ok data => (.ok (), { m with services := m.services.puts host data size })
      | .error fault => (.error fault, m)

def handle (c : Capability) (host : Host) (m : Machine) : Outcome :=
  match O32.decode m.registers m.memory c.params with
  | .ok arguments => serve host m c arguments
  | .error fault => (.error fault, m)

/-- The handler, with the call and any fault of it logged. -/
def call (c : Capability) (host : Host) (m : Machine) : Outcome :=
  match c.handle host (m.log (.called c.symbol)) with
  | (.ok _, m) => (.ok (), m)
  | (.error fault, m) => (.error fault, m.log (.aborted c.symbol fault))

def enter (c : Capability) (m : Machine) : Outcome := c.call m.services.installed m

end CallGate.Capability
