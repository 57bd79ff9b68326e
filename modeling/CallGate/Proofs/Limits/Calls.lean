import CallGate.Memory.Reserve
import CallGate.Proofs.Calls.Effect
import CallGate.Proofs.Limits.Cursor

/-! Guest calls with every limit checked.

Whatever a guest puts into registers and memory, no operation on the way of a call is out of its limits:
a checked call is never stopped, and comes to what the call comes to. -/

namespace CallGate.Checked

def puts (s : Services) (host : Host) (data : ByteArray) (size : UInt32) : Checked Services := do
  let s := if size.toNat > data.size then s.log (.truncated data.size size.toNat) else s
  let emitted ← slice data 0 (min size.toNat data.size)
  if emitted.size = 0 then return s
  else match s.write host.sink emitted with
    | (.ok _, s) => return s
    | (.error reason, s) => return s.log (.dropped emitted.size reason)

def store (m : Machine) (t : Scalar) (p : Pointer) (value : t.Value) : Checked Outcome := do
  match ← write m.memory t p.address value with
  | .ok memory => return (.ok (), { m with memory })
  | .error fault => return (.error fault, m)

def serve (host : Host) (m : Machine) : (c : Capability) → Arguments c.params → Checked Outcome
  | .itemInputs, .cons out .nil =>
    let (held, services) := m.services.itemInputs host
    store { m with services } .u32 out held
  | .cameraInputs, .cons xOut (.cons yOut .nil) => do
    let (axes, services) := m.services.cameraInputs host
    match ← store { m with services } .f32 xOut axes.x with
    | (.ok _, m) => store m .f32 yOut axes.y
    | (.error fault, m) => return (.error fault, m)
  | .puts, .cons text (.cons size .nil) => do
    if size = 0 then return (.ok (), m)
    else match ← bytes m.memory text.address size with
      | .ok data =>
        let services ← puts m.services host data size
        return (.ok (), { m with services })
      | .error fault => return (.error fault, m)

def handle (c : Capability) (host : Host) (m : Machine) : Checked Outcome := do
  match ← decode m.registers m.memory c.params with
  | .ok arguments => serve host m c arguments
  | .error fault => return (.error fault, m)

def call (c : Capability) (host : Host) (m : Machine) : Checked Outcome := do
  match ← handle c host (m.log (.called c.symbol)) with
  | (.ok _, m) => return (.ok (), m)
  | (.error fault, m) => return (.error fault, m.log (.aborted c.symbol fault))

def run (route : Route) (c : Capability) (host : Host) (m : Machine) : Checked Outcome :=
  match route with
  | .handler => handle c host m
  | .call => call c host m
  | .entry => call c m.services.installed m

theorem puts_eq (s : Services) (host : Host) (data : ByteArray) (size : UInt32) :
    puts s host data size = .ok (s.puts host data size) := by
  have emitted : slice data 0 (min size.toNat data.size)
      = .ok (data.extract 0 (min size.toNat data.size)) :=
    slice_of_le (Nat.zero_le _) (Nat.min_le_right _ _)
  rw [puts, emitted, Services.puts]
  simp only [ok_bind, pure_eq]
  split
  · rfl
  · generalize Services.write _ _ _ = written
    obtain ⟨_ | _, after⟩ := written <;> rfl

theorem store_eq (m : Machine) (t : Scalar) (p : Pointer) (value : t.Value) :
    store m t p value = .ok (m.store t p value) := by
  rw [store, write_eq, ok_bind, Machine.store]
  cases m.memory.write t p.address value <;> rfl

theorem serve_eq (host : Host) (m : Machine) (c : Capability) (arguments : Arguments c.params) :
    serve host m c arguments = .ok (Capability.serve host m c arguments) := by
  cases c with
  | itemInputs =>
      obtain _ | ⟨out, _ | _⟩ := arguments
      exact store_eq _ _ _ _
  | cameraInputs =>
      obtain _ | ⟨xOut, _ | ⟨yOut, _ | _⟩⟩ := arguments
      rw [serve, Capability.serve]
      simp only [store_eq, ok_bind]
      generalize Machine.store _ _ _ _ = stored
      obtain ⟨_ | _, after⟩ := stored <;> rfl
  | puts =>
      obtain _ | ⟨text, _ | ⟨size, _ | _⟩⟩ := arguments
      rw [serve, Capability.serve, bytes_eq, ok_bind, Memory.text]
      split
      · rfl
      · cases m.memory.bytes text.address size with
        | ok data => simp only [puts_eq, ok_bind, pure_eq]
        | error fault => rfl

theorem handle_eq (c : Capability) (host : Host) (m : Machine) :
    handle c host m = .ok (c.handle host m) := by
  have few : c.params.length ≤ 6 := by cases c <;> decide
  rw [handle, decode_eq _ _ few, ok_bind, Capability.handle]
  cases O32.decode m.registers m.memory c.params with
  | ok arguments => exact serve_eq host m c arguments
  | error fault => rfl

theorem call_eq (c : Capability) (host : Host) (m : Machine) :
    call c host m = .ok (c.call host m) := by
  rw [call, handle_eq, ok_bind, Capability.call]
  obtain ⟨_ | _, after⟩ := c.handle host (m.log (.called c.symbol)) <;> rfl

theorem run_eq (route : Route) (c : Capability) (host : Host) (m : Machine) :
    run route c host m = .ok (route.run c host m) := by
  cases route with
  | handler => exact handle_eq c host m
  | call => exact call_eq c host m
  | entry => exact call_eq c m.services.installed m

/-- Nothing that a guest can ask for is out of limits, whatever is in registers and memory, wherever the
image lies and however long it is. Every call by every route, every native text, every access and every
decoding of up to six arguments is completed with all checks on, and so is every run of fetches whose
slots stay below `2 ^ 30`; and each comes to what it comes to without checks. -/
theorem guest_within_limits :
    (∀ (route : Route) (c : Capability) (host : Host) (m : Machine),
      run route c host m = .ok (route.run c host m)) ∧
    (∀ (s : Services) (host : Host) (data : ByteArray) (size : UInt32),
      puts s host data size = .ok (s.puts host data size)) ∧
    (∀ (m : Memory) (address length : UInt32), ∃ found, resolve m address length = .ok found ∧
      ∀ range, found = .ok range → range.start ≤ range.stop ∧ range.stop ≤ m.size ∧
        range.stop - range.start = length.toNat) ∧
    (∀ (m : Memory) (address length : UInt32),
      bytes m address length = .ok (m.bytes address length) ∧
      ∀ value, overwrite m address length value = .ok (m.overwrite address length value)) ∧
    (∀ (m : Memory) (t : Scalar) (address : UInt32),
      read m t address = .ok (m.read t address) ∧
      ∀ value, write m t address value = .ok (m.write t address value)) ∧
    (∀ (regs : Registers) (m : Memory) (ks : List Fetch),
      ((O32.cursor regs m).fetchEach ks {}).2.slot ≤ 0x40000000 →
        fetchEach regs m ks {} = .ok (((O32.cursor regs m).fetchEach ks {}).1,
          .ofWide ((O32.cursor regs m).fetchEach ks {}).2)) ∧
    (∀ (regs : Registers) (m : Memory) (ts : List ArgType),
      ts.length ≤ 6 → decode regs m ts = .ok (O32.decode regs m ts)) := by
  refine ⟨run_eq, puts_eq, resolve_range, ?_, ?_, ?_, ?_⟩
  · intro m address length
    exact ⟨bytes_eq m address length, overwrite_eq m address length⟩
  · intro m t address
    exact ⟨read_eq m t address, write_eq m t address⟩
  · intro regs m ks below
    exact fetchEach_eq below
  · intro regs m ts few
    exact decode_eq regs m few

/-- An image that runs past the end of the address space, and integer registers that all point into its
last word there. -/
def wild : Machine where
  registers := { gpr := Vector.replicate 32 0xfffffffe }
  memory := Memory.flat 0xfffffff0 0x40

theorem guest_within_limits_wild :
    run .entry .puts Host.standard wild = .ok (.error (.outOfBounds 0xfffffffe 0xfffffffe),
      (Route.entry.run .puts Host.standard wild).2) ∧
    ((O32.cursor wild.registers wild.memory).fetchEach
      [.single, .doubleWord, .word, .doubleWord] {}).2.slot ≤ 0x40000000 ∧
    (fetchEach wild.registers wild.memory [.single, .doubleWord, .word, .doubleWord] {}).isOk = true ∧
    [ArgType.u64, .u32, .f32, .i64, .ptr, .i32].length ≤ 6 ∧
    (decode wild.registers wild.memory [.u64, .u32, .f32, .i64, .ptr, .i32]).isOk = true := by
  obtain ⟨calls, -, -, -, -, fetches, decodes⟩ := guest_within_limits
  have below : ((O32.cursor wild.registers wild.memory).fetchEach
      [.single, .doubleWord, .word, .doubleWord] {}).2.slot ≤ 0x40000000 := by decide
  refine ⟨?_, below, ?_, by decide, ?_⟩
  · rw [calls]
    rfl
  · rw [fetches _ _ _ below]
    rfl
  · rw [decodes _ _ _ (by decide)]
    rfl

end CallGate.Checked
