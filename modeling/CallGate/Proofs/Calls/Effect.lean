import CallGate.Capability.Call
import CallGate.Proofs.Memory.Edits

/-! What a guest call comes to, told by its two argument words.

Decoding the arguments of a capability never faults, so a handler's result, its edits of guest memory
and what it asks of the services are functions of memory, services and the low words of two registers
(`handle_eq`). The registers are never written. -/

namespace CallGate

namespace Machine

def firstWord (m : Machine) : UInt32 := m.registers.gpr[4].toUInt32

def secondWord (m : Machine) : UInt32 := m.registers.gpr[5].toUInt32

theorem store_of_contains {m : Machine} {t : Scalar} {address : UInt32}
    (inside : m.memory.Contains address t.length) (v : t.Value) :
    m.store t ⟨address⟩ v
      = (.ok (), { m with memory := Edit.apply m.memory (.typed t address v) }) := by
  obtain ⟨after, done, -⟩ := Memory.write_of_contains inside v
  simp only [store, Edit.apply, Edit.attempt, done]

theorem store_of_outside {m : Machine} {t : Scalar} {address : UInt32}
    (outside : ¬ m.memory.Contains address t.length) (v : t.Value) :
    m.store t ⟨address⟩ v = (.error (.outOfBounds address t.length), m) := by
  simp only [store, Memory.write_of_outside outside]

end Machine

namespace Capability

def fault? (memory : Memory) (p q : UInt32) : Capability → Option Fault
  | itemInputs => if memory.Contains p 4 then none else some (.outOfBounds p 4)
  | cameraInputs =>
    if memory.Contains p 4 then
      if memory.Contains q 4 then none else some (.outOfBounds q 4)
    else some (.outOfBounds p 4)
  | puts => if q = 0 ∨ memory.Contains p q then none else some (.outOfBounds p q)

/-- What a call writes to guest memory, in order. The second camera axis is tried only if the first one
was stored. -/
def edits (host : Host) (m : Machine) : Capability → List Edit
  | itemInputs => [.typed .u32 m.firstWord (m.services.itemInputs host).1]
  | cameraInputs =>
    let axes := (m.services.cameraInputs host).1
    if m.memory.Contains m.firstWord 4 then
      [.typed .f32 m.firstWord axes.x, .typed .f32 m.secondWord axes.y]
    else []
  | puts => []

/-- The services behind a call: those behind the native form, unless a text is out of bounds. -/
def served (host : Host) (m : Machine) : Capability → Services
  | itemInputs => (m.services.itemInputs host).2
  | cameraInputs => (m.services.cameraInputs host).2
  | puts =>
    if m.secondWord = 0 then m.services
    else match m.memory.bytes m.firstWord m.secondWord with
      | .ok data => m.services.puts host data m.secondWord
      | .error _ => m.services

def resultOf : Option Fault → Except Fault Unit
  | none => .ok ()
  | some fault => .error fault

theorem handle_itemInputs (host : Host) (m : Machine) :
    itemInputs.handle host m = Machine.store { m with services := itemInputs.served host m }
      .u32 ⟨m.firstWord⟩ (m.services.itemInputs host).1 := rfl

theorem handle_cameraInputs (host : Host) (m : Machine) :
    cameraInputs.handle host m =
      match Machine.store { m with services := cameraInputs.served host m }
        .f32 ⟨m.firstWord⟩ (m.services.cameraInputs host).1.x with
      | (.ok _, m') => m'.store .f32 ⟨m.secondWord⟩ (m.services.cameraInputs host).1.y
      | (.error fault, m') => (.error fault, m') := rfl

theorem handle_puts (host : Host) (m : Machine) :
    puts.handle host m =
      if m.secondWord = 0 then (.ok (), m)
      else match m.memory.bytes m.firstWord m.secondWord with
        | .ok data => (.ok (), { m with services := m.services.puts host data m.secondWord })
        | .error fault => (.error fault, m) := rfl

/-- A handler at a glance: result, memory and services. -/
theorem handle_eq (c : Capability) (host : Host) (m : Machine) :
    c.handle host m = (resultOf (c.fault? m.memory m.firstWord m.secondWord),
      { m with memory := Edit.run m.memory (c.edits host m), services := c.served host m }) := by
  cases c with
  | itemInputs =>
      rw [handle_itemInputs]
      by_cases inside : m.memory.Contains m.firstWord 4
      · rw [Machine.store_of_contains inside]
        simp only [fault?, if_pos inside]
        rfl
      · rw [Machine.store_of_outside inside]
        simp only [fault?, if_neg inside, edits, Edit.run_cons, Edit.run_nil]
        rw [Edit.apply_of_outside inside]
        rfl
  | cameraInputs =>
      rw [handle_cameraInputs]
      by_cases first : m.memory.Contains m.firstWord 4
      · rw [Machine.store_of_contains first]
        by_cases second : m.memory.Contains m.secondWord 4
        · simp only [fault?, edits, if_pos first, if_pos second]
          exact Machine.store_of_contains ((Edit.apply_contains _ _ _ _).mpr second) _
        · -- the first axis is stored already and leaves the bounds as they were
          have missed : ¬ (Edit.apply m.memory (.typed .f32 m.firstWord
              (m.services.cameraInputs host).1.x)).Contains m.secondWord 4 := by
            rwa [Edit.apply_contains]
          simp only [fault?, edits, if_pos first, if_neg second, Edit.run_cons, Edit.run_nil]
          rw [Edit.apply_of_outside
            (e := .typed .f32 m.secondWord (m.services.cameraInputs host).1.y) missed]
          exact Machine.store_of_outside missed _
      · rw [Machine.store_of_outside first]
        simp only [fault?, edits, if_neg first]
        rfl
  | puts =>
      rw [handle_puts]
      by_cases empty : m.secondWord = 0
      · simp only [fault?, served, edits, empty, if_true, true_or]
        rfl
      · by_cases inside : m.memory.Contains m.firstWord m.secondWord
        · obtain ⟨data, done, -⟩ := Memory.bytes_of_contains inside
          simp only [fault?, served, edits, done, if_neg empty, inside, or_true, if_true]
          rfl
        · simp only [fault?, served, edits, Memory.bytes_of_outside inside, empty, inside, or_self,
            if_false]
          rfl

theorem call_eq (c : Capability) (host : Host) (m : Machine) :
    c.call host m =
      match c.fault? m.memory m.firstWord m.secondWord with
      | none => (.ok (), (c.handle host (m.log (.called c.symbol))).2)
      | some fault =>
        (.error fault, (c.handle host (m.log (.called c.symbol))).2.log (.aborted c.symbol fault)) := by
  have same : c.fault? (m.log (.called c.symbol)).memory (m.log (.called c.symbol)).firstWord
      (m.log (.called c.symbol)).secondWord = c.fault? m.memory m.firstWord m.secondWord := rfl
  rw [call, handle_eq, same]
  cases c.fault? m.memory m.firstWord m.secondWord <;> rfl

end Capability

inductive Route
  | handler | call | entry

namespace Route

/-- The host that serves. An entry point goes by the installed one, whatever host is named. -/
def server (host : Host) (m : Machine) : Route → Host
  | entry => m.services.installed
  | _ => host

def run (route : Route) (c : Capability) (host : Host) (m : Machine) : Outcome :=
  match route with
  | handler => c.handle host m
  | call => c.call host m
  | entry => c.enter m

/-- Logging aside, every route does what the handler does for the host that serves. -/
theorem run_eq (route : Route) (c : Capability) (host : Host) (m : Machine) :
    (route.run c host m).1 = Capability.resultOf (c.fault? m.memory m.firstWord m.secondWord) ∧
    (route.run c host m).2.registers = m.registers ∧
    (route.run c host m).2.memory = Edit.run m.memory (c.edits (route.server host m) m) := by
  have call (host : Host) :
      (c.call host m).1 = Capability.resultOf (c.fault? m.memory m.firstWord m.secondWord) ∧
      (c.call host m).2.registers = m.registers ∧
      (c.call host m).2.memory = Edit.run m.memory (c.edits host m) := by
    have same : c.edits host (m.log (.called c.symbol)) = c.edits host m := by
      cases c <;> rfl
    rw [Capability.call_eq, Capability.handle_eq, same]
    cases c.fault? m.memory m.firstWord m.secondWord with
    | none => exact ⟨rfl, rfl, rfl⟩
    | some fault => exact ⟨rfl, rfl, rfl⟩
  cases route with
  | handler =>
      change (c.handle host m).1 = _ ∧ (c.handle host m).2.registers = _ ∧
        (c.handle host m).2.memory = _
      rw [Capability.handle_eq]
      exact ⟨rfl, rfl, rfl⟩
  | call => exact call host
  | entry => exact call m.services.installed

/-- A property of services that messages keep holds behind a call by any route as soon as it holds of what
is served, with the call announced or not. -/
theorem services_run {P : Services → Prop} (route : Route) (c : Capability) (host : Host) (m : Machine)
    (logs : ∀ s entry, P s → P (s.log entry))
    (serves : ∀ found : Machine, found = m ∨ found = m.log (.called c.symbol) →
      P (c.served (route.server host m) found)) : P (route.run c host m).2.services := by
  have call (host : Host) (announced : P (c.served host (m.log (.called c.symbol)))) :
      P (c.call host m).2.services := by
    rw [Capability.call_eq, Capability.handle_eq]
    split
    · exact announced
    · exact logs _ _ announced
  cases route with
  | handler =>
      change P (c.handle host m).2.services
      rw [Capability.handle_eq]
      exact serves m (.inl rfl)
  | call => exact call host (serves _ (.inr rfl))
  | entry => exact call m.services.installed (serves _ (.inr rfl))

end Route

end CallGate
