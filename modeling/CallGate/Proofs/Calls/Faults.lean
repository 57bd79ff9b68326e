import CallGate.Proofs.Calls.Effect

/-! The faults of a guest call.

A call faults on a pointer that is out of bounds and on nothing else. Nothing has reached a sink by
then, and the one thing that may have been written is the first camera axis. -/

namespace CallGate

namespace Capability

variable {c : Capability} {m : Machine} {fault : Fault}

/-- The offsets of the word that a faulting call may have written. -/
def HalfWritten (m : Machine) (c : Capability) (i : Nat) : Prop :=
  c = cameraInputs ∧ m.memory.Contains m.firstWord 4 ∧
    m.memory.offset m.firstWord ≤ i ∧ i < m.memory.offset m.firstWord + 4

instance (m : Machine) (c : Capability) (i : Nat) : Decidable (HalfWritten m c i) :=
  inferInstanceAs (Decidable (_ ∧ _ ∧ _ ∧ _))

theorem sinks_of_fault (faults : c.fault? m.memory m.firstWord m.secondWord = some fault)
    (host : Host) : (c.served host m).sinks = m.services.sinks := by
  cases c with
  | itemInputs => rfl
  | cameraInputs => rfl
  | puts =>
      simp only [fault?] at faults
      split at faults
      · cases faults
      · next rejected =>
        rw [not_or] at rejected
        simp only [served, if_neg rejected.1, Memory.bytes_of_outside rejected.2]

theorem byte_of_fault (faults : c.fault? m.memory m.firstWord m.secondWord = some fault)
    (host : Host) (i : Nat) :
    (Edit.run m.memory (c.edits host m)).byte i =
      if HalfWritten m c i then
        Scalar.f32.byteAt (m.services.cameraInputs host).1.x (i - m.memory.offset m.firstWord)
      else m.memory.byte i := by
  cases c with
  | itemInputs =>
      have outside : ¬ m.memory.Contains m.firstWord 4 := by
        intro inside
        simp [fault?, inside] at faults
      have whole : ¬ HalfWritten m .itemInputs i := by
        intro half
        cases half.1
      rw [if_neg whole, edits, Edit.run_cons, Edit.apply_of_outside outside, Edit.run_nil]
  | cameraInputs =>
      by_cases first : m.memory.Contains m.firstWord 4
      · have outside : ¬ m.memory.Contains m.secondWord 4 := by
          intro inside
          simp [fault?, first, inside] at faults
        have missed : ¬ (Edit.apply m.memory (.typed .f32 m.firstWord
            (m.services.cameraInputs host).1.x)).Contains m.secondWord 4 := by
          rwa [Edit.apply_contains]
        have kept := Edit.apply_of_outside
          (e := .typed .f32 m.secondWord (m.services.cameraInputs host).1.y) missed
        rw [edits, if_pos first, Edit.run_cons, Edit.run_cons, Edit.run_nil, kept, Edit.byte_apply]
        have half : HalfWritten m .cameraInputs i ↔
            (Edit.typed .f32 m.firstWord (m.services.cameraInputs host).1.x).Covers m.memory i :=
          and_iff_right rfl
        simp only [half]
        rfl
      · have whole : ¬ HalfWritten m .cameraInputs i := by
          intro half
          exact first half.2.1
        rw [if_neg whole, edits, if_neg first, Edit.run_nil]
  | puts =>
      have whole : ¬ HalfWritten m .puts i := by
        intro half
        cases half.1
      rw [if_neg whole, edits, Edit.run_nil]

end Capability

namespace Route

theorem sinks_of_fault {c : Capability} {m : Machine} {fault : Fault}
    (faults : c.fault? m.memory m.firstWord m.secondWord = some fault) (route : Route)
    (host : Host) : (route.run c host m).2.services.sinks = m.services.sinks := by
  apply Route.services_run (P := fun s => s.sinks = m.services.sinks)
  · intro s entry before
    exact before
  · rintro found (rfl | rfl)
    · exact Capability.sinks_of_fault faults _
    · exact Capability.sinks_of_fault (m := m.log (.called c.symbol)) faults _

/-- A call by any route faults exactly as its two argument words say, whatever the host, the sinks and
the other registers. On a fault registers and sinks are as before, and so is every byte of memory, but
for the first camera axis where only the second pointer is out of bounds. -/
theorem faults_exactly (route : Route) (c : Capability) (host : Host) (m : Machine) :
    match c.fault? m.memory m.firstWord m.secondWord with
    | none => (route.run c host m).1 = .ok ()
    | some fault =>
      (route.run c host m).1 = .error fault ∧
      (route.run c host m).2.registers = m.registers ∧
      (route.run c host m).2.services.sinks = m.services.sinks ∧
      (route.run c host m).2.memory.base = m.memory.base ∧
      (route.run c host m).2.memory.size = m.memory.size ∧
      ∀ i, (route.run c host m).2.memory.byte i =
        if Capability.HalfWritten m c i then
          Scalar.f32.byteAt (m.services.cameraInputs (route.server host m)).1.x
            (i - m.memory.offset m.firstWord)
        else m.memory.byte i := by
  obtain ⟨result, registers, memory⟩ := route.run_eq c host m
  split
  · next sound => rw [result, sound]; rfl
  · next fault faults =>
    have bounds := Edit.run_bounds m.memory (c.edits (route.server host m) m)
    rw [result, faults, memory]
    exact ⟨rfl, registers, sinks_of_fault faults route host, bounds.1, bounds.2,
      Capability.byte_of_fault faults _⟩

end Route

end CallGate
