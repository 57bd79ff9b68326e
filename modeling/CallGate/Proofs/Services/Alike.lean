import CallGate.Proofs.Services.Steady

/-! Services that differ in their sinks alone.

A sink can only answer a text, and the one trace that its answer leaves is a warning that the text was
dropped. So a capability does the same to services that agree on all but sinks and those warnings. -/

namespace CallGate

/-- An event without the sink's part in it: the text that was offered, and no word of its being
dropped. -/
def Event.sinkless? : Event → Option Event
  | log (.dropped _ _) => none
  | textOffered _ data _ => some (textOffered 0 data (.ok ()))
  | e => some e

namespace Services

def told (s : Services) : List Event := s.journal.toList.filterMap Event.sinkless?

/-- Any sinks, and hosts over any of them, may be behind these services. -/
structure Alike (s t : Services) : Prop where
  rawMode : s.rawMode = t.rawMode
  inputs : s.inputs = t.inputs
  told : s.told = t.told

variable {s t : Services}

theorem Alike.symm (alike : Alike s t) : Alike t s :=
  ⟨alike.rawMode.symm, alike.inputs.symm, alike.told.symm⟩

theorem Alike.trans {a b c : Services} (first : Alike a b) (second : Alike b c) : Alike a c where
  rawMode := first.rawMode.trans second.rawMode
  inputs := first.inputs.trans second.inputs
  told := first.told.trans second.told

theorem Alike.mode (alike : Alike s t) : s.mode = t.mode :=
  congrArg CameraMode.ofRaw alike.rawMode

theorem told_record (s : Services) (e : Event) :
    (s.record e).told = s.told ++ e.sinkless?.toList := by
  cases e' : e.sinkless? <;> simp [told, record, e']

theorem Alike.record (alike : Alike s t) {e f : Event} (same : e.sinkless? = f.sinkless?) :
    Alike (s.record e) (t.record f) where
  rawMode := alike.rawMode
  inputs := alike.inputs
  told := by rw [told_record, told_record, alike.told, same]

theorem Alike.log (alike : Alike s t) (entry : LogEntry) : Alike (s.log entry) (t.log entry) :=
  alike.record rfl

theorem Alike.setMode (alike : Alike s t) (mode : CameraMode) :
    Alike (s.setMode mode) (t.setMode mode) where
  rawMode := rfl
  inputs := alike.inputs
  told := (alike.log _).told

theorem Alike.withInputs (alike : Alike s t) (inputs : Table InputSource) :
    Alike { s with inputs } { t with inputs } := ⟨alike.rawMode, rfl, alike.told⟩

theorem Alike.setController (alike : Alike s t) (i : Nat) (c : Controller) :
    Alike (s.setController i c) (t.setController i c) := by
  rw [Services.setController, alike.inputs]
  exact alike.withInputs _

theorem Alike.addInput (alike : Alike s t) (source : InputSource) :
    (s.addInput source).1 = (t.addInput source).1 ∧
      Alike (s.addInput source).2 (t.addInput source).2 := by
  rw [Services.addInput, alike.inputs]
  exact ⟨rfl, alike.withInputs _⟩

theorem Alike.pollButtons (alike : Alike s t) (i : Nat) :
    (s.pollButtons i).1 = (t.pollButtons i).1 ∧ Alike (s.pollButtons i).2 (t.pollButtons i).2 := by
  have polled : (s.inputs.get i).pollButtons s.mode = (t.inputs.get i).pollButtons t.mode := by
    rw [alike.mode, alike.inputs]
  rw [Services.pollButtons, polled, alike.inputs]
  exact ⟨rfl, (alike.withInputs _).record rfl⟩

theorem Alike.pollAxes (alike : Alike s t) (i : Nat) :
    (s.pollAxes i).1 = (t.pollAxes i).1 ∧ Alike (s.pollAxes i).2 (t.pollAxes i).2 := by
  have polled : (s.inputs.get i).pollAxes s.mode = (t.inputs.get i).pollAxes t.mode := by
    rw [alike.mode, alike.inputs]
  rw [Services.pollAxes, polled, alike.inputs]
  exact ⟨rfl, (alike.withInputs _).record rfl⟩

theorem alike_sinks (s : Services) (sinks : Table Sink) : Alike { s with sinks } s := ⟨rfl, rfl, rfl⟩

theorem alike_dropped (s : Services) (size : Nat) (reason : String) :
    Alike (s.log (.dropped size reason)) s := by
  refine ⟨rfl, rfl, ?_⟩
  rw [Services.log, told_record]
  exact List.append_nil _

theorem alike_write (s : Services) (sink : Nat) (data : ByteArray) :
    Alike (s.write sink data).2 (s.record (.textOffered 0 data (.ok ()))) :=
  (s.alike_sinks _).record rfl

theorem alike_offer (s : Services) (sink : Nat) (text : ByteArray) :
    Alike (s.offer sink text) (s.record (.textOffered 0 text (.ok ()))) := by
  have wrote := s.alike_write sink text
  unfold offer
  split
  · next done =>
    rwa [done] at wrote
  · next done =>
    rw [done] at wrote
    exact (alike_dropped _ _ _).trans wrote

theorem Alike.write (alike : Alike s t) (i j : Nat) (data : ByteArray) :
    Alike (s.write i data).2 (t.write j data).2 :=
  (s.alike_write i data).trans ((alike.record rfl).trans (t.alike_write j data).symm)

theorem Alike.offer (alike : Alike s t) (i j : Nat) (text : ByteArray) :
    Alike (s.offer i text) (t.offer j text) :=
  (s.alike_offer i text).trans ((alike.record rfl).trans (t.alike_offer j text).symm)

theorem Alike.warn (alike : Alike s t) (data : ByteArray) (size : UInt32) :
    Alike (s.warn data size) (t.warn data size) := by
  unfold Services.warn
  split
  · exact alike.log _
  · exact alike

theorem Alike.puts (alike : Alike s t) (host other : Host) (data : ByteArray) (size : UInt32) :
    Alike (s.puts host data size) (t.puts other data size) := by
  rw [puts_eq, puts_eq]
  split
  · exact alike.warn data size
  · exact (alike.warn data size).offer _ _ _

end Services

namespace Machine

structure Alike (m n : Machine) : Prop where
  registers : m.registers = n.registers
  memory : m.memory = n.memory
  services : m.services.Alike n.services

variable {m n : Machine}

theorem Alike.log (alike : Alike m n) (entry : LogEntry) : Alike (m.log entry) (n.log entry) :=
  ⟨alike.registers, alike.memory, alike.services.log entry⟩

theorem Alike.firstWord (alike : Alike m n) : m.firstWord = n.firstWord := by
  rw [Machine.firstWord, alike.registers]
  rfl

theorem Alike.secondWord (alike : Alike m n) : m.secondWord = n.secondWord := by
  rw [Machine.secondWord, alike.registers]
  rfl

end Machine

namespace Capability

variable {m n : Machine} {host other : Host}

theorem fault?_alike (alike : m.Alike n) (c : Capability) :
    c.fault? m.memory m.firstWord m.secondWord = c.fault? n.memory n.firstWord n.secondWord := by
  rw [alike.memory, alike.firstWord, alike.secondWord]

theorem served_alike (alike : m.Alike n) (same : host.input = other.input) (c : Capability) :
    (c.served host m).Alike (c.served other n) := by
  cases c with
  | itemInputs =>
      simp only [served, Services.itemInputs, same]
      exact (alike.services.pollButtons _).2
  | cameraInputs =>
      simp only [served, Services.cameraInputs, same]
      exact (alike.services.pollAxes _).2
  | puts =>
      simp only [served, alike.memory, alike.firstWord, alike.secondWord]
      split
      · exact alike.services
      · split
        · exact alike.services.puts _ _ _ _
        · exact alike.services

theorem edits_alike (alike : m.Alike n) (same : host.input = other.input) (c : Capability) :
    c.edits host m = c.edits other n := by
  cases c with
  | itemInputs =>
      have held := (alike.services.pollButtons other.input).1
      simp only [edits, Services.itemInputs, same, held, alike.firstWord]
  | cameraInputs =>
      have axes := (alike.services.pollAxes other.input).1
      simp only [edits, Services.cameraInputs, same, axes, alike.memory, alike.firstWord,
        alike.secondWord]
  | puts => rfl

theorem handle_alike (alike : m.Alike n) (same : host.input = other.input) (c : Capability) :
    (c.handle host m).1 = (c.handle other n).1 ∧
      (c.handle host m).2.Alike (c.handle other n).2 := by
  rw [handle_eq, handle_eq, fault?_alike alike, edits_alike alike same, alike.memory]
  exact ⟨rfl, alike.registers, rfl, served_alike alike same c⟩

theorem call_alike (alike : m.Alike n) (same : host.input = other.input) (c : Capability) :
    (c.call host m).1 = (c.call other n).1 ∧ (c.call host m).2.Alike (c.call other n).2 := by
  have handled := (handle_alike (alike.log (.called c.symbol)) same c).2
  rw [call_eq, call_eq, fault?_alike alike]
  split
  · exact ⟨rfl, handled⟩
  · exact ⟨rfl, handled.log _⟩

end Capability

/-- No capability, called in any way, tells a guest what its sink did. -/
theorem Route.run_alike {m n : Machine} (alike : m.Alike n) (route : Route) (c : Capability)
    {host other : Host} (same : (route.server host m).input = (route.server other n).input) :
    (route.run c host m).1 = (route.run c other n).1 ∧
      (route.run c host m).2.Alike (route.run c other n).2 := by
  cases route with
  | handler => exact c.handle_alike alike same
  | call => exact c.call_alike alike same
  | entry => exact c.call_alike alike same

end CallGate
