import CallGate.Proofs.Calls.Effect

/-! What a capability leaves of the services: the camera mode, the installed host, every controller, and
all that the journal already tells. A poll only counts on in a device, and text only reaches a sink. -/

namespace CallGate

namespace Services

structure Steady (before after : Services) : Prop where
  rawMode : after.rawMode = before.rawMode
  installed : after.installed = before.installed
  controller : ∀ i, (after.inputs.get i).controller? = (before.inputs.get i).controller?
  journal : before.journal.toList <+: after.journal.toList

theorem Steady.refl (s : Services) : Steady s s := ⟨rfl, rfl, fun _ => rfl, List.prefix_rfl⟩

theorem Steady.trans {a b c : Services} (first : Steady a b) (second : Steady b c) : Steady a c where
  rawMode := second.rawMode.trans first.rawMode
  installed := second.installed.trans first.installed
  controller i := (second.controller i).trans (first.controller i)
  journal := first.journal.trans second.journal

theorem Steady.mode {before after : Services} (steady : Steady before after) :
    after.mode = before.mode := congrArg CameraMode.ofRaw steady.rawMode

theorem steady_record (s : Services) (e : Event) : Steady s (s.record e) := by
  refine ⟨rfl, rfl, fun _ => rfl, ?_⟩
  simp [record]

theorem steady_log (s : Services) (entry : LogEntry) : Steady s (s.log entry) := s.steady_record _

theorem steady_setInput (s : Services) (i : Nat) {source : InputSource}
    (same : source.controller? = (s.inputs.get i).controller?) :
    Steady s { s with inputs := s.inputs.set i source } := by
  refine ⟨rfl, rfl, ?_, List.prefix_rfl⟩
  intro j
  by_cases here : j = i
  · subst here
    simp only [Table.get_set_same, same]
  · simp only [Table.get_set_other _ here]

theorem pollButtons_controller (mode : CameraMode) (source : InputSource) :
    (source.pollButtons mode).2.controller? = source.controller? := by
  cases source <;> rfl

theorem pollAxes_controller (mode : CameraMode) (source : InputSource) :
    (source.pollAxes mode).2.controller? = source.controller? := by
  cases source <;> rfl

theorem steady_pollButtons (s : Services) (i : Nat) : Steady s (s.pollButtons i).2 :=
  (s.steady_setInput i (pollButtons_controller _ _)).trans (steady_record _ _)

theorem steady_pollAxes (s : Services) (i : Nat) : Steady s (s.pollAxes i).2 :=
  (s.steady_setInput i (pollAxes_controller _ _)).trans (steady_record _ _)

structure Polled (i : Nat) (told : Event) (before after : Services) : Prop
    extends Steady before after where
  noted : after.journal = before.journal.push told
  sinks : after.sinks = before.sinks
  others : ∀ j, j ≠ i → after.inputs.get j = before.inputs.get j

theorem polled_pollButtons (s : Services) (i : Nat) :
    Polled i (.buttonsPolled i (s.pollButtons i).1) s (s.pollButtons i).2 :=
  ⟨s.steady_pollButtons i, rfl, rfl, fun _ other => s.inputs.get_set_other other _⟩

theorem polled_pollAxes (s : Services) (i : Nat) :
    Polled i (.axesPolled i (s.pollAxes i).1) s (s.pollAxes i).2 :=
  ⟨s.steady_pollAxes i, rfl, rfl, fun _ other => s.inputs.get_set_other other _⟩

theorem steady_write (s : Services) (sink : Nat) (data : ByteArray) :
    Steady s (s.write sink data).2 := by
  have moved : Steady s { s with sinks := s.sinks.set sink ((s.sinks.get sink).write data).2 } :=
    ⟨rfl, rfl, fun _ => rfl, List.prefix_rfl⟩
  exact moved.trans (steady_record _ _)

def warn (s : Services) (data : ByteArray) (size : UInt32) : Services :=
  if size.toNat > data.size then s.log (.truncated data.size size.toNat) else s

def offer (s : Services) (sink : Nat) (text : ByteArray) : Services :=
  match s.write sink text with
  | (.ok _, s) => s
  | (.error reason, s) => s.log (.dropped text.size reason)

def emitted (data : ByteArray) (size : UInt32) : ByteArray :=
  data.extract 0 (min size.toNat data.size)

theorem puts_eq (s : Services) (host : Host) (data : ByteArray) (size : UInt32) :
    s.puts host data size =
      if (emitted data size).size = 0 then s.warn data size
      else (s.warn data size).offer host.sink (emitted data size) := rfl

theorem emitted_toList (data : ByteArray) (size : UInt32) :
    (emitted data size).data.toList = data.data.toList.take size.toNat := by
  simp [emitted]

theorem steady_warn (s : Services) (data : ByteArray) (size : UInt32) :
    Steady s (s.warn data size) := by
  unfold warn
  split
  · exact steady_log _ _
  · exact Steady.refl s

theorem steady_offer (s : Services) (sink : Nat) (text : ByteArray) :
    Steady s (s.offer sink text) := by
  have wrote := s.steady_write sink text
  unfold offer
  split
  · next done =>
    rwa [done] at wrote
  · next done =>
    rw [done] at wrote
    exact wrote.trans (steady_log _ _)

theorem steady_puts (s : Services) (host : Host) (data : ByteArray) (size : UInt32) :
    Steady s (s.puts host data size) := by
  rw [puts_eq]
  split
  · exact steady_warn _ _ _
  · exact (s.steady_warn data size).trans (steady_offer _ _ _)

theorem sinks_warn (s : Services) (data : ByteArray) (size : UInt32) :
    (s.warn data size).sinks = s.sinks := by
  unfold warn
  split <;> rfl

theorem sinks_offer (s : Services) (sink : Nat) (text : ByteArray) :
    (s.offer sink text).sinks = s.sinks.set sink ((s.sinks.get sink).write text).2 := by
  cases written : (s.sinks.get sink).write text with
  | mk answer after =>
      cases answer with
      | ok => simp only [offer, write, written, record]
      | error reason => simp only [offer, write, written, log, record]

theorem sinks_puts (s : Services) (host : Host) (data : ByteArray) (size : UInt32) :
    (s.puts host data size).sinks =
      if (emitted data size).size = 0 then s.sinks
      else s.sinks.set host.sink ((s.sinks.get host.sink).write (emitted data size)).2 := by
  rw [puts_eq]
  split
  · exact sinks_warn _ _ _
  · rw [sinks_offer, sinks_warn]

theorem inputs_puts (s : Services) (host : Host) (data : ByteArray) (size : UInt32) :
    (s.puts host data size).inputs = s.inputs := by
  have warned : (s.warn data size).inputs = s.inputs := by
    unfold warn
    split <;> rfl
  have offered (s : Services) (sink : Nat) (text : ByteArray) : (s.offer sink text).inputs = s.inputs := by
    cases written : (s.sinks.get sink).write text with
    | mk answer after =>
        cases answer with
        | ok => simp only [offer, write, written, record]
        | error reason => simp only [offer, write, written, log, record]
  rw [puts_eq]
  split
  · exact warned
  · rw [offered, warned]

end Services

open Services

theorem Capability.steady_served (c : Capability) (host : Host) (m : Machine) :
    Steady m.services (c.served host m) := by
  cases c with
  | itemInputs => exact steady_pollButtons _ _
  | cameraInputs => exact steady_pollAxes _ _
  | puts =>
      simp only [served]
      split
      · exact Steady.refl _
      · split
        · exact steady_puts _ _ _ _
        · exact Steady.refl _

theorem Route.steady_run (route : Route) (c : Capability) (host : Host) (m : Machine) :
    Steady m.services (route.run c host m).2.services := by
  apply Route.services_run
  · intro s entry before
    exact before.trans (s.steady_log entry)
  · rintro found (rfl | rfl)
    · exact c.steady_served _ _
    · exact (m.services.steady_log _).trans (c.steady_served _ (m.log (.called c.symbol)))

end CallGate
