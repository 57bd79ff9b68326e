import CallGate.Proofs.Services.Capturing

/-! The text of a guest call: the bytes that its argument words name, as they are in memory at that moment.
A call that does not fault sends them to the sink of the host that serves it, whole and at once. -/

namespace CallGate

open Services

def Machine.namedText (m : Machine) : List UInt8 :=
  m.memory.window (m.memory.offset m.firstWord) m.secondWord.toNat

/-- What a call emits: the text that it names, unless it faults. -/
def Capability.text (m : Machine) (c : Capability) : List UInt8 :=
  if c = puts ∧ c.fault? m.memory m.firstWord m.secondWord = none then m.namedText else []

variable {i : Nat} {text : List UInt8}

theorem Capability.text_of_silent {c : Capability} (silent : c ≠ puts) (m : Machine) : c.text m = [] := by
  rw [Capability.text, if_neg]
  intro spoken
  exact silent spoken.1

theorem Capability.served_puts (host : Host) (m : Machine) :
    (puts.text m = [] ∧ puts.served host m = m.services) ∨
    ∃ data : ByteArray, puts.text m = data.data.toList.take m.secondWord.toNat ∧
      puts.served host m = m.services.puts host data m.secondWord := by
  by_cases empty : m.secondWord = 0
  · left
    simp [Capability.text, Machine.namedText, Memory.window, served, empty]
  · by_cases inside : m.memory.Contains m.firstWord m.secondWord
    · obtain ⟨data, done, list⟩ := Memory.bytes_of_contains inside
      have short : data.data.toList.length ≤ m.secondWord.toNat := by
        simp [list, Memory.window]
      refine .inr ⟨data, ?_, ?_⟩
      · rw [List.take_of_length_le short, list]
        simp [Capability.text, fault?, inside, Machine.namedText]
      · simp only [served, if_neg empty, done]
    · left
      simp [Capability.text, fault?, served, Memory.bytes_of_outside, inside, empty]

theorem Capability.capturing_served {m : Machine} (capturing : Capturing i text m.services)
    (c : Capability) (host : Host) :
    Capturing i (text ++ portion i host.sink (c.text m)) (c.served host m) := by
  have silent {after : Services} (quiet : c.text m = []) (same : after.sinks = m.services.sinks) :
      Capturing i (text ++ portion i host.sink (c.text m)) after := by
    rw [quiet, portion, ite_self, List.append_nil]
    exact capturing.congr same
  cases c with
  | itemInputs | cameraInputs => exact silent rfl rfl
  | puts =>
      rcases Capability.served_puts host m with ⟨quiet, same⟩ | ⟨data, spoken, same⟩
      · exact silent quiet (congrArg Services.sinks same)
      · rw [spoken, same]
        exact capturing.puts host data m.secondWord

theorem Route.capturing_run {m : Machine} (capturing : Capturing i text m.services) (route : Route)
    (c : Capability) (host : Host) :
    Capturing i (text ++ portion i (route.server host m).sink (c.text m))
      (route.run c host m).2.services := by
  apply Route.services_run
  · intro s entry before
    exact before.congr rfl
  · rintro found (rfl | rfl)
    · exact c.capturing_served capturing _
    · exact c.capturing_served (m := m.log (.called c.symbol)) (capturing.congr rfl) _

def Sink.told (sink : Sink) (text : List UInt8) : Sink :=
  if text = [] then sink else (sink.write ⟨text.toArray⟩).2

theorem Services.sink_puts (s : Services) (host : Host) (data : ByteArray) (size : UInt32) (i : Nat) :
    (s.puts host data size).sinks.get i
      = (s.sinks.get i).told (portion i host.sink (data.data.toList.take size.toNat)) := by
  rw [sinks_puts, ← emitted_toList]
  by_cases nothing : (emitted data size).data.toList = []
  · have empty : (emitted data size).size = 0 := congrArg List.length nothing
    rw [if_pos empty, nothing, portion, ite_self, Sink.told, if_pos rfl]
  · have some : (emitted data size).size ≠ 0 := by
      intro empty
      exact nothing (List.eq_nil_of_length_eq_zero empty)
    rw [if_neg some]
    by_cases here : host.sink = i
    · subst here
      rw [Table.get_set_same, portion, if_pos rfl, Sink.told, if_neg nothing, Array.toArray_toList]
    · rw [Table.get_set_other _ (Ne.symm here), portion, if_neg here, Sink.told, if_pos rfl]

theorem Capability.sink_served (c : Capability) (host : Host) (m : Machine) (i : Nat) :
    (c.served host m).sinks.get i
      = (m.services.sinks.get i).told (portion i host.sink (c.text m)) := by
  have silent {after : Services} (quiet : c.text m = []) (same : after.sinks = m.services.sinks) :
      after.sinks.get i = (m.services.sinks.get i).told (portion i host.sink (c.text m)) := by
    rw [quiet, portion, ite_self, same, Sink.told, if_pos rfl]
  cases c with
  | itemInputs | cameraInputs => exact silent rfl rfl
  | puts =>
      rcases Capability.served_puts host m with ⟨quiet, same⟩ | ⟨data, spoken, same⟩
      · exact silent quiet (congrArg Services.sinks same)
      · rw [spoken, same, Services.sink_puts]

theorem Route.sink_run (route : Route) (c : Capability) (host : Host) (m : Machine) (i : Nat) :
    (route.run c host m).2.services.sinks.get i
      = (m.services.sinks.get i).told (portion i (route.server host m).sink (c.text m)) := by
  apply Route.services_run (P := fun s => s.sinks.get i = _)
  · intro s entry before
    exact before
  · rintro found (rfl | rfl)
    · exact c.sink_served _ _ i
    · exact c.sink_served _ (m.log (.called c.symbol)) i

theorem Route.isOk_run (route : Route) (c : Capability) (host : Host) (m : Machine) :
    (route.run c host m).1.isOk = true ↔ c.fault? m.memory m.firstWord m.secondWord = none := by
  rw [(route.run_eq c host m).1]
  cases c.fault? m.memory m.firstWord m.secondWord <;> simp [Capability.resultOf, Except.isOk, Except.toBool]

end CallGate
