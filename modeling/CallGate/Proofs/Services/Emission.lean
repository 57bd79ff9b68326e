import CallGate.Proofs.Limits.Calls
import CallGate.Proofs.Services.Steady

/-! What `puts` tells and writes, for any sink.

A text goes through three stages: it is cut to the size asked for, with a warning if it is too short; what
is left of it is written once, unless it is empty; and a refusal is followed by another warning. The
journal holds these events in this order and no others (`journal_puts`). A guest's text is never too
short, as it was found whole in memory before (`untruncated_run`). -/

namespace CallGate

namespace Event

def truncation (available requested : Nat) : List Event :=
  if requested > available then [log (.truncated available requested)] else []

def delivery (sink : Nat) (text : ByteArray) : Except String Unit → List Event
  | .ok _ => [textOffered sink text (.ok ())]
  | .error reason => [textOffered sink text (.error reason), log (.dropped text.size reason)]

end Event

namespace Services

open Event

variable {s : Services}

theorem size_emitted (data : ByteArray) (size : UInt32) :
    (emitted data size).size = min size.toNat data.size := by
  simp [emitted]

/-- A text offered to a sink once, or not at all if it is empty, with a warning ahead of it. -/
structure Emission (warning : List Event) (sink : Nat) (text : ByteArray)
    (before after : Services) : Prop where
  journal : after.journal.toList = before.journal.toList ++ warning
    ++ if text.size = 0 then [] else delivery sink text ((before.sinks.get sink).write text).1
  tried : (after.sinks.get sink).tried
    = (if text.size = 0 then [] else [text]) ++ (before.sinks.get sink).tried
  written : after.sinks.get sink
    = if text.size = 0 then before.sinks.get sink else ((before.sinks.get sink).write text).2
  others : ∀ i, i ≠ sink → after.sinks.get i = before.sinks.get i

theorem journal_warn (s : Services) (data : ByteArray) (size : UInt32) :
    (s.warn data size).journal.toList
      = s.journal.toList ++ truncation data.size size.toNat := by
  unfold warn truncation
  split
  · exact Array.toList_push
  · exact (List.append_nil _).symm

theorem journal_offer (s : Services) (sink : Nat) (text : ByteArray) :
    (s.offer sink text).journal.toList
      = s.journal.toList ++ delivery sink text ((s.sinks.get sink).write text).1 := by
  cases written : (s.sinks.get sink).write text with
  | mk answer after =>
      cases answer with
      | ok => simp [offer, write, written, record, delivery]
      | error reason => simp [offer, write, written, log, record, delivery]

theorem journal_puts (s : Services) (host : Host) (data : ByteArray) (size : UInt32) :
    (s.puts host data size).journal.toList = s.journal.toList
      ++ truncation data.size size.toNat
      ++ if (emitted data size).size = 0 then []
        else delivery host.sink (emitted data size)
          ((s.sinks.get host.sink).write (emitted data size)).1 := by
  rw [puts_eq]
  split
  · rw [journal_warn, List.append_nil]
  · rw [journal_offer, journal_warn, sinks_warn]

theorem tried_write (sink : Sink) (text : ByteArray) :
    (sink.write text).2.tried = text :: sink.tried := by
  cases refused : sink.refusal (text :: sink.tried) <;> simp only [Sink.write, refused]

theorem emission_puts (s : Services) (host : Host) (data : ByteArray) (size : UInt32) :
    Emission (truncation data.size size.toNat) host.sink (emitted data size) s
      (s.puts host data size) := by
  have sinks := sinks_puts s host data size
  by_cases empty : (emitted data size).size = 0
  · rw [if_pos empty] at sinks
    exact {
      journal := journal_puts s host data size
      tried := by rw [sinks, if_pos empty, List.nil_append]
      written := by rw [sinks, if_pos empty]
      others := fun _ _ => by rw [sinks] }
  · rw [if_neg empty] at sinks
    have written := congrArg (Table.get · host.sink) sinks
    simp only [Table.get_set_same] at written
    exact {
      journal := journal_puts s host data size
      tried := by rw [written, tried_write, if_neg empty, List.singleton_append]
      written := by rw [written, if_neg empty]
      others := fun _ other => by rw [sinks, Table.get_set_other _ other] }

/-- Cut short and refused as well, a text is warned of twice. -/
example :
    let full : Services := { sinks := { entries := #[Sink.failingAfter 0 "full"] } }
    (full.puts Host.standard ⟨#[7]⟩ 3).journal.toList
      = [.log (.truncated 1 3), .textOffered 0 ⟨#[7]⟩ (.error "full"),
          .log (.dropped 1 "full")] := rfl

def Untruncated (before after : Services) : Prop :=
  ∃ events, after.journal.toList = before.journal.toList ++ events ∧
    ∀ available requested, Event.log (.truncated available requested) ∉ events

theorem Untruncated.trans {a b c : Services} (first : Untruncated a b) (second : Untruncated b c) :
    Untruncated a c := by
  obtain ⟨early, told, none⟩ := first
  obtain ⟨late, toldLater, noneLater⟩ := second
  refine ⟨early ++ late, ?_, ?_⟩
  · rw [toldLater, told, List.append_assoc]
  · intro available requested member
    rcases List.mem_append.mp member with earlier | later
    · exact none available requested earlier
    · exact noneLater available requested later

theorem untruncated_refl (s : Services) : Untruncated s s :=
  ⟨[], (List.append_nil _).symm, fun _ _ => List.not_mem_nil⟩

theorem untruncated_log (s : Services) {entry : LogEntry}
    (other : ∀ available requested, entry ≠ .truncated available requested) :
    Untruncated s (s.log entry) := by
  refine ⟨[Event.log entry], Array.toList_push, ?_⟩
  intro available requested member
  exact other available requested (Event.log.inj (List.mem_singleton.mp member)).symm

theorem truncated_not_mem_delivery (sink : Nat) (text : ByteArray) (answer : Except String Unit)
    (available requested : Nat) :
    Event.log (.truncated available requested) ∉ delivery sink text answer := by
  cases answer <;> simp [delivery]

theorem untruncated_puts (s : Services) (host : Host) {data : ByteArray} {size : UInt32}
    (whole : size.toNat ≤ data.size) : Untruncated s (s.puts host data size) := by
  have fits : truncation data.size size.toNat = [] := if_neg (Nat.not_lt.mpr whole)
  have told := journal_puts s host data size
  rw [fits, List.append_nil] at told
  refine ⟨_, told, ?_⟩
  intro available requested
  split
  · exact List.not_mem_nil
  · exact truncated_not_mem_delivery _ _ _ available requested

end Services

open Services

theorem Capability.untruncated_served (host : Host) (m : Machine) :
    Untruncated m.services (puts.served host m) := by
  simp only [served]
  split
  · exact untruncated_refl _
  · by_cases inside : m.memory.Contains m.firstWord m.secondWord
    · obtain ⟨data, done, list⟩ := Memory.bytes_of_contains inside
      have whole : m.secondWord.toNat = data.size := by
        have length := congrArg List.length list
        simpa [Memory.window] using length.symm
      simp only [done]
      exact untruncated_puts _ _ (Nat.le_of_eq whole)
    · simp only [Memory.bytes_of_outside inside]
      exact untruncated_refl _

theorem Route.untruncated_run (route : Route) (host : Host) (m : Machine) :
    Untruncated m.services (route.run .puts host m).2.services := by
  have handle (m : Machine) (host : Host) :
      Untruncated m.services (Capability.puts.handle host m).2.services := by
    rw [Capability.handle_eq]
    exact Capability.untruncated_served host m
  have call (host : Host) :
      Untruncated m.services (Capability.puts.call host m).2.services := by
    have called : Untruncated m.services (m.log (.called Capability.puts.symbol)).services :=
      m.services.untruncated_log (by simp)
    have handled := called.trans (handle _ host)
    rw [Capability.call_eq]
    split
    · exact handled
    · exact handled.trans (untruncated_log _ (by simp))
  cases route with
  | handler => exact handle m host
  | call => exact call host
  | entry => exact call m.services.installed

/-- Whatever the sink does, `puts` comes back, with the first bytes written once and the warnings told
in their order. -/
theorem Services.puts_writes_once :
    (∀ (s : Services) (host : Host) (data : ByteArray) (size : UInt32),
      Checked.puts s host data size = .ok (s.puts host data size) ∧
      ∃ text : ByteArray,
        text.size = min size.toNat data.size ∧
        text.data.toList = data.data.toList.take (min size.toNat data.size) ∧
        Emission (Event.truncation data.size size.toNat) host.sink text s (s.puts host data size)) ∧
    ∀ (route : Route) (host : Host) (m : Machine),
      Untruncated m.services (route.run .puts host m).2.services := by
  refine ⟨?_, Route.untruncated_run⟩
  intro s host data size
  refine ⟨Checked.puts_eq s host data size, emitted data size, size_emitted data size, ?_,
    emission_puts s host data size⟩
  rw [emitted_toList]
  exact List.take_eq_take_min

end CallGate
