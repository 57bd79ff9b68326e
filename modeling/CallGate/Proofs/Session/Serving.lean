import CallGate.Proofs.Calls.Dispatch
import CallGate.Proofs.Calls.Text
import CallGate.Proofs.Services.Emission
import CallGate.Proofs.Session.Guest
import CallGate.Proofs.Session.Requests

/-! What a step comes to that goes to a host.

A guest call runs the handler of its capability on the host, between the messages of its route; what the
handler does is told by the argument words and by the services as they are at that moment (`Serves`). A
native call is answered by the host's input source or puts its text into the host's sink (`Native`). -/

namespace CallGate

namespace Services

/-- What the input source of a host has to say as it is now. -/
def held (s : Services) (host : Host) : UInt32 := ((s.inputs.get host.input).pollButtons s.mode).1

def deflected (s : Services) (host : Host) : Axes := ((s.inputs.get host.input).pollAxes s.mode).1

end Services

namespace Session

open Services

variable {s : Session}

/-- The step runs the handler of `c` on `host` and adds what is told on the route. It is answered by the
fault that the handler comes to, writes to memory what the host's input source says and sends the text
that the guest names to the host's sink. -/
structure Serves (s : Session) (x : Step) (route : Route) (c : Capability) (host : Host) : Prop where
  handled : ∃ events : Array Event, announced events.toList = [] ∧
    (c.handle host s.machine).2.services.journal = s.services.journal ++ events ∧
    s.step x = s.answerOutcome ((c.handle host s.machine).1,
      (c.handle host s.machine).2.withJournal
        (s.services.journal ++ route.told c (c.handle host s.machine).1 events))
  messages : announced (s.step x).2.services.journal.toList
    = announced s.services.journal.toList
      ++ route.announce c (c.fault? s.memory s.machine.firstWord s.machine.secondWord)
  reply : (s.step x).1
    = answered (c.fault? s.memory s.machine.firstWord s.machine.secondWord)
  registers : (s.step x).2.registers = s.registers
  memory : (s.step x).2.memory = Edit.run s.memory (c.edits host s.machine)
  sinks : ∀ i, (s.step x).2.services.sinks.get i
    = (s.services.sinks.get i).told (portion i host.sink (c.text s.machine))
  steady : Steady s.services (s.step x).2.services

theorem serves_of_run (route : Route) (host : Host) {x : Step} {c : Capability}
    (made : s.step x = s.answerOutcome (route.run c host s.machine)) :
    Serves s x route c (route.server host s.machine) := by
  obtain ⟨events, silent, journal, whole⟩ := route.run_told c host s.machine
  obtain ⟨told, goesOn, messages⟩ := route.announced_run c host s.machine
  obtain ⟨result, registers, memory⟩ := route.run_eq c host s.machine
  have after : (s.step x).2.machine = (route.run c host s.machine).2 := by
    rw [made, answerOutcome_snd]
  have services : (s.step x).2.services = (route.run c host s.machine).2.services :=
    congrArg Machine.services after
  refine ⟨⟨events, silent, journal, ?_⟩, ?_, ?_, ?_, ?_, ?_, ?_⟩
  · rw [made, whole]
    rfl
  · rw [services, goesOn, Array.toList_append, announced_append, messages]
    rfl
  · rw [made]
    exact answerOutcome_fst result
  · exact (congrArg Machine.registers after).trans registers
  · exact (congrArg Machine.memory after).trans memory
  · intro i
    rw [services]
    exact route.sink_run c host s.machine i
  · rw [services]
    exact route.steady_run c host s.machine

theorem Serves.stored {x : Step} {route : Route} {host : Host} {address : UInt32}
    (serves : Serves s x route .itemInputs host) (pointer : s.machine.firstWord = address)
    (inside : s.memory.Contains address 4) :
    (s.step x).2.memory.readWord address = .ok (s.services.held host) := by
  rw [serves.memory, Capability.edits, pointer]
  exact Edit.read_apply_typed (t := .u32) inside _

structure Polls (s : Session) (x : Step) (reply : Reply) (i : Nat) (told : Event) : Prop
    extends HostsKept s (s.step x).2 where
  reply : (s.step x).1 = .ok reply
  polled : Polled i told s.services (s.step x).2.services

theorem polls_of_step {x : Step} {reply : Reply} {i : Nat} {told : Event} {services : Services}
    (made : s.step x = (.ok reply, s.withServices services))
    (polled : Polled i told s.services services) : Polls s x reply i told := by
  refine ⟨?_, ?_, ?_⟩
  · rw [made]
    exact hostsKept_withServices s services
  · rw [made]
  · rw [made]
    exact polled

theorem polls_buttons {x : Step} {host : Host}
    (made : s.step x = s.answerButtons (s.services.pollButtons host.input)) :
    Polls s x (.scalar .u32 (s.services.held host)) host.input
      (.buttonsPolled host.input (s.services.held host)) :=
  polls_of_step made (s.services.polled_pollButtons host.input)

theorem polls_axes {x : Step} {host : Host}
    (made : s.step x = s.answerAxes (s.services.pollAxes host.input)) :
    Polls s x (.axes (s.services.deflected host)) host.input
      (.axesPolled host.input (s.services.deflected host)) :=
  polls_of_step made (s.services.polled_pollAxes host.input)

/-- The steps are the native forms of the capabilities on `host`: two polls of its input source, which is
a controller with these buttons and sticks or a device, and texts for its sink, each cut to its size and
offered once. -/
structure Native (s : Session) (buttons camera : Step) (text : ByteArray → UInt32 → Step)
    (host : Host) : Prop where
  buttons : Polls s buttons (.scalar .u32 (s.services.held host)) host.input
    (.buttonsPolled host.input (s.services.held host))
  camera : Polls s camera (.axes (s.services.deflected host)) host.input
    (.axesPolled host.input (s.services.deflected host))
  controller : ∀ c, s.services.controller? host.input = some c →
    s.services.held host = c.buttons ∧ s.services.deflected host = c.cameraAxes s.services.mode
  text : ∀ data size, (s.step (text data size)).1 = .ok .done ∧
    HostsKept s (s.step (text data size)).2 ∧
    Emission (Event.truncation data.size size.toNat) host.sink (emitted data size) s.services
      (s.step (text data size)).2.services

theorem native_of_steps {buttons camera : Step} {text : ByteArray → UInt32 → Step} {host : Host}
    (first : s.step buttons = s.answerButtons (s.services.itemInputs host))
    (second : s.step camera = s.answerAxes (s.services.cameraInputs host))
    (third : ∀ data size, s.step (text data size)
      = (s.withServices (s.services.puts host data size)).answer .done) :
    Native s buttons camera text host := by
  refine ⟨polls_buttons first, polls_axes second, ?_, ?_⟩
  · intro c present
    exact ⟨buttons_of_controller present, axes_of_controller present⟩
  · intro data size
    rw [third, answer_snd, services_withServices]
    exact ⟨rfl, hostsKept_withServices s (s.services.puts host data size),
      emission_puts s.services host data size⟩

end Session

end CallGate
