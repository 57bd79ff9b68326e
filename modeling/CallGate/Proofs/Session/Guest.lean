import CallGate.Proofs.Session.Parts

/-! The guest's own part of a session: its registers, those it saved, and its memory.

Steps on inputs, sinks and hosts do not touch it (`ServicesOnly`), and neither steps on memory nor guest
calls touch its registers (`RegistersKept`). -/

namespace CallGate.Session

structure ServicesOnly (s after : Session) : Prop where
  registers : after.registers = s.registers
  saved : after.saved = s.saved
  memory : after.memory = s.memory

theorem ServicesOnly.refl (s : Session) : ServicesOnly s s := ⟨rfl, rfl, rfl⟩

theorem servicesOnly_withServices (s : Session) (services : Services) :
    ServicesOnly s (s.withServices services) := ⟨rfl, rfl, rfl⟩

structure HostsKept (s after : Session) : Prop extends ServicesOnly s after where
  hosts : after.hosts = s.hosts

theorem HostsKept.refl (s : Session) : HostsKept s s := ⟨ServicesOnly.refl s, rfl⟩

theorem hostsKept_withServices (s : Session) (services : Services) :
    HostsKept s (s.withServices services) := ⟨servicesOnly_withServices s services, rfl⟩

theorem hostsKept_inputStep (s : Session) (x : InputStep) : HostsKept s (s.inputStep x).2 := by
  apply inputStep_cases (P := fun a => HostsKept s a.2)
  · intro source
    exact ⟨⟨rfl, rfl, rfl⟩, rfl⟩
  · intro services reply _ _
    exact hostsKept_withServices s services
  · intro reply
    exact HostsKept.refl s

theorem hostsKept_offerText (s : Session) (sink : Nat) (data : ByteArray) :
    HostsKept s (s.offerText sink data).2 := by
  rw [offerText_snd]
  exact hostsKept_withServices s _

theorem hostsKept_outputStep (s : Session) (x : OutputStep) : HostsKept s (s.outputStep x).2 := by
  have named (n : Nat) (use : Nat → Answer) (used : ∀ i, HostsKept s (use i).2) :
      HostsKept s (s.withSink n use).2 :=
    withSink_cases (P := fun a => HostsKept s a.2) (fun _ => HostsKept.refl s) fun i _ => used i
  cases x with
  | write n data => exact named n _ fun i => hostsKept_offerText s i data
  | contents => exact named _ _ fun _ => HostsKept.refl s
  | take => exact named _ _ fun _ => hostsKept_withServices s _
  | takeStandard => exact hostsKept_withServices s _
  | addCapture | addStandard | addFailing => exact ⟨⟨rfl, rfl, rfl⟩, rfl⟩

theorem servicesOnly_withHost (s : Session) (n : Nat) {use : Host → Answer}
    (used : ∀ h, ServicesOnly s (use h).2) : ServicesOnly s (s.withHost n use).2 :=
  withHost_cases (P := fun a => ServicesOnly s a.2) (fun _ => ServicesOnly.refl s) fun h _ => used h

theorem servicesOnly_hostStep (s : Session) (x : HostStep) : ServicesOnly s (s.hostStep x).2 := by
  cases x with
  | add input sink =>
      apply withInput_cases (P := fun a => ServicesOnly s a.2) (fun _ => ServicesOnly.refl s)
      intro i
      exact withSink_cases (P := fun a => ServicesOnly s a.2) (fun _ => ServicesOnly.refl s)
        fun _ _ => ⟨rfl, rfl, rfl⟩
  | pollButtons | pollAxes | itemInputs | cameraInputs =>
      exact servicesOnly_withHost s _ fun _ => servicesOnly_withServices s _
  | write n data =>
      exact servicesOnly_withHost s n fun h => (hostsKept_offerText s h.sink data).toServicesOnly
  | puts n data size =>
      exact servicesOnly_withHost s n fun h =>
        servicesOnly_withServices s (s.services.puts h data size)
  | install => exact servicesOnly_withHost s _ fun _ => ⟨rfl, rfl, rfl⟩
  | current => exact ⟨rfl, rfl, rfl⟩

structure RegistersKept (s after : Session) : Prop where
  registers : after.registers = s.registers
  saved : after.saved = s.saved

theorem RegistersKept.refl (s : Session) : RegistersKept s s := ⟨rfl, rfl⟩

theorem ServicesOnly.registersKept {s after : Session} (only : ServicesOnly s after) :
    RegistersKept s after := ⟨only.registers, only.saved⟩

theorem registersKept_answerWritten (s : Session) (written : Except Fault Memory) (reply : Reply) :
    RegistersKept s (s.answerWritten written reply).2 := by
  cases written <;> exact ⟨rfl, rfl⟩

theorem registersKept_answerReserved (s : Session) (reserved : Except ReserveError Memory) :
    RegistersKept s (s.answerReserved reserved).2 := by
  cases reserved <;> exact ⟨rfl, rfl⟩

theorem registersKept_memoryStep (s : Session) (x : MemoryStep) :
    RegistersKept s (s.memoryStep x).2 := by
  cases x with
  | reserve base size scarce => exact registersKept_answerReserved s _
  | reserveKseg0 =>
      rw [memoryStep]
      exact registersKept_answerReserved s _
  | attach => exact ⟨rfl, rfl⟩
  | overwrite | fill | writeWord | write => exact registersKept_answerWritten s _ _
  | _ => exact RegistersKept.refl s

theorem registersKept_callStep (s : Session) (x : CallStep) : RegistersKept s (s.callStep x).2 := by
  apply callStep_cases (P := fun a => RegistersKept s a.2)
  · intro route c host
    rw [answerOutcome_snd]
    exact ⟨(route.run_eq c host s.machine).2.1, rfl⟩
  · intro services reply _
    exact (servicesOnly_withServices s services).registersKept
  · intro reply
    exact RegistersKept.refl s

end CallGate.Session
