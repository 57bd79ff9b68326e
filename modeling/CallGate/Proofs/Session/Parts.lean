import CallGate.Proofs.Services.Steady
import CallGate.Session.Run

/-! The parts of a session that its steps act on.

Steps on memory, registers and arguments are the guest's own: services and numbering are not touched by
them. A step that names a register, an input, a sink or a host which does not exist changes nothing, so
a property of answers has to be checked for refusals and for what is there. No step takes back what the
journal tells or what the number of a sink stands for (`keeps_step`). -/

namespace CallGate.Session

variable {s : Session} {P : Answer → Prop}

theorem withRegister_cases {index : Nat} {use : Reg → Answer}
    (refused : ∀ failure, P (s.refuse failure)) (used : ∀ r, P (use r)) :
    P (s.withRegister index use) := by
  unfold withRegister
  split
  · exact used _
  · exact refused _

theorem withInput_cases {input : Nat} {use : Nat → Answer}
    (refused : ∀ failure, P (s.refuse failure)) (used : ∀ i, P (use i)) :
    P (s.withInput input use) := by
  unfold withInput
  split
  · exact used _
  · exact refused _

theorem withController_cases {input : Nat} {use : Nat → Controller → Answer}
    (refused : ∀ failure, P (s.refuse failure)) (used : ∀ i c, P (use i c)) :
    P (s.withController input use) := by
  apply withInput_cases refused
  intro i
  split
  · exact used _ _
  · exact refused _

theorem withSink_cases {sink : Nat} {use : Nat → Answer}
    (refused : ∀ failure, P (s.refuse failure)) (used : ∀ i, s.sinks[sink]? = some i → P (use i)) :
    P (s.withSink sink use) := by
  unfold withSink
  split
  · next named => exact used _ named
  · exact refused _

theorem withHost_cases {host : Nat} {use : Host → Answer}
    (refused : ∀ failure, P (s.refuse failure)) (used : ∀ h, s.hosts[host]? = some h → P (use h)) :
    P (s.withHost host use) := by
  unfold withHost
  split
  · next named => exact used _ named
  · exact refused _

@[simp] theorem services_withServices (s : Session) (services : Services) :
    (s.withServices services).services = services := rfl

@[simp] theorem answer_snd (s : Session) (reply : Reply) : (s.answer reply).2 = s := rfl

theorem answerOutcome_snd (s : Session) (o : Outcome) :
    (s.answerOutcome o).2 = { s with machine := o.2 } := by
  obtain ⟨result, machine⟩ := o
  cases result <;> rfl

def answered : Option Fault → Except Failure Reply
  | none => .ok .done
  | some fault => .error (.fault fault)

theorem answerOutcome_fst {o : Outcome} {fault : Option Fault}
    (result : o.1 = Capability.resultOf fault) : (s.answerOutcome o).1 = answered fault := by
  obtain ⟨returned, after⟩ := o
  obtain rfl : returned = Capability.resultOf fault := result
  cases fault <;> rfl

theorem isOk_answerOutcome (s : Session) (o : Outcome) :
    (s.answerOutcome o).1.isOk = o.1.isOk := by
  obtain ⟨result, machine⟩ := o
  cases result <;> rfl

structure GuestOnly (s after : Session) : Prop where
  services : after.services = s.services
  inputs : after.inputs = s.inputs
  sinks : after.sinks = s.sinks
  hosts : after.hosts = s.hosts

theorem GuestOnly.refl (s : Session) : GuestOnly s s := ⟨rfl, rfl, rfl, rfl⟩

theorem guestOnly_withMemory (s : Session) (memory : Memory) : GuestOnly s (s.withMemory memory) :=
  ⟨rfl, rfl, rfl, rfl⟩

theorem guestOnly_withRegisters (s : Session) (registers : Registers) :
    GuestOnly s (s.withRegisters registers) := ⟨rfl, rfl, rfl, rfl⟩

theorem guestOnly_answerWritten (s : Session) (written : Except Fault Memory) (reply : Reply) :
    GuestOnly s (s.answerWritten written reply).2 := by
  cases written with
  | ok memory => exact guestOnly_withMemory s memory
  | error fault => exact GuestOnly.refl s

theorem guestOnly_answerReserved (s : Session) (reserved : Except ReserveError Memory) :
    GuestOnly s (s.answerReserved reserved).2 := by
  cases reserved with
  | ok memory => exact guestOnly_withMemory s memory
  | error e => exact GuestOnly.refl s

theorem guestOnly_memoryStep (s : Session) (x : MemoryStep) : GuestOnly s (s.memoryStep x).2 := by
  cases x with
  | reserve base size scarce => exact guestOnly_answerReserved s _
  | reserveKseg0 =>
      rw [memoryStep]
      exact guestOnly_answerReserved s _
  | attach base size => exact guestOnly_withMemory s _
  | overwrite | fill | writeWord | write => exact guestOnly_answerWritten s _ _
  | _ => exact GuestOnly.refl s

theorem guestOnly_withRegister (s : Session) (index : Nat) {use : Reg → Answer}
    (used : ∀ r, GuestOnly s (use r).2) : GuestOnly s (s.withRegister index use).2 :=
  withRegister_cases (P := fun a => GuestOnly s a.2) (fun _ => GuestOnly.refl s) used

theorem guestOnly_registerStep (s : Session) (x : RegisterStep) :
    GuestOnly s (s.registerStep x).2 := by
  cases x with
  | get | word | single => exact guestOnly_withRegister s _ fun _ => GuestOnly.refl s
  | set | setWord | setSingle | pokeGpr | pokeFpr =>
      exact guestOnly_withRegister s _ fun _ => guestOnly_withRegisters s _
  | save => exact ⟨rfl, rfl, rfl, rfl⟩
  | sameAsSaved => exact GuestOnly.refl s
  | _ => exact guestOnly_withRegisters s _

theorem guestOnly_conventionStep (s : Session) (x : ConventionStep) :
    GuestOnly s (s.conventionStep x).2 := by
  cases x with
  | store value => exact guestOnly_withRegisters s _
  | _ => exact GuestOnly.refl s

structure Keeps (s after : Session) : Prop where
  journal : s.services.journal.toList <+: after.services.journal.toList
  sinks : ∀ n i : Nat, s.sinks[n]? = some i → after.sinks[n]? = some i

theorem Keeps.refl (s : Session) : Keeps s s := ⟨List.prefix_rfl, fun _ _ => id⟩

theorem Keeps.trans {a b c : Session} (first : Keeps a b) (second : Keeps b c) : Keeps a c where
  journal := first.journal.trans second.journal
  sinks n i named := second.sinks n i (first.sinks n i named)

theorem GuestOnly.keeps {after : Session} (only : GuestOnly s after) : Keeps s after := by
  refine ⟨?_, ?_⟩
  · exact only.services ▸ List.prefix_rfl
  · exact only.sinks ▸ fun _ _ => id

theorem keeps_withServices {services : Services}
    (goesOn : s.services.journal.toList <+: services.journal.toList) :
    Keeps s (s.withServices services) := ⟨goesOn, fun _ _ => id⟩

theorem named_push {α : Type} {entries : Array α} {n : Nat} {a : α} (named : entries[n]? = some a)
    (b : α) : (entries.push b)[n]? = some a := by
  have known : n < entries.size := (Array.getElem?_eq_some_iff.mp named).1
  rw [Array.getElem?_push, if_neg (Nat.ne_of_lt known)]
  exact named

theorem keeps_nameSink (s : Session) (i : Nat) : Keeps s (s.nameSink i).2 :=
  ⟨List.prefix_rfl, fun _ _ named => named_push named i⟩

/-- A step on inputs adds one, goes on with services that have the same sinks, or changes nothing. -/
theorem inputStep_cases {x : InputStep}
    (added : ∀ source, P (s.addInput source))
    (served : ∀ (services : Services) (reply : Reply), services.sinks = s.services.sinks →
      s.services.journal.toList <+: services.journal.toList →
      P ((s.withServices services).answer reply))
    (kept : ∀ reply, P (reply, s)) : P (s.inputStep x) := by
  have refused (failure : Failure) : P (s.refuse failure) := kept _
  have updated (i : Nat) (c : Controller) :
      P ((s.withServices (s.services.setController i c)).answer .done) :=
    served _ _ rfl List.prefix_rfl
  cases x with
  | addController => exact added _
  | addDevice held axes => exact added _
  | setButtons input held => exact withController_cases refused fun i _ => updated i _
  | setLeft input axes => exact withController_cases refused fun i _ => updated i _
  | setRight input axes => exact withController_cases refused fun i _ => updated i _
  | left input => exact withController_cases refused fun _ _ => kept _
  | right input => exact withController_cases refused fun _ _ => kept _
  | pollButtons input =>
      exact withInput_cases refused fun i => served _ _ rfl (s.services.steady_pollButtons i).journal
  | pollAxes input =>
      exact withInput_cases refused fun i => served _ _ rfl (s.services.steady_pollAxes i).journal
  | mode => exact kept _
  | setMode mode => exact served _ _ rfl (s.services.steady_log _).journal
  | modeOfRaw value => exact kept _

theorem keeps_inputStep (s : Session) (x : InputStep) : Keeps s (s.inputStep x).2 := by
  apply inputStep_cases (P := fun a => Keeps s a.2)
  · intro source
    exact ⟨List.prefix_rfl, fun _ _ => id⟩
  · intro services reply _ goesOn
    exact keeps_withServices goesOn
  · intro reply
    exact Keeps.refl s

theorem offerText_snd (s : Session) (sink : Nat) (data : ByteArray) :
    (s.offerText sink data).2 = s.withServices (s.services.write sink data).2 := by
  unfold offerText
  split
  · next done => rw [done]
  · next done => rw [done]

theorem keeps_offerText (s : Session) (sink : Nat) (data : ByteArray) :
    Keeps s (s.offerText sink data).2 := by
  rw [offerText_snd]
  exact keeps_withServices (s.services.steady_write sink data).journal

theorem keeps_withSink (s : Session) (sink : Nat) {use : Nat → Answer}
    (used : ∀ i, Keeps s (use i).2) : Keeps s (s.withSink sink use).2 :=
  withSink_cases (P := fun a => Keeps s a.2) (fun _ => Keeps.refl s) fun i _ => used i

theorem keeps_withHost (s : Session) (host : Nat) {use : Host → Answer}
    (used : ∀ h, Keeps s (use h).2) : Keeps s (s.withHost host use).2 :=
  withHost_cases (P := fun a => Keeps s a.2) (fun _ => Keeps.refl s) fun h _ => used h

theorem keeps_outputStep (s : Session) (x : OutputStep) : Keeps s (s.outputStep x).2 := by
  have taken (i : Nat) : Keeps s (s.takeText i).2 := keeps_withServices List.prefix_rfl
  have added (sink : Sink) : Keeps s (s.addSink sink).2 := by
    have moved : Keeps s (s.withServices (s.services.addSink sink).2) :=
      keeps_withServices List.prefix_rfl
    exact moved.trans (keeps_nameSink _ _)
  cases x with
  | addCapture => exact added _
  | addStandard => exact keeps_nameSink s _
  | addFailing count reason => exact added _
  | write sink data => exact keeps_withSink s sink fun i => keeps_offerText s i data
  | contents sink => exact keeps_withSink s sink fun _ => Keeps.refl s
  | take sink => exact keeps_withSink s sink fun i => taken i
  | takeStandard => exact taken _

theorem keeps_hostStep (s : Session) (x : HostStep) : Keeps s (s.hostStep x).2 := by
  have added (host : Host) : Keeps s (s.addHost host).2 := ⟨List.prefix_rfl, fun _ _ => id⟩
  cases x with
  | add input sink =>
      apply withInput_cases (P := fun a => Keeps s a.2) (fun _ => Keeps.refl s)
      intro i
      exact keeps_withSink s sink fun _ => added _
  | pollButtons host =>
      exact keeps_withHost s host fun h =>
        keeps_withServices (s.services.steady_pollButtons h.input).journal
  | pollAxes host =>
      exact keeps_withHost s host fun h =>
        keeps_withServices (s.services.steady_pollAxes h.input).journal
  | write host data => exact keeps_withHost s host fun h => keeps_offerText s h.sink data
  | itemInputs host =>
      exact keeps_withHost s host fun h =>
        keeps_withServices (s.services.steady_pollButtons h.input).journal
  | cameraInputs host =>
      exact keeps_withHost s host fun h =>
        keeps_withServices (s.services.steady_pollAxes h.input).journal
  | puts host data size =>
      exact keeps_withHost s host fun h =>
        keeps_withServices (s.services.steady_puts h data size).journal
  | install host =>
      exact keeps_withHost s host fun h => ⟨List.prefix_rfl, fun _ _ => id⟩
  | current => exact added _

/-- A call step serves a capability on one of its routes, goes on with the services behind a poll or a text,
or changes nothing. -/
theorem callStep_cases {x : CallStep}
    (served : ∀ (route : Route) (c : Capability) (host : Host),
      P (s.answerOutcome (route.run c host s.machine)))
    (native : ∀ (services : Services) (reply : Reply), s.services.Steady services →
      P ((s.withServices services).answer reply))
    (kept : ∀ reply, P (reply, s)) : P (s.callStep x) := by
  have refused (failure : Failure) : P (s.refuse failure) := kept _
  cases x with
  | capabilities => exact kept _
  | find symbol => exact kept _
  | call symbol host =>
      apply withHost_cases refused
      intro h _
      split
      · exact served .call _ h
      · exact refused _
  | handle c host => exact withHost_cases refused fun h _ => served .handler c h
  | enter c => exact served .entry c s.services.installed
  | nativeItemInputs => exact native _ _ (s.services.steady_pollButtons _)
  | nativeCameraInputs => exact native _ _ (s.services.steady_pollAxes _)
  | nativePuts data size => exact native _ .done (s.services.steady_puts _ data size)

theorem keeps_callStep (s : Session) (x : CallStep) : Keeps s (s.callStep x).2 := by
  apply callStep_cases (P := fun a => Keeps s a.2)
  · intro route c host
    rw [answerOutcome_snd]
    exact ⟨(route.steady_run c host s.machine).journal, fun _ _ => id⟩
  · intro services reply steady
    exact keeps_withServices steady.journal
  · intro reply
    exact Keeps.refl s

theorem keeps_step (s : Session) (x : Step) : Keeps s (s.step x).2 := by
  cases x with
  | memory x => exact (guestOnly_memoryStep s x).keeps
  | registers x => exact (guestOnly_registerStep s x).keeps
  | convention x => exact (guestOnly_conventionStep s x).keeps
  | input x => exact keeps_inputStep s x
  | output x => exact keeps_outputStep s x
  | host x => exact keeps_hostStep s x
  | call x => exact keeps_callStep s x

theorem keeps_run (s : Session) (steps : List Step) : Keeps s (run s steps).2 := by
  induction steps generalizing s with
  | nil => exact Keeps.refl s
  | cons x steps ih => exact (keeps_step s x).trans (ih _)

end CallGate.Session
