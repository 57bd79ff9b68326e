import CallGate.Proofs.Services.Alike
import CallGate.Proofs.Session.Parts

/-! Two sessions side by side that differ in their sinks, and what the parts of a step make of them. -/

namespace CallGate

namespace Session

/-- One host is installed in both: the very same, or hosts of one number. -/
def SameInstalled (s t : Session) : Prop :=
  s.services.installed = t.services.installed ∨
    ∃ n : Nat, s.hosts[n]? = some s.services.installed ∧ t.hosts[n]? = some t.services.installed

/-- The two sessions are the same, but for the sinks: which there are, what they keep and refuse, and
which of them a number or a host stands for. -/
structure Alike (s t : Session) : Prop where
  machine : s.machine.Alike t.machine
  saved : s.saved = t.saved
  inputs : s.inputs = t.inputs
  sinks : s.sinks.size = t.sinks.size
  hosts : s.hosts.map Host.input = t.hosts.map Host.input
  installed : SameInstalled s t

/-- Two answers that leave the sessions alike, and are equal unless a sink was asked. -/
structure Agree (asked : Bool) (a b : Answer) : Prop where
  reply : asked = false → a.1 = b.1
  after : Alike a.2 b.2

theorem named_both {α β : Type} {a : Array α} {b : Array β} (size : a.size = b.size) (n : Nat) :
    (a[n]? = none ∧ b[n]? = none) ∨ ∃ x y, a[n]? = some x ∧ b[n]? = some y := by
  by_cases known : n < a.size
  · have other : n < b.size := size ▸ known
    exact .inr ⟨a[n], b[n], Array.getElem?_eq_getElem known, Array.getElem?_eq_getElem other⟩
  · have other : ¬ n < b.size := size ▸ known
    exact .inl ⟨Array.getElem?_eq_none (Nat.le_of_not_lt known),
      Array.getElem?_eq_none (Nat.le_of_not_lt other)⟩

variable {s t : Session} {asked : Bool}

namespace Alike

theorem ofSinks (s : Session) (sinks : Table Sink) :
    Alike s (s.withServices { s.services with sinks }) where
  machine := ⟨rfl, rfl, (s.services.alike_sinks sinks).symm⟩
  saved := rfl
  inputs := rfl
  sinks := rfl
  hosts := rfl
  installed := .inl rfl

theorem hosts_size (alike : Alike s t) : s.hosts.size = t.hosts.size := by
  simpa using congrArg Array.size alike.hosts

theorem host_input (alike : Alike s t) {n : Nat} {h k : Host} (named : s.hosts[n]? = some h)
    (other : t.hosts[n]? = some k) : h.input = k.input := by
  have inputs := congrArg (·[n]?) alike.hosts
  simpa [named, other] using inputs

theorem installed_input (alike : Alike s t) :
    s.services.installed.input = t.services.installed.input := by
  rcases alike.installed with same | ⟨n, named, other⟩
  · rw [same]
  · exact alike.host_input named other

theorem answer (alike : Alike s t) (reply : Reply) : Agree asked (s.answer reply) (t.answer reply) :=
  ⟨fun _ => rfl, alike⟩

theorem refuse (alike : Alike s t) (failure : Failure) :
    Agree asked (s.refuse failure) (t.refuse failure) := ⟨fun _ => rfl, alike⟩

theorem withMachine (alike : Alike s t) {m n : Machine} (after : m.Alike n)
    (kept : m.services.installed = s.services.installed)
    (others : n.services.installed = t.services.installed) :
    Alike { s with machine := m } { t with machine := n } where
  machine := after
  saved := alike.saved
  inputs := alike.inputs
  sinks := alike.sinks
  hosts := alike.hosts
  installed := by
    have installed := alike.installed
    rw [SameInstalled, ← kept, ← others] at installed
    exact installed

theorem withMemory (alike : Alike s t) (memory : Memory) :
    Alike (s.withMemory memory) (t.withMemory memory) :=
  alike.withMachine ⟨alike.machine.registers, rfl, alike.machine.services⟩ rfl rfl

theorem withRegisters (alike : Alike s t) (registers : Registers) :
    Alike (s.withRegisters registers) (t.withRegisters registers) :=
  alike.withMachine ⟨rfl, alike.machine.memory, alike.machine.services⟩ rfl rfl

theorem withServices (alike : Alike s t) {a b : Services} (after : a.Alike b)
    (kept : a.installed = s.services.installed) (others : b.installed = t.services.installed) :
    Alike (s.withServices a) (t.withServices b) :=
  alike.withMachine ⟨alike.machine.registers, alike.machine.memory, after⟩ kept others

theorem answerFound (alike : Alike s t) (found : Except Fault Reply) :
    Agree asked (s.answerFound found) (t.answerFound found) := ⟨fun _ => rfl, alike⟩

theorem answerWritten (alike : Alike s t) (written : Except Fault Memory) (reply : Reply) :
    Agree asked (s.answerWritten written reply) (t.answerWritten written reply) := by
  cases written with
  | ok memory => exact ⟨fun _ => rfl, alike.withMemory memory⟩
  | error fault => exact alike.refuse _

theorem answerReserved (alike : Alike s t) (reserved : Except ReserveError Memory) :
    Agree asked (s.answerReserved reserved) (t.answerReserved reserved) := by
  cases reserved with
  | ok memory => exact ⟨fun _ => rfl, alike.withMemory memory⟩
  | error e => exact alike.refuse _

theorem answerOutcome (alike : Alike s t) {o p : Outcome} (same : o.1 = p.1) (after : o.2.Alike p.2)
    (kept : o.2.services.installed = s.services.installed)
    (others : p.2.services.installed = t.services.installed) :
    Agree asked (s.answerOutcome o) (t.answerOutcome p) := by
  have moved := alike.withMachine after kept others
  obtain ⟨result, m⟩ := o
  obtain ⟨other, n⟩ := p
  obtain rfl : result = other := same
  cases result with
  | ok _ => exact ⟨fun _ => rfl, moved⟩
  | error fault => exact ⟨fun _ => rfl, moved⟩

theorem withRegister (alike : Alike s t) (index : Nat) {use others : Reg → Answer}
    (used : ∀ r, Agree asked (use r) (others r)) :
    Agree asked (s.withRegister index use) (t.withRegister index others) := by
  unfold Session.withRegister
  split
  · exact used _
  · exact alike.refuse _

theorem withInput (alike : Alike s t) (input : Nat) {use others : Nat → Answer}
    (used : ∀ i, Agree asked (use i) (others i)) :
    Agree asked (s.withInput input use) (t.withInput input others) := by
  rw [Session.withInput, Session.withInput, alike.inputs]
  split
  · exact used _
  · exact alike.refuse _

theorem withController (alike : Alike s t) (input : Nat) {use others : Nat → Controller → Answer}
    (used : ∀ i c, Agree asked (use i c) (others i c)) :
    Agree asked (s.withController input use) (t.withController input others) := by
  apply alike.withInput input
  intro i
  rw [show s.services.inputs = t.services.inputs from alike.machine.services.inputs]
  split
  · exact used _ _
  · exact alike.refuse _

theorem withSink (alike : Alike s t) (sink : Nat) {use others : Nat → Answer}
    (used : ∀ i j, Agree asked (use i) (others j)) :
    Agree asked (s.withSink sink use) (t.withSink sink others) := by
  rcases named_both alike.sinks sink with ⟨absent, missing⟩ | ⟨i, j, named, other⟩
  · simp only [Session.withSink, absent, missing]
    exact alike.refuse _
  · simp only [Session.withSink, named, other]
    exact used i j

theorem withHost (alike : Alike s t) (host : Nat) {use others : Host → Answer}
    (used : ∀ h k, s.hosts[host]? = some h → t.hosts[host]? = some k → h.input = k.input →
      Agree asked (use h) (others k)) :
    Agree asked (s.withHost host use) (t.withHost host others) := by
  rcases named_both alike.hosts_size host with ⟨absent, missing⟩ | ⟨h, k, named, other⟩
  · simp only [Session.withHost, absent, missing]
    exact alike.refuse _
  · simp only [Session.withHost, named, other]
    exact used h k named other (alike.host_input named other)

theorem addHost (alike : Alike s t) {h k : Host} (same : h.input = k.input) :
    Agree asked (s.addHost h) (t.addHost k) := by
  refine ⟨?_, alike.machine, alike.saved, alike.inputs, alike.sinks, ?_, ?_⟩
  · intro _
    simp only [Session.addHost, alike.hosts_size]
  · simp only [Session.addHost, Array.map_push, alike.hosts, same]
  · rcases alike.installed with very | ⟨n, named, other⟩
    · exact .inl very
    · exact .inr ⟨n, named_push named _, named_push other _⟩

theorem addInput (alike : Alike s t) (source : InputSource) :
    Agree asked (s.addInput source) (t.addInput source) := by
  obtain ⟨number, after⟩ := alike.machine.services.addInput source
  have moved := alike.withServices after rfl rfl
  refine ⟨?_, moved.machine, moved.saved, ?_, moved.sinks, moved.hosts, moved.installed⟩
  · intro _
    simp only [Session.addInput, alike.inputs]
  · change s.inputs.push (s.services.addInput source).1 = t.inputs.push (t.services.addInput source).1
    rw [alike.inputs]
    exact congrArg t.inputs.push number

theorem nameSink (alike : Alike s t) (i j : Nat) : Agree asked (s.nameSink i) (t.nameSink j) := by
  refine ⟨?_, alike.machine, alike.saved, alike.inputs, ?_, alike.hosts, alike.installed⟩
  · intro _
    simp only [Session.nameSink, alike.sinks]
  · simp only [Session.nameSink, Array.size_push, alike.sinks]

theorem addSink (alike : Alike s t) (a b : Sink) : Agree asked (s.addSink a) (t.addSink b) := by
  obtain ⟨mode, inputs, told⟩ := alike.machine.services
  have after : (s.services.addSink a).2.Alike (t.services.addSink b).2 := ⟨mode, inputs, told⟩
  exact (alike.withServices after rfl rfl).nameSink _ _

theorem offerText (alike : Alike s t) (i j : Nat) (data : ByteArray) :
    Agree true (s.offerText i data) (t.offerText j data) := by
  refine ⟨nofun, ?_⟩
  rw [offerText_snd, offerText_snd]
  exact alike.withServices (alike.machine.services.write i j data) rfl rfl

theorem takeText (alike : Alike s t) (i j : Nat) : Agree true (s.takeText i) (t.takeText j) := by
  obtain ⟨mode, inputs, told⟩ := alike.machine.services
  have after : (s.services.take i).2.Alike (t.services.take j).2 := ⟨mode, inputs, told⟩
  exact ⟨nofun, alike.withServices after rfl rfl⟩

theorem answerButtons (alike : Alike s t) {i j : Nat} (same : i = j) :
    Agree asked (s.answerButtons (s.services.pollButtons i))
      (t.answerButtons (t.services.pollButtons j)) := by
  subst same
  obtain ⟨held, after⟩ := alike.machine.services.pollButtons i
  refine ⟨?_, alike.withServices after rfl rfl⟩
  intro _
  exact congrArg (fun held => Except.ok (Reply.scalar .u32 held)) held

theorem answerAxes (alike : Alike s t) {i j : Nat} (same : i = j) :
    Agree asked (s.answerAxes (s.services.pollAxes i)) (t.answerAxes (t.services.pollAxes j)) := by
  subst same
  obtain ⟨axes, after⟩ := alike.machine.services.pollAxes i
  refine ⟨?_, alike.withServices after rfl rfl⟩
  intro _
  exact congrArg (fun axes => Except.ok (Reply.axes axes)) axes

theorem puts (alike : Alike s t) (h k : Host) (data : ByteArray) (size : UInt32) :
    Agree asked ((s.withServices (s.services.puts h data size)).answer .done)
      ((t.withServices (t.services.puts k data size)).answer .done) :=
  (alike.withServices (alike.machine.services.puts h k data size)
    (s.services.steady_puts h data size).installed
    (t.services.steady_puts k data size).installed).answer .done

theorem install (alike : Alike s t) {n : Nat} {h k : Host} (named : s.hosts[n]? = some h)
    (other : t.hosts[n]? = some k) :
    Agree asked ((s.withServices (s.services.install h).2).addHost s.services.installed)
      ((t.withServices (t.services.install k).2).addHost t.services.installed) := by
  obtain ⟨mode, inputs, told⟩ := alike.machine.services
  have installed : Alike (s.withServices (s.services.install h).2)
      (t.withServices (t.services.install k).2) :=
    ⟨⟨alike.machine.registers, alike.machine.memory, mode, inputs, told⟩, alike.saved, alike.inputs,
      alike.sinks, alike.hosts, .inr ⟨n, named, other⟩⟩
  exact installed.addHost alike.installed_input

theorem serve (alike : Alike s t) (route : Route) (c : Capability) (host other : Host)
    (same : (route.server host s.machine).input = (route.server other t.machine).input) :
    Agree asked (s.answerOutcome (route.run c host s.machine))
      (t.answerOutcome (route.run c other t.machine)) := by
  obtain ⟨result, after⟩ := route.run_alike alike.machine c same
  exact alike.answerOutcome result after (route.steady_run c host s.machine).installed
    (route.steady_run c other t.machine).installed

end Alike

end Session

end CallGate
