import CallGate.Machine
import CallGate.Session.Reply

/-! The state of a session: a machine, a second register file, and the inputs, sinks and hosts made so
far. -/

namespace CallGate

structure Session where
  machine : Machine
  saved : Registers := {}
  inputs : Array Nat
  sinks : Array Nat
  hosts : Array Host

namespace Session

/-- A page of zeroed memory, the standard host, and a host over a controller and a capture. -/
def start : Session where
  machine :=
    { memory := Memory.flat Memory.kseg0Base 0x1000
      services :=
        { inputs := ⟨#[.pad {}, .pad {}]⟩
          sinks := ⟨#[Sink.capture, Sink.capture]⟩ } }
  inputs := #[1]
  sinks := #[1]
  hosts := #[Host.standard, ⟨1, 1⟩]

abbrev Answer := Except Failure Reply × Session

def memory (s : Session) : Memory := s.machine.memory
def registers (s : Session) : Registers := s.machine.registers
def services (s : Session) : Services := s.machine.services

def withMemory (s : Session) (memory : Memory) : Session :=
  { s with machine := { s.machine with memory } }

def withRegisters (s : Session) (registers : Registers) : Session :=
  { s with machine := { s.machine with registers } }

def withServices (s : Session) (services : Services) : Session :=
  { s with machine := { s.machine with services } }

def answer (s : Session) (reply : Reply) : Answer := (.ok reply, s)

def refuse (s : Session) (failure : Failure) : Answer := (.error failure, s)

def answerFound (s : Session) (found : Except Fault Reply) : Answer :=
  (found.mapError .fault, s)

def answerWritten (s : Session) (written : Except Fault Memory) (reply : Reply) : Answer :=
  match written with
  | .ok memory => (.ok reply, s.withMemory memory)
  | .error fault => s.refuse (.fault fault)

def answerReserved (s : Session) (reserved : Except ReserveError Memory) : Answer :=
  match reserved with
  | .ok memory => (.ok (.reserved memory.base memory.size memory.isEmpty), s.withMemory memory)
  | .error e => s.refuse (.reserve e)

def withRegister (s : Session) (index : Nat) (use : Reg → Answer) : Answer :=
  match Reg.ofIndex index with
  | .ok r => use r
  | .error e => s.refuse (.noSuchRegister e)

def withInput (s : Session) (input : Nat) (use : Nat → Answer) : Answer :=
  match s.inputs[input]? with
  | some i => use i
  | none => s.refuse (.noSuchInput input)

def withController (s : Session) (input : Nat) (use : Nat → Controller → Answer) : Answer :=
  s.withInput input fun i =>
    match (s.services.inputs.get i).controller? with
    | some c => use i c
    | none => s.refuse (.noSuchInput input)

def withSink (s : Session) (sink : Nat) (use : Nat → Answer) : Answer :=
  match s.sinks[sink]? with
  | some i => use i
  | none => s.refuse (.noSuchSink sink)

def withHost (s : Session) (host : Nat) (use : Host → Answer) : Answer :=
  match s.hosts[host]? with
  | some h => use h
  | none => s.refuse (.noSuchHost host)

def addHost (s : Session) (host : Host) : Answer :=
  (.ok (.number s.hosts.size), { s with hosts := s.hosts.push host })

def addInput (s : Session) (source : InputSource) : Answer :=
  let (i, services) := s.services.addInput source
  (.ok (.number s.inputs.size), { s.withServices services with inputs := s.inputs.push i })

def nameSink (s : Session) (i : Nat) : Answer :=
  (.ok (.number s.sinks.size), { s with sinks := s.sinks.push i })

def addSink (s : Session) (sink : Sink) : Answer :=
  let (i, services) := s.services.addSink sink
  (s.withServices services).nameSink i

def offerText (s : Session) (sink : Nat) (data : ByteArray) : Answer :=
  match s.services.write sink data with
  | (.ok _, services) => (.ok .done, s.withServices services)
  | (.error reason, services) => (.error (.refused reason), s.withServices services)

def takeText (s : Session) (sink : Nat) : Answer :=
  let (kept, services) := s.services.take sink
  (.ok (.bytes kept), s.withServices services)

def answerButtons (s : Session) (polled : UInt32 × Services) : Answer :=
  (.ok (.scalar .u32 polled.1), s.withServices polled.2)

def answerAxes (s : Session) (polled : Axes × Services) : Answer :=
  (.ok (.axes polled.1), s.withServices polled.2)

def answerOutcome (s : Session) : Outcome → Answer
  | (.ok _, machine) => (.ok .done, { s with machine })
  | (.error fault, machine) => (.error (.fault fault), { s with machine })

end Session

end CallGate
