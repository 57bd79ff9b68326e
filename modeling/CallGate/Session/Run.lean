import CallGate.Capability.Call
import CallGate.Convention.Script
import CallGate.Memory.Changes
import CallGate.Registers.Field
import CallGate.Session.Basic
import CallGate.Session.Step

/-! Running a session. A step that fails is answered like any other and the session goes on. A report
adds to the answer what the step changed and logged. -/

namespace CallGate.Session

def memoryStep (s : Session) : MemoryStep → Answer
  | .reserve base size scarce =>
    let source := if scarce then PageSource.below PageSource.gigabyte else PageSource.unlimited
    s.answerReserved (Memory.reserve source base size)
  | .reserveKseg0 =>
    s.answerReserved (Memory.reserve PageSource.unlimited Memory.kseg0Base Memory.kseg0Size)
  | .attach base size => (.ok (.attached base size), s.withMemory (Memory.flat base size))
  | .bytes address length => s.answerFound ((s.memory.bytes address length).map .bytes)
  | .byteCount address length =>
    s.answerFound ((s.memory.bytes address length).map fun found => .number found.size)
  | .text p length => s.answerFound ((s.memory.text p length).map .bytes)
  | .overwrite address data => s.answerWritten (s.memory.overwriteBytes address data) .done
  | .fill address length b =>
    s.answerWritten (s.memory.overwrite address length fun _ => b) (.number length.toNat)
  | .readWord address => s.answerFound ((s.memory.readWord address).map (.scalar .u32))
  | .writeWord address value => s.answerWritten (s.memory.writeWord address value) .done
  | .read t address => s.answerFound ((s.memory.read t address).map (.scalar t))
  | .write t address value => s.answerWritten (s.memory.write t address value) .done

def registerStep (s : Session) : RegisterStep → Answer
  | .get index => s.withRegister index fun r => s.answer (.register (s.registers.get r))
  | .word index => s.withRegister index fun r => s.answer (.scalar .u32 (s.registers.word r))
  | .set index value => s.withRegister index fun r =>
    (s.withRegisters (s.registers.set r value)).answer .done
  | .setWord index value => s.withRegister index fun r =>
    (s.withRegisters (s.registers.setWord r value)).answer .done
  | .single index => s.withRegister index fun r => s.answer (.scalar .f32 (s.registers.single r))
  | .setSingle index value => s.withRegister index fun r =>
    (s.withRegisters (s.registers.setSingle r value)).answer .done
  | .pokeGpr index value => s.withRegister index fun r =>
    (s.withRegisters (s.registers.poke (.gpr r) value)).answer .done
  | .pokeFpr index value => s.withRegister index fun r =>
    (s.withRegisters (s.registers.poke (.fpr r) value)).answer .done
  | .pokeHi value => (s.withRegisters (s.registers.poke .hi value)).answer .done
  | .pokeLo value => (s.withRegisters (s.registers.poke .lo value)).answer .done
  | .reset => (s.withRegisters {}).answer .done
  | .save => ({ s with saved := s.registers } : Session).answer .done
  | .restore => (s.withRegisters s.saved).answer .done
  | .sameAsSaved => s.answer (.flag (s.registers = s.saved))

def conventionStep (s : Session) : ConventionStep → Answer
  | .store value => (s.withRegisters (s.registers.store value)).answer .done
  | .decodeEach types =>
    s.answer (.each ((O32.cursor s.registers s.memory).decodeEach types {}).1)
  | .decode types =>
    s.answerFound ((O32.decode s.registers s.memory types).map fun vs => .decoded vs.toList)
  | .decodeScript types answers =>
    let (result, _, asked) := Script.cursor.recorded.decodeAll types (answers, [])
    s.answer (.script asked (result.map Arguments.toList))

def inputStep (s : Session) : InputStep → Answer
  | .addController => s.addInput (.pad {})
  | .addDevice held axes => s.addInput (.device (Device.constant held axes) 0)
  | .setButtons input held => s.withController input fun i c =>
    (s.withServices (s.services.setController i (c.setButtons held))).answer .done
  | .setLeft input axes => s.withController input fun i c =>
    (s.withServices (s.services.setController i (c.setLeft axes))).answer .done
  | .setRight input axes => s.withController input fun i c =>
    (s.withServices (s.services.setController i (c.setRight axes))).answer .done
  | .left input => s.withController input fun _ c => s.answer (.axes c.left)
  | .right input => s.withController input fun _ c => s.answer (.axes c.right)
  | .pollButtons input => s.withInput input fun i => s.answerButtons (s.services.pollButtons i)
  | .pollAxes input => s.withInput input fun i => s.answerAxes (s.services.pollAxes i)
  | .mode => s.answer (.number s.services.mode.raw.toNat)
  | .setMode mode => (s.withServices (s.services.setMode mode)).answer .done
  | .modeOfRaw value => s.answer (.mode (CameraMode.ofRaw value))

def outputStep (s : Session) : OutputStep → Answer
  | .addCapture => s.addSink Sink.capture
  | .addStandard => s.nameSink Host.standard.sink
  | .addFailing count reason => s.addSink (Sink.failingAfter count reason)
  | .write sink data => s.withSink sink fun i => s.offerText i data
  | .contents sink => s.withSink sink fun i => s.answer (.bytes (s.services.sinks.get i).kept)
  | .take sink => s.withSink sink fun i => s.takeText i
  | .takeStandard => s.takeText Host.standard.sink

def hostStep (s : Session) : HostStep → Answer
  | .add input sink => s.withInput input fun i => s.withSink sink fun o => s.addHost ⟨i, o⟩
  | .pollButtons host => s.withHost host fun h => s.answerButtons (s.services.pollButtons h.input)
  | .pollAxes host => s.withHost host fun h => s.answerAxes (s.services.pollAxes h.input)
  | .write host data => s.withHost host fun h => s.offerText h.sink data
  | .itemInputs host => s.withHost host fun h => s.answerButtons (s.services.itemInputs h)
  | .cameraInputs host => s.withHost host fun h => s.answerAxes (s.services.cameraInputs h)
  | .puts host data size => s.withHost host fun h =>
    (s.withServices (s.services.puts h data size)).answer .done
  | .install host => s.withHost host fun h =>
    let (previous, services) := s.services.install h
    (s.withServices services).addHost previous
  | .current => s.addHost s.services.installed

def callStep (s : Session) : CallStep → Answer
  | .capabilities => s.answer (.capabilities Capability.all)
  | .find symbol => s.answer (.found (Capability.find? symbol))
  | .call symbol host => s.withHost host fun h =>
    match Capability.find? symbol with
    | some c => s.answerOutcome (c.call h s.machine)
    | none => s.refuse .noSuchCapability
  | .handle c host => s.withHost host fun h => s.answerOutcome (c.handle h s.machine)
  | .enter c => s.answerOutcome (c.enter s.machine)
  | .nativeItemInputs => s.answerButtons (s.services.itemInputs s.services.installed)
  | .nativeCameraInputs => s.answerAxes (s.services.cameraInputs s.services.installed)
  | .nativePuts data size =>
    (s.withServices (s.services.puts s.services.installed data size)).answer .done

def step (s : Session) : Step → Answer
  | .memory step => s.memoryStep step
  | .registers step => s.registerStep step
  | .convention step => s.conventionStep step
  | .input step => s.inputStep step
  | .output step => s.outputStep step
  | .host step => s.hostStep step
  | .call step => s.callStep step

structure Report where
  reply : Except Failure Reply
  logs : List LogEntry
  registers : List (Field × UInt64)
  runs : List ByteRun

def comparedSize : Nat := 0x4000

def observe (s : Session) (step : Step) : Report × Session :=
  let (reply, after) := s.step step
  let events := after.services.journal.extract s.services.journal.size
  let compared := !step.replacesMemory && after.memory.size ≤ comparedSize
  let report :=
    { reply
      logs := events.toList.filterMap Event.log?
      registers := s.registers.changes after.registers
      runs := if compared then s.memory.changes after.memory else [] }
  (report, after)

def run : Session → List Step → List Report × Session
  | s, [] => ([], s)
  | s, step :: steps =>
    let (report, s) := s.observe step
    let (reports, s) := run s steps
    (report :: reports, s)

end CallGate.Session
