import CallGate.Input.Source
import CallGate.Log
import CallGate.Output.Sink
import CallGate.Table

/-! The services around a guest: input sources, text sinks, the camera mode and the installed host,
with a journal of everything that was asked of them. Services are shared: two hosts over one source
see one controller. -/

namespace CallGate

structure Host where
  input : Nat
  sink : Nat
deriving DecidableEq, Repr

/-- A neutral controller and the standard output. -/
def Host.standard : Host := ⟨0, 0⟩

inductive Event
  | log (entry : LogEntry)
  | buttonsPolled (input : Nat) (held : UInt32)
  | axesPolled (input : Nat) (axes : Axes)
  | textOffered (sink : Nat) (data : ByteArray) (result : Except String Unit)

def Event.log? : Event → Option LogEntry
  | log entry => some entry
  | _ => none

structure Services where
  rawMode : UInt8 := CameraMode.normal.raw
  inputs : Table InputSource := {}
  sinks : Table Sink := {}
  installed : Host := Host.standard
  journal : Array Event := #[]

namespace Services

def record (s : Services) (e : Event) : Services := { s with journal := s.journal.push e }

def log (s : Services) (entry : LogEntry) : Services := s.record (.log entry)

def mode (s : Services) : CameraMode := CameraMode.ofRaw s.rawMode

def setMode (s : Services) (mode : CameraMode) : Services :=
  { s.log (.cameraModeSet mode) with rawMode := mode.raw }

theorem mode_setMode (s : Services) (mode : CameraMode) : (s.setMode mode).mode = mode :=
  CameraMode.ofRaw_raw mode

def pollButtons (s : Services) (input : Nat) : UInt32 × Services :=
  let (held, source) := (s.inputs.get input).pollButtons s.mode
  (held, { s with inputs := s.inputs.set input source }.record (.buttonsPolled input held))

def pollAxes (s : Services) (input : Nat) : Axes × Services :=
  let (axes, source) := (s.inputs.get input).pollAxes s.mode
  (axes, { s with inputs := s.inputs.set input source }.record (.axesPolled input axes))

def write (s : Services) (sink : Nat) (data : ByteArray) : Except String Unit × Services :=
  let (result, written) := (s.sinks.get sink).write data
  (result, { s with sinks := s.sinks.set sink written }.record (.textOffered sink data result))

def take (s : Services) (sink : Nat) : ByteArray × Services :=
  let (kept, emptied) := (s.sinks.get sink).take
  (kept, { s with sinks := s.sinks.set sink emptied })

def addInput (s : Services) (source : InputSource) : Nat × Services :=
  (s.inputs.size, { s with inputs := s.inputs.push source })

def addSink (s : Services) (sink : Sink) : Nat × Services :=
  (s.sinks.size, { s with sinks := s.sinks.push sink })

def setController (s : Services) (input : Nat) (c : Controller) : Services :=
  { s with inputs := s.inputs.set input (.pad c) }

/-- Hands back the host installed before. -/
def install (s : Services) (host : Host) : Host × Services :=
  (s.installed, { s with installed := host })

end Services

end CallGate
