import CallGate.Capability.Basic
import CallGate.Convention.Return
import CallGate.Input.Axes
import CallGate.Input.CameraMode
import CallGate.Memory.Reserve

/-! The steps of a session, by what they act on. Inputs, sinks and hosts are named by their numbers in
the session. -/

namespace CallGate.Session

inductive MemoryStep
  | reserve (base : UInt32) (size : Nat) (scarce : Bool)
  | reserveKseg0
  | attach (base : UInt32) (size : Nat)
  | bytes (address length : UInt32)
  | byteCount (address length : UInt32)
  | text (p : Pointer) (length : UInt32)
  | overwrite (address : UInt32) (data : ByteArray)
  | fill (address length : UInt32) (b : UInt8)
  | readWord (address : UInt32)
  | writeWord (address : UInt32) (value : UInt32)
  | read (t : Scalar) (address : UInt32)
  | write (t : Scalar) (address : UInt32) (value : t.Value)

inductive RegisterStep
  | get (index : Nat)
  | word (index : Nat)
  | set (index : Nat) (value : UInt64)
  | setWord (index : Nat) (value : UInt32)
  | single (index : Nat)
  | setSingle (index : Nat) (value : Single)
  | pokeGpr (index : Nat) (value : UInt64)
  | pokeFpr (index : Nat) (value : UInt64)
  | pokeHi (value : UInt64)
  | pokeLo (value : UInt64)
  | reset
  | save
  | restore
  | sameAsSaved

inductive ConventionStep
  | store (value : ReturnValue)
  | decodeEach (types : List ArgType)
  | decode (types : List ArgType)
  | decodeScript (types : List ArgType) (answers : List (Except Fault UInt64))

inductive InputStep
  | addController
  | addDevice (held : UInt32) (axes : Axes)
  | setButtons (input : Nat) (held : UInt32)
  | setLeft (input : Nat) (axes : Axes)
  | setRight (input : Nat) (axes : Axes)
  | left (input : Nat)
  | right (input : Nat)
  | pollButtons (input : Nat)
  | pollAxes (input : Nat)
  | mode
  | setMode (mode : CameraMode)
  | modeOfRaw (value : UInt8)

inductive OutputStep
  | addCapture
  | addStandard
  | addFailing (count : Nat) (reason : String)
  | write (sink : Nat) (data : ByteArray)
  | contents (sink : Nat)
  | take (sink : Nat)
  | takeStandard

inductive HostStep
  | add (input sink : Nat)
  | pollButtons (host : Nat)
  | pollAxes (host : Nat)
  | write (host : Nat) (data : ByteArray)
  | itemInputs (host : Nat)
  | cameraInputs (host : Nat)
  | puts (host : Nat) (data : ByteArray) (size : UInt32)
  | install (host : Nat)
  | current

inductive CallStep
  | capabilities
  | find (symbol : String)
  | call (symbol : String) (host : Nat)
  | handle (c : Capability) (host : Nat)
  | enter (c : Capability)
  | nativeItemInputs
  | nativeCameraInputs
  | nativePuts (data : ByteArray) (size : UInt32)

inductive Step
  | memory (step : MemoryStep)
  | registers (step : RegisterStep)
  | convention (step : ConventionStep)
  | input (step : InputStep)
  | output (step : OutputStep)
  | host (step : HostStep)
  | call (step : CallStep)

def Step.replacesMemory : Step → Bool
  | memory (.reserve _ _ _) => true
  | memory .reserveKseg0 => true
  | memory (.attach _ _) => true
  | _ => false

end CallGate.Session
