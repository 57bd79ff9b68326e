import CallGate.Capability.Basic
import CallGate.Convention.Argument
import CallGate.Input.Axes
import CallGate.Input.CameraMode
import CallGate.Memory.Reserve
import CallGate.Registers.Basic

/-! What a step of a session answers. -/

namespace CallGate.Session

inductive Reply
  | done
  | flag (holds : Bool)
  | number (n : Nat)
  | bytes (data : ByteArray)
  | register (value : UInt64)
  | scalar (t : Scalar) (value : t.Value)
  | axes (a : Axes)
  | mode (m : CameraMode)
  | reserved (base : UInt32) (size : Nat) (isEmpty : Bool)
  | attached (base : UInt32) (size : Nat)
  | each (results : List (Except Fault Argument))
  | decoded (values : List Argument)
  | script (asked : List Fetch) (result : Except Fault (List Argument))
  | capabilities (cs : List Capability)
  | found (c : Option Capability)

inductive Failure
  | fault (f : Fault)
  | reserve (e : ReserveError)
  | noSuchRegister (e : NoSuchRegister)
  | refused (reason : String)
  | noSuchCapability
  | noSuchInput (input : Nat)
  | noSuchSink (sink : Nat)
  | noSuchHost (host : Nat)
deriving DecidableEq, Repr

def Failure.message : Failure → Option String
  | fault f => some f.message
  | reserve e => some e.message
  | noSuchRegister e => some e.message
  | refused reason => some reason
  | noSuchCapability => none
  | noSuchInput _ => none
  | noSuchSink _ => none
  | noSuchHost _ => none

end CallGate.Session
