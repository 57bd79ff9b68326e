import CallGate.Input.Axes
import CallGate.Input.CameraMode

/-! What a guest polls: a controller that a frontend updates, or a device of any other make. -/

namespace CallGate

structure Controller where
  buttons : UInt32 := 0
  left : Axes := Axes.rest
  right : Axes := Axes.rest
deriving DecidableEq, Repr

namespace Controller

def setButtons (c : Controller) (held : UInt32) : Controller := { c with buttons := held }

def setLeft (c : Controller) (a : Axes) : Controller := { c with left := a.normalized }

def setRight (c : Controller) (a : Axes) : Controller := { c with right := a.normalized }

def cameraAxes (c : Controller) : CameraMode → Axes
  | .normal => Axes.rest
  | .dualAnalog => c.right

end Controller

/-- The answers to a poll, from the camera mode and the number of polls before it. A device is taken to do
no more than answer: polling it leaves the controllers, the camera mode and the installed host alone. -/
structure Device where
  buttons : CameraMode → Nat → UInt32
  cameraAxes : CameraMode → Nat → Axes

def Device.constant (held : UInt32) (axes : Axes) : Device :=
  ⟨fun _ _ => held, fun _ _ => axes⟩

inductive InputSource
  | pad (controller : Controller)
  | device (d : Device) (polls : Nat)

namespace InputSource

instance : Inhabited InputSource := ⟨pad {}⟩

def pollButtons (mode : CameraMode) : InputSource → UInt32 × InputSource
  | pad c => (c.buttons, pad c)
  | device d polls => (d.buttons mode polls, device d (polls + 1))

def pollAxes (mode : CameraMode) : InputSource → Axes × InputSource
  | pad c => (c.cameraAxes mode, pad c)
  | device d polls => (d.cameraAxes mode polls, device d (polls + 1))

def controller? : InputSource → Option Controller
  | pad c => some c
  | device _ _ => none

end InputSource

end CallGate
