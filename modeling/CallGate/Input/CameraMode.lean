/-! How the right stick is read. -/

namespace CallGate

inductive CameraMode
  | normal
  | dualAnalog
deriving DecidableEq, Repr, Inhabited

namespace CameraMode

def raw : CameraMode → UInt8
  | normal => 0
  | dualAnalog => 1

/-- A value that names no mode stands for normal. -/
def ofRaw (value : UInt8) : CameraMode := if value = 1 then dualAnalog else normal

def name : CameraMode → String
  | normal => "Normal"
  | dualAnalog => "DualAnalog"

theorem ofRaw_raw (mode : CameraMode) : ofRaw mode.raw = mode := by
  cases mode <;> rfl

end CameraMode

end CallGate
