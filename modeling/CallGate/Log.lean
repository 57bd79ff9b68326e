import CallGate.Fault
import CallGate.Input.CameraMode

/-! Messages for whoever watches a machine. -/

namespace CallGate

inductive Level
  | trace | debug | info | warn | error
deriving DecidableEq, Repr

def Level.name : Level → String
  | trace => "TRACE"
  | debug => "DEBUG"
  | info => "INFO"
  | warn => "WARN"
  | error => "ERROR"

inductive LogEntry
  | called (symbol : String)
  | aborted (symbol : String) (fault : Fault)
  | cameraModeSet (mode : CameraMode)
  | truncated (available requested : Nat)
  | dropped (size : Nat) (reason : String)
deriving DecidableEq, Repr

namespace LogEntry

def level : LogEntry → Level
  | called _ => .trace
  | aborted _ _ => .error
  | cameraModeSet _ => .debug
  | truncated _ _ => .warn
  | dropped _ _ => .warn

def text : LogEntry → String
  | called symbol => "guest call " ++ symbol
  | aborted symbol fault => symbol ++ " aborted: " ++ fault.message
  | cameraModeSet mode => "camera mode set to " ++ mode.name
  | truncated available requested =>
    "guest output truncated to " ++ toString available ++ " of " ++ toString requested ++ " bytes"
  | dropped size reason =>
    "dropped " ++ toString size ++ " bytes of guest output: " ++ reason

def line (e : LogEntry) : String := e.level.name ++ " " ++ e.text

end LogEntry

end CallGate
