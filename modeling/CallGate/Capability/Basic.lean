/-! The table of capabilities: what a guest may call, under which symbol and with which arguments. -/

namespace CallGate

inductive Capability
  | itemInputs
  | cameraInputs
  | puts
deriving DecidableEq, Repr

namespace Capability

def name : Capability → String
  | itemInputs => "get_item_inputs"
  | cameraInputs => "get_camera_inputs"
  | puts => "puts"

def symbol (c : Capability) : String := "recomp_" ++ c.name

/-- The arguments that a capability is declared with. -/
def argumentNames : Capability → List String
  | itemInputs => ["buttons"]
  | cameraInputs => ["x_out", "y_out"]
  | puts => ["data", "size"]

def arity (c : Capability) : Nat := c.argumentNames.length

def all : List Capability := [itemInputs, cameraInputs, puts]

def find? (symbol : String) : Option Capability := all.find? fun c => c.symbol = symbol

def ofName? (name : String) : Option Capability := all.find? fun c => c.name = name

def describe (c : Capability) : String :=
  "Capability \x7b name: \"" ++ c.symbol ++ "\", arity: " ++ toString c.arity ++ ", .. \x7d"

theorem mem_all (c : Capability) : c ∈ all := by
  cases c <;> decide

end Capability

end CallGate
