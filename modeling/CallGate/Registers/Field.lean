import CallGate.Registers.Basic

/-! The raw fields behind a register file: what a caller may store into directly, and what a report of
changes lists. -/

namespace CallGate

inductive Field
  | gpr (r : Reg)
  | fpr (r : Reg)
  | hi
  | lo
deriving DecidableEq, Repr

namespace Field

def name : Field → String
  | gpr r => "gpr" ++ toString r.val
  | fpr r => "fpr" ++ toString r.val
  | hi => "hi"
  | lo => "lo"

def all : List Field :=
  (List.finRange 32).map gpr ++ (List.finRange 32).map fpr ++ [hi, lo]

theorem mem_all (f : Field) : f ∈ all := by
  cases f <;> simp [all]

end Field

namespace Registers

def raw (regs : Registers) : Field → UInt64
  | .gpr r => regs.rawGpr r
  | .fpr r => regs.rawFpr r
  | .hi => regs.hi
  | .lo => regs.lo

def poke (regs : Registers) (f : Field) (value : UInt64) : Registers :=
  match f with
  | .gpr r => regs.withGpr r value
  | .fpr r => regs.withFpr r value
  | .hi => { regs with hi := value }
  | .lo => { regs with lo := value }

def changes (before after : Registers) : List (Field × UInt64) :=
  Field.all.filterMap fun f =>
    if before.raw f = after.raw f then none else some (f, after.raw f)

end Registers

end CallGate
