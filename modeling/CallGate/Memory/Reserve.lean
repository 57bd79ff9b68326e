import CallGate.Memory.Basic

/-! Reserving an image of zeroed pages. A reserved image never runs past the end of the 32-bit address
space, whatever the pages behind it do. -/

namespace CallGate

structure Pages (n : Nat) where
  bytes : ByteArray
  covers : n ≤ bytes.size
  zeroed : ∀ i (inside : i < bytes.size), bytes[i] = 0

/-- Hands out pages for one request after the other, or has no room for them. It may remember the earlier
requests. -/
abbrev PageService (σ : Type) := (n : Nat) → σ → Option (Pages n) × σ

/-- A service without a memory. -/
abbrev PageSource := (n : Nat) → Option (Pages n)

namespace Pages

def pageSize : Nat := 4096

def rounded (n : Nat) : Pages n where
  bytes := ⟨Array.replicate ((n + (pageSize - 1)) / pageSize * pageSize) 0⟩
  covers := by
    simp only [ByteArray.size, Array.size_replicate, pageSize]
    omega
  zeroed i inside := Array.getElem_replicate _

theorem covers_size {size : Nat} (pages : Pages (max size 1)) : size ≤ pages.bytes.size :=
  Nat.le_trans (Nat.le_max_left size 1) pages.covers

end Pages

namespace PageSource

def service (source : PageSource) : PageService Unit := fun n s => (source n, s)

def unlimited : PageSource := fun n => some (Pages.rounded n)

def gigabyte : Nat := 0x40000000

def below (limit : Nat) : PageSource := fun n =>
  if n < limit then some (Pages.rounded n) else none

end PageSource

inductive ReserveError
  | tooLarge (base : UInt32) (size : Nat)
  | allocation
deriving DecidableEq, Repr

def ReserveError.message : ReserveError → String
  | .tooLarge base size =>
    Hex.literal 1 size ++ " bytes at " ++ Hex.literal 8 base.toNat
      ++ " exceed the guest address space"
  | .allocation => "Error allocating guest memory"

namespace Memory

def addressSpace : Nat := 0x100000000

/-- An empty image keeps a page too. -/
def reserveFrom {σ : Type} (service : PageService σ) (base : UInt32) (size : Nat) (s : σ) :
    Except ReserveError Memory × σ :=
  if base.toNat + size > addressSpace then (.error (.tooLarge base size), s)
  else
    let answer := service (max size 1) s
    match answer.1 with
    | none => (.error .allocation, answer.2)
    | some pages => (.ok ⟨base, size, pages.bytes, pages.covers_size⟩, answer.2)

def reserve (source : PageSource) (base : UInt32) (size : Nat) : Except ReserveError Memory :=
  (reserveFrom source.service base size ()).1

def kseg0Base : UInt32 := 0x80000000

def kseg0Size : Nat := 0x800000

/-- An image without pages of its own, which may run past the end of the address space. -/
def flat (base : UInt32) (size : Nat) : Memory :=
  ofImage base ⟨Array.replicate size 0⟩

def isEmpty (m : Memory) : Bool := m.size == 0

end Memory

end CallGate
