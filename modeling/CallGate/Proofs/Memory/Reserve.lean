import CallGate.Memory.Reserve
import CallGate.Proofs.Memory.Access

/-! What a reserved image is.

The address space is checked before any pages are asked for, so no source is bothered with an image that
could not be addressed (`reserveFrom_eq`). An image that is reserved is zero throughout, and so are the
pages behind it (`fresh_of_pages`). -/

namespace CallGate

namespace Memory

variable {base : UInt32} {size : Nat} {m : Memory}

/-- A service is asked once, for one byte at least, or not at all if the image is too large. -/
theorem reserveFrom_eq {σ : Type} (service : PageService σ) (base : UInt32) (size : Nat) (s : σ) :
    reserveFrom service base size s = (reserve (fun n => (service n s).1) base size,
      if base.toNat + size > addressSpace then s else (service (max size 1) s).2) := by
  unfold reserve reserveFrom PageSource.service
  split
  · rfl
  · cases answer : (service (max size 1) s).1 <;> simp only [answer]

theorem reserve_of_tooLarge (tooLarge : base.toNat + size > addressSpace) (source : PageSource) :
    reserve source base size = .error (.tooLarge base size) := by
  rw [reserve, reserveFrom, if_pos tooLarge]

theorem reserve_of_fits (fits : base.toNat + size ≤ addressSpace) (source : PageSource) :
    reserve source base size = match source (max size 1) with
      | none => .error .allocation
      | some pages => .ok ⟨base, size, pages.bytes, pages.covers_size⟩ := by
  rw [reserve, reserveFrom, if_neg (Nat.not_lt.mpr fits)]
  cases answer : source (max size 1) <;> simp only [PageSource.service, answer]

theorem tooLarge_iff (source : PageSource) (base : UInt32) (size : Nat) :
    reserve source base size = .error (.tooLarge base size) ↔
      base.toNat + size > addressSpace := by
  constructor
  · intro refused
    by_cases fits : base.toNat + size ≤ addressSpace
    · rw [reserve_of_fits fits] at refused
      cases answer : source (max size 1) <;> simp [answer] at refused
    · exact Nat.not_le.mp fits
  · intro tooLarge
    exact reserve_of_tooLarge tooLarge source

structure Fresh (base : UInt32) (size : Nat) (m : Memory) : Prop where
  base : m.base = base
  size : m.size = size
  zero : ∀ i, m.byte i = 0

theorem fresh_of_pages {n : Nat} (base : UInt32) (pages : Pages n)
    (covers : size ≤ pages.bytes.size) :
    Fresh base size ⟨base, size, pages.bytes, covers⟩ := by
  refine ⟨rfl, rfl, ?_⟩
  intro i
  by_cases inside : i < pages.bytes.size
  · rw [byte, getElem!_pos pages.bytes i inside]
    exact pages.zeroed i inside
  · rw [byte, getElem!_neg pages.bytes i inside]
    rfl

theorem Fresh.image (fresh : Fresh base size m) : m.image.data.toList = List.replicate size 0 := by
  rw [image_toList, fresh.size]
  apply List.ext_getElem
  · simp
  · intro i first second
    rw [List.getElem_map, fresh.zero, List.getElem_replicate]

theorem Fresh.isEmpty (fresh : Fresh base size m) : m.isEmpty = true ↔ size = 0 := by
  rw [Memory.isEmpty, fresh.size, beq_iff_eq]

end Memory

end CallGate
