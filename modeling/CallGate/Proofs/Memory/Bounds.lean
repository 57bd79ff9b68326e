import CallGate.Proofs.Calls.Effect
import CallGate.Proofs.Limits.Memory

/-! One bounds check for every way into guest memory.

A range of addresses is open if it lies in the image, and only then. A reader finds the bytes of the image
there (`slice_of_contains`), a writer puts others in their place and keeps the rest (`patched_of_contains`).
The check is stated over the integers; the sum and the difference that the machine takes for it never
wrap (`Checked.resolve_eq`). -/

namespace CallGate

namespace Memory

variable {m after : Memory} {address length : UInt32}

/-- `n` bytes of the image from an offset on, as a part of its list. -/
def slice (m : Memory) (start n : Nat) : List UInt8 := (m.image.data.toList.drop start).take n

def patched (m : Memory) (start : Nat) (bytes : List UInt8) : List UInt8 :=
  m.image.data.toList.take start ++ bytes ++ m.image.data.toList.drop (start + bytes.length)

theorem contains_iff (m : Memory) (address length : UInt32) :
    m.Contains address length ↔ (m.base.toNat : Int) ≤ address.toNat ∧
      (address.toNat : Int) - m.base.toNat + length.toNat ≤ m.size := by
  simp only [Contains, offset]
  omega

theorem window_eq_slice {start n : Nat} (room : start + n ≤ m.size) :
    m.window start n = m.slice start n := by
  rw [slice, image_toList]
  apply List.ext_getElem
  · simp only [window, List.length_map, List.length_range, List.length_take, List.length_drop]
    omega
  · intro i first second
    simp only [window, List.getElem_map, List.getElem_range, List.getElem_take, List.getElem_drop]

theorem length_slice {start n : Nat} (room : start + n ≤ m.size) : (m.slice start n).length = n := by
  rw [← window_eq_slice room, window, List.length_map, List.length_range]

theorem isOk_bytes (m : Memory) {address length : UInt32} :
    (m.bytes address length).isOk = true ↔ m.Contains address length := by
  by_cases inside : m.Contains address length
  · obtain ⟨found, done, -⟩ := bytes_of_contains inside
    rw [done]
    exact iff_of_true rfl inside
  · rw [bytes_of_outside inside]
    exact iff_of_false Bool.false_ne_true inside

/-- An image may run past the end of the address space, and its ranges with it. -/
example : ((ofImage 0xfffffffe ⟨Array.replicate 8 7⟩).bytes 0xffffffff 7).isOk = true := rfl

theorem slice_of_contains (inside : m.Contains address length) :
    ∃ found, m.bytes address length = .ok found ∧
      found.data.toList = m.slice (m.offset address) length.toNat := by
  obtain ⟨found, done, list⟩ := bytes_of_contains inside
  exact ⟨found, done, list.trans (window_eq_slice inside.2)⟩

theorem patched_of_byte {start n : Nat} {value : Nat → UInt8} (room : start + n ≤ m.size)
    (size : after.size = m.size)
    (bytes : ∀ i, after.byte i =
      if start ≤ i ∧ i < start + n then value (i - start) else m.byte i) :
    after.image.data.toList = m.patched start ((List.range n).map value) := by
  rw [patched, image_toList, image_toList, size]
  apply List.ext_getElem
  · simp only [List.length_append, List.length_map, List.length_range, List.length_take,
      List.length_drop]
    omega
  · intro i first second
    have small : i < m.size := by simpa using first
    simp only [List.getElem_map, List.getElem_range, bytes]
    by_cases before : i < start
    · rw [if_neg (by omega), List.getElem_append_left (by simp; omega),
        List.getElem_append_left (by simp; omega)]
      simp
    · by_cases within : i < start + n
      · rw [if_pos (by omega), List.getElem_append_left (by simp; omega),
          List.getElem_append_right (by simp; omega)]
        simp [Nat.min_eq_left (show start ≤ m.size by omega)]
      · rw [if_neg (by omega), List.getElem_append_right (by simp; omega)]
        simp only [List.length_append, List.length_map, List.length_range, List.length_take,
          List.getElem_drop, List.getElem_map, List.getElem_range]
        congr 1
        omega

end Memory

theorem Edit.patched_of_contains {m : Memory} {e : Edit} (inside : m.Contains e.address e.length) :
    ∃ after, e.attempt m = .ok after ∧ after.base = m.base ∧
      after.image.data.toList
        = m.patched (m.offset e.address) ((List.range e.length.toNat).map e.byteAt) := by
  obtain ⟨after, done, base, size, bytes⟩ := attempt_of_contains inside
  exact ⟨after, done, base, Memory.patched_of_byte inside.2 size bytes⟩

namespace Checked

theorem resolve_eq (m : Memory) (address length : UInt32) :
    resolve m address length = .ok (if m.Contains address length
      then .ok ⟨m.offset address, m.offset address + length.toNat⟩
      else .error (.outOfBounds address length)) := by
  split
  · next inside => exact resolve_of_contains inside
  · next outside => exact resolve_of_outside outside

end Checked

namespace Machine

theorem store_cases (m : Machine) (t : Scalar) (address : UInt32) (v : t.Value) :
    if m.memory.Contains address t.length then
      ∃ after, m.store t ⟨address⟩ v = (.ok (), { m with memory := after }) ∧
        after.image.data.toList = m.memory.patched (m.memory.offset address) (t.encode v)
    else m.store t ⟨address⟩ v = (.error (.outOfBounds address t.length), m) := by
  split
  · next inside =>
    obtain ⟨after, done, -, image⟩ := Edit.patched_of_contains (e := .typed t address v) inside
    have written : m.memory.write t address v = .ok after := done
    refine ⟨after, ?_, ?_⟩
    · simp only [store, written]
    · rw [image, ← t.map_byteAt, ← t.toNat_length]
      rfl
  · next outside => exact store_of_outside outside v

/-- Bounds checks are exact, and the same on every path into memory. A range is open exactly if it lies in
the image, as a fact about integers, and the arithmetic of the check never wraps. Both readers of a range
find the bytes of the image there, and each way of writing replaces these and no others; any other range
is refused, with itself in the fault. Values and words are read and stored exactly where their bytes can
be had, and a refused store leaves the machine as it was. -/
theorem accesses_exact (m : Machine) :
    (∀ address length : UInt32,
      (m.memory.Contains address length ↔ (m.memory.base.toNat : Int) ≤ address.toNat ∧
        (address.toNat : Int) - m.memory.base.toNat + length.toNat ≤ m.memory.size) ∧
      Checked.resolve m.memory address length = .ok (if m.memory.Contains address length
        then .ok ⟨m.memory.offset address, m.memory.offset address + length.toNat⟩
        else .error (.outOfBounds address length))) ∧
    (∀ address length : UInt32,
      if m.memory.Contains address length then
        ∃ found, m.memory.bytes address length = .ok found ∧
          m.memory.text ⟨address⟩ length = .ok found ∧ found.size = length.toNat ∧
          found.data.toList = m.memory.slice (m.memory.offset address) length.toNat
      else m.memory.bytes address length = .error (.outOfBounds address length) ∧
        m.memory.text ⟨address⟩ length = .error (.outOfBounds address length)) ∧
    (∀ e : Edit,
      if m.memory.Contains e.address e.length then
        ∃ after, e.attempt m.memory = .ok after ∧ after.base = m.memory.base ∧
          after.image.data.toList = m.memory.patched (m.memory.offset e.address)
            ((List.range e.length.toNat).map e.byteAt)
      else e.attempt m.memory = .error (.outOfBounds e.address e.length)) ∧
    (∀ (t : Scalar) (address : UInt32),
      match m.memory.bytes address t.length with
      | .ok found =>
        m.memory.read t address = .ok (t.decode found.data.toList) ∧
        ∀ v, ∃ after, m.store t ⟨address⟩ v = (.ok (), { m with memory := after }) ∧
          after.image.data.toList = m.memory.patched (m.memory.offset address) (t.encode v)
      | .error _ =>
        m.memory.read t address = .error (.outOfBounds address t.length) ∧
        ∀ v, m.store t ⟨address⟩ v = (.error (.outOfBounds address t.length), m)) ∧
    ∀ address : UInt32,
      if (m.memory.bytes address 4).isOk then
        (∃ word, m.memory.readWord address = .ok word) ∧
        ∀ v, ∃ after, m.memory.writeWord address v = .ok after
      else m.memory.readWord address = .error (.outOfBounds address 4) ∧
        ∀ v, m.memory.writeWord address v = .error (.outOfBounds address 4) := by
  refine ⟨?_, ?_, ?_, ?_, ?_⟩
  · intro address length
    exact ⟨m.memory.contains_iff address length, Checked.resolve_eq m.memory address length⟩
  · intro address length
    split
    · next inside =>
      obtain ⟨found, done, list⟩ := Memory.slice_of_contains inside
      have whole : found.size = length.toNat := by
        rw [← Memory.length_slice inside.2, ← list]
        rfl
      exact ⟨found, done, done, whole, list⟩
    · next outside =>
      have refused := Memory.bytes_of_outside outside
      exact ⟨refused, refused⟩
  · intro e
    split
    · next inside => exact Edit.patched_of_contains inside
    · next outside => exact Edit.attempt_of_outside outside
  · intro t address
    have stored := m.store_cases t address
    by_cases inside : m.memory.Contains address t.length
    · obtain ⟨found, done, list⟩ := Memory.bytes_of_contains inside
      simp only [if_pos inside] at stored
      simp only [done, list, t.toNat_length]
      exact ⟨Memory.read_of_contains inside, stored⟩
    · simp only [if_neg inside] at stored
      simp only [Memory.bytes_of_outside inside]
      exact ⟨Memory.read_of_outside inside, stored⟩
  · intro address
    by_cases inside : m.memory.Contains address 4
    · rw [if_pos (m.memory.isOk_bytes.mpr inside)]
      refine ⟨⟨_, Memory.read_of_contains (t := .u32) inside⟩, ?_⟩
      intro v
      obtain ⟨after, written, -⟩ := Memory.write_of_contains (t := .u32) inside v
      exact ⟨after, written⟩
    · rw [if_neg (mt m.memory.isOk_bytes.mp inside)]
      exact ⟨Memory.read_of_outside (t := .u32) inside, Memory.write_of_outside (t := .u32) inside⟩

end Machine

end CallGate
