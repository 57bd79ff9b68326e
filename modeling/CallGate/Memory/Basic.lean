import CallGate.Fault
import CallGate.Scalar

/-! Guest memory: a base address and an image of bytes.

Every access goes through `span`, the only bounds check. `byte` is the view of an image: reading
assembles bytes of the view (`bytes_toList`), writing replaces those of one span (`byte_overwrite`). -/

namespace CallGate

/-- The image is the first `size` bytes of `pages`; what lies behind it is never reached. -/
structure Memory where
  base : UInt32
  size : Nat
  pages : ByteArray
  size_le : size ≤ pages.size

namespace Memory

def ofImage (base : UInt32) (image : ByteArray) : Memory :=
  ⟨base, image.size, image, Nat.le_refl _⟩

def image (m : Memory) : ByteArray := m.pages.extract 0 m.size

def byte (m : Memory) (offset : Nat) : UInt8 := m.pages[offset]!

def offset (m : Memory) (address : UInt32) : Nat := address.toNat - m.base.toNat

/-- All `length` bytes from `address` on lie in the image. -/
def Contains (m : Memory) (address length : UInt32) : Prop :=
  m.base.toNat ≤ address.toNat ∧ m.offset address + length.toNat ≤ m.size

instance (m : Memory) (address length : UInt32) : Decidable (m.Contains address length) :=
  inferInstanceAs (Decidable (_ ∧ _))

def span (m : Memory) (address length : UInt32) : Except Fault Nat :=
  if m.Contains address length then .ok (m.offset address)
  else .error (.outOfBounds address length)

def bytes (m : Memory) (address length : UInt32) : Except Fault ByteArray :=
  (m.span address length).map fun start => m.pages.extract start (start + length.toNat)

/-- Puts `value i` at `start + i` for every `i` below the count, the last one first. -/
def fill (value : Nat → UInt8) (start : Nat) : Nat → ByteArray → ByteArray
  | 0, pages => pages
  | n + 1, pages => fill value start n (pages.set! (start + n) (value n))

@[simp] theorem size_fill (value : Nat → UInt8) (start n : Nat) (pages : ByteArray) :
    (fill value start n pages).size = pages.size := by
  induction n generalizing pages with
  | zero => rfl
  | succ n ih => simp [fill, ih]

theorem getElem!_fill (value : Nat → UInt8) (start n i : Nat) (pages : ByteArray)
    (fits : start + n ≤ pages.size) :
    (fill value start n pages)[i]!
      = if start ≤ i ∧ i < start + n then value (i - start) else pages[i]! := by
  induction n generalizing pages with
  | zero => rw [fill, if_neg (by omega)]
  | succ n ih =>
    rw [fill, ih _ (by simp; omega), ByteArray.getElem!_set! _ _ _ _ (by omega)]
    by_cases last : start + n = i
    · subst last
      rw [if_neg (by omega), if_pos rfl, if_pos (by omega), Nat.add_sub_cancel_left]
    · have same : (start ≤ i ∧ i < start + n) ↔ (start ≤ i ∧ i < start + (n + 1)) := by omega
      simp only [if_neg last, same]

def overwrite (m : Memory) (address length : UInt32) (value : Nat → UInt8) :
    Except Fault Memory :=
  (m.span address length).map fun start =>
    { m with
      pages := fill value start length.toNat m.pages
      size_le := by rw [size_fill]; exact m.size_le }

/-- Replaces the bytes from `address` on by the given ones, fewer than `2 ^ 32`. -/
def overwriteBytes (m : Memory) (address : UInt32) (data : ByteArray) : Except Fault Memory :=
  m.overwrite address (UInt32.ofNat data.size) fun i => data[i]!

def read (m : Memory) (t : Scalar) (address : UInt32) : Except Fault t.Value :=
  (m.bytes address (UInt32.ofNat t.size)).map fun found => t.decode found.data.toList

def write (m : Memory) (t : Scalar) (address : UInt32) (value : t.Value) : Except Fault Memory :=
  let encoded := t.encode value
  m.overwrite address (UInt32.ofNat t.size) fun i => encoded.getD i 0

def readWord (m : Memory) (address : UInt32) : Except Fault UInt32 := m.read .u32 address

def writeWord (m : Memory) (address : UInt32) (value : UInt32) : Except Fault Memory :=
  m.write .u32 address value

theorem overwrite_of_contains {m : Memory} {address length : UInt32}
    (inside : m.Contains address length) (value : Nat → UInt8) :
    ∃ m', m.overwrite address length value = .ok m' ∧ m'.base = m.base ∧ m'.size = m.size ∧
      m'.pages = fill value (m.offset address) length.toNat m.pages := by
  simp only [overwrite, span, if_pos inside]
  exact ⟨_, rfl, rfl, rfl, rfl⟩

theorem byte_overwrite {m m' : Memory} {address length : UInt32} {value : Nat → UInt8}
    (done : m.overwrite address length value = .ok m') (i : Nat) :
    m'.byte i = if m.offset address ≤ i ∧ i < m.offset address + length.toNat
      then value (i - m.offset address) else m.byte i := by
  by_cases inside : m.Contains address length
  · obtain ⟨m'', done', _, _, pages⟩ := overwrite_of_contains inside value
    rw [done] at done'
    cases done'
    rw [byte, byte, pages, getElem!_fill]
    exact Nat.le_trans inside.2 m.size_le
  · simp [overwrite, span, inside, Except.map] at done

theorem bytes_toList {m : Memory} {address length : UInt32} {found : ByteArray}
    (read : m.bytes address length = .ok found) :
    found.data.toList
      = (List.range length.toNat).map fun i => m.byte (m.offset address + i) := by
  by_cases inside : m.Contains address length
  · have room := Nat.le_trans inside.2 m.size_le
    simp only [bytes, span, if_pos inside, Except.map, Except.ok.injEq] at read
    subst read
    apply List.ext_getElem
    · simp only [ByteArray.data_extract, Array.length_toList, Array.size_extract, List.length_map,
        List.length_range, ByteArray.size_data]
      omega
    · intro i first second
      have small : i < length.toNat := by simpa using second
      have reachable : m.offset address + i < m.pages.size := by omega
      simp only [List.getElem_map, List.getElem_range, byte]
      rw [getElem!_pos m.pages _ reachable]
      exact ByteArray.getElem_extract _
  · simp [bytes, span, inside, Except.map] at read

end Memory

end CallGate
