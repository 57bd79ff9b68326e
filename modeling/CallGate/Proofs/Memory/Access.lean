import CallGate.Memory.Pointer

/-! When an access to guest memory succeeds and what it comes to.

Success depends on base and size alone. What a reader sees is a function of the bytes of the image,
so two images with the same bytes answer every access alike. -/

namespace CallGate

namespace Scalar

def length (t : Scalar) : UInt32 := UInt32.ofNat t.size

@[simp] theorem toNat_length (t : Scalar) : t.length.toNat = t.size := by
  cases t <;> rfl

/-- Byte `i` of a value, counted from the most significant one. -/
def byteAt (t : Scalar) (v : t.Value) (i : Nat) : UInt8 :=
  UInt8.ofNat (t.toBits v / BigEndian.weight (t.size - (i + 1)))

theorem getD_encode (t : Scalar) (v : t.Value) (i : Nat) (inside : i < t.size) :
    (t.encode v).getD i 0 = t.byteAt v i :=
  BigEndian.getD_encode _ _ _ inside

theorem map_byteAt (t : Scalar) (v : t.Value) :
    (List.range t.size).map (t.byteAt v) = t.encode v := by
  apply List.ext_getElem
  · simp
  · intro i first second
    have inside : i < t.size := by simpa using first
    rw [List.getElem_map, List.getElem_range, ← t.getD_encode v i inside]
    exact (List.getElem_eq_getD 0).symm

end Scalar

namespace Memory

variable {m m' : Memory} {address length : UInt32}

def window (m : Memory) (start n : Nat) : List UInt8 :=
  (List.range n).map fun i => m.byte (start + i)

theorem image_toList (m : Memory) : m.image.data.toList = (List.range m.size).map m.byte := by
  apply List.ext_getElem
  · have room := m.size_le
    simp only [image, ByteArray.data_extract, Array.length_toList, Array.size_extract,
      ByteArray.size_data, List.length_map, List.length_range]
    omega
  · intro i first second
    have reachable : i < m.pages.size := by
      have inside : i < m.size := by simpa using second
      exact Nat.lt_of_lt_of_le inside m.size_le
    simp only [List.getElem_map, List.getElem_range, byte, getElem!_pos m.pages i reachable]
    simp [image, ByteArray.getElem_eq_getElem_data]

def Apart (p n q k : UInt32) : Prop :=
  p.toNat + n.toNat ≤ q.toNat ∨ q.toNat + k.toNat ≤ p.toNat

instance (p n q k : UInt32) : Decidable (Apart p n q k) := inferInstanceAs (Decidable (_ ∨ _))

theorem offset_apart {p n q k : UInt32} (first : m.Contains p n) (second : m.Contains q k)
    (apart : Apart p n q k) :
    m.offset p + n.toNat ≤ m.offset q ∨ m.offset q + k.toNat ≤ m.offset p := by
  have firstAbove := first.1
  have secondAbove := second.1
  simp only [offset]
  rcases apart with below | above
  · left
    omega
  · right
    omega

theorem contains_congr (base : m'.base = m.base) (size : m'.size = m.size) :
    m'.Contains address length ↔ m.Contains address length := by
  simp only [Contains, offset, base, size]

theorem offset_congr (base : m'.base = m.base) : m'.offset address = m.offset address := by
  simp only [offset, base]

theorem window_congr {start n : Nat}
    (same : ∀ i, start ≤ i → i < start + n → m'.byte i = m.byte i) :
    m'.window start n = m.window start n := by
  apply List.map_congr_left
  intro i member
  have small := List.mem_range.mp member
  exact same _ (by omega) (by omega)

theorem window_add (m : Memory) (start n k : Nat) :
    m.window start (n + k) = m.window start n ++ m.window (start + n) k := by
  simp only [window, List.range_add, List.map_append, List.map_map]
  congr 1
  apply List.map_congr_left
  intro i _
  rw [Function.comp_apply, Nat.add_assoc]

theorem bytes_of_contains (inside : m.Contains address length) :
    ∃ found, m.bytes address length = .ok found ∧
      found.data.toList = m.window (m.offset address) length.toNat := by
  have done : m.bytes address length
      = .ok (m.pages.extract (m.offset address) (m.offset address + length.toNat)) := by
    simp only [bytes, span, if_pos inside, Except.map]
  exact ⟨_, done, bytes_toList done⟩

theorem bytes_of_outside (outside : ¬ m.Contains address length) :
    m.bytes address length = .error (.outOfBounds address length) := by
  simp only [bytes, span, if_neg outside, Except.map]

theorem overwrite_of_outside (outside : ¬ m.Contains address length) (value : Nat → UInt8) :
    m.overwrite address length value = .error (.outOfBounds address length) := by
  simp only [overwrite, span, if_neg outside, Except.map]

theorem read_of_contains {t : Scalar} (inside : m.Contains address t.length) :
    m.read t address = .ok (t.decode (m.window (m.offset address) t.size)) := by
  obtain ⟨found, done, list⟩ := bytes_of_contains inside
  have read : m.read t address = .ok (t.decode found.data.toList) := by
    change (m.bytes address t.length).map _ = _
    rw [done]
    rfl
  rw [read, list, t.toNat_length]

theorem read_of_window {t : Scalar} (inside : m.Contains address t.length) {v : t.Value}
    (held : m.window (m.offset address) t.size = t.encode v) : m.read t address = .ok v := by
  rw [read_of_contains inside, held, t.decode_encode]

theorem read_of_outside {t : Scalar} (outside : ¬ m.Contains address t.length) :
    m.read t address = .error (.outOfBounds address t.length) := by
  change (m.bytes address t.length).map _ = _
  rw [bytes_of_outside outside]
  rfl

theorem readWord_eq_single (m : Memory) (address : UInt32) :
    m.readWord address = (m.read .f32 address).map Single.bits := by
  by_cases inside : m.Contains address 4
  · rw [readWord, read_of_contains (t := .u32) inside, read_of_contains (t := .f32) inside]
    rfl
  · rw [readWord, read_of_outside (t := .u32) inside, read_of_outside (t := .f32) inside]
    rfl

theorem write_of_contains {t : Scalar} (inside : m.Contains address t.length) (v : t.Value) :
    ∃ after, m.write t address v = .ok after ∧ after.base = m.base ∧ after.size = m.size ∧
      ∀ i, after.byte i = if m.offset address ≤ i ∧ i < m.offset address + t.size
        then t.byteAt v (i - m.offset address) else m.byte i := by
  obtain ⟨after, done, base, size, -⟩ :=
    overwrite_of_contains inside fun i => (t.encode v).getD i 0
  refine ⟨after, done, base, size, ?_⟩
  intro i
  rw [byte_overwrite done, t.toNat_length]
  split
  · next covered => exact t.getD_encode v _ (by omega)
  · rfl

theorem write_of_outside {t : Scalar} (outside : ¬ m.Contains address t.length) (v : t.Value) :
    m.write t address v = .error (.outOfBounds address t.length) :=
  overwrite_of_outside outside _

end Memory

end CallGate
