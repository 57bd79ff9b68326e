import CallGate.Proofs.Memory.Equality
import Mathlib.Data.List.GetD

/-! One codec for all the types of values.

A value and its bytes determine each other. Types of one size take the same bytes as an unsigned number,
in two's complement, or as the bits of a float, and the bytes of an unsigned number are those of its high
half followed by those of its low one. So accesses of different types at one address agree
(`types_share_bytes`). -/

namespace CallGate

namespace Scalar

def unsigned : Scalar → Scalar
  | u8 | i8 => u8
  | u16 | i16 => u16
  | u32 | i32 | f32 => u32
  | u64 | i64 | f64 => u64

def half? : Scalar → Option Scalar
  | u16 => some u8
  | u32 => some u16
  | u64 => some u32
  | _ => none

/-- The integer that a value is. A float counts as its bits. -/
def number : (t : Scalar) → t.Value → Int
  | i8, v => Int8.toInt v
  | i16, v => Int16.toInt v
  | i32, v => Int32.toInt v
  | i64, v => Int64.toInt v
  | t, v => (t.toBits v : Nat)

/-- What an unsigned number of the same size reads as. -/
def reading (t : Scalar) (bits : Int) : Int :=
  match t with
  | i8 | i16 | i32 | i64 => Int.bmod bits (BigEndian.weight t.size)
  | _ => bits

variable {t h : Scalar}

@[simp] theorem size_unsigned (t : Scalar) : t.unsigned.size = t.size := by
  cases t <;> rfl

@[simp] theorem length_unsigned (t : Scalar) : t.unsigned.length = t.length := by
  cases t <;> rfl

theorem number_unsigned (t : Scalar) (u : t.unsigned.Value) :
    t.unsigned.number u = t.unsigned.toBits u := by
  cases t <;> rfl

theorem number_eq_reading (t : Scalar) (v : t.Value) : t.number v = t.reading (t.toBits v) := by
  cases t with
  | i8 | i16 | i32 | i64 => exact BitVec.toInt_eq_toNat_bmod _
  | _ => rfl

theorem toBits_eq_decode (t : Scalar) (v : t.Value) : t.toBits v = BigEndian.decode (t.encode v) := by
  rw [encode, BigEndian.decode_encode, Nat.mod_eq_of_lt (t.toBits_lt v)]

theorem number_of_encode {v : t.Value} {u : t.unsigned.Value}
    (same : t.unsigned.encode u = t.encode v) : t.number v = t.reading (t.unsigned.number u) := by
  rw [number_eq_reading, number_unsigned, toBits_eq_decode, toBits_eq_decode, same]

theorem half_facts (halved : t.half? = some h) :
    t.size = h.size + h.size ∧ (∀ v, t.number v = t.toBits v) ∧ ∀ v, h.number v = h.toBits v := by
  cases t <;> cases halved <;> exact ⟨rfl, fun _ => rfl, fun _ => rfl⟩

theorem number_of_halves (halved : t.half? = some h) {v : t.Value} {hi lo : h.Value}
    (parts : t.encode v = h.encode hi ++ h.encode lo) :
    t.number v = h.number hi * BigEndian.weight h.size + h.number lo := by
  obtain ⟨-, whole, half⟩ := half_facts halved
  have joined : t.toBits v = h.toBits hi * BigEndian.weight h.size + h.toBits lo := by
    calc
      t.toBits v = BigEndian.decode (h.encode hi ++ h.encode lo) := by
        rw [toBits_eq_decode, parts]
      _ = BigEndian.decode (h.encode hi) * BigEndian.weight h.size
          + BigEndian.decode (h.encode lo) := by
        rw [BigEndian.decode_append, length_encode]
      _ = h.toBits hi * BigEndian.weight h.size + h.toBits lo := by
        rw [← toBits_eq_decode, ← toBits_eq_decode]
  rw [whole, half, half, joined]
  norm_cast

theorem encode_halves (halved : t.half? = some h) (v : t.Value) :
    ∃ hi lo, t.encode v = h.encode hi ++ h.encode lo := by
  have whole := t.length_encode v
  have double := (half_facts halved).1
  refine ⟨h.decode ((t.encode v).take h.size), h.decode ((t.encode v).drop h.size), ?_⟩
  rw [h.encode_decode _ (by simp; omega), h.encode_decode _ (by simp; omega), List.take_append_drop]

end Scalar

namespace Memory

variable {m : Memory} {t h : Scalar} {address : UInt32}

theorem contains_halves (halved : t.half? = some h) (inside : m.Contains address t.length)
    (fits : address.toNat + h.size < 0x100000000) :
    m.Contains address h.length ∧ m.Contains (address + h.length) h.length ∧
      m.offset (address + h.length) = m.offset address + h.size := by
  have double := (Scalar.half_facts halved).1
  have next : (address + h.length).toNat = address.toNat + h.size := by
    rw [UInt32.toNat_add, h.toNat_length]
    exact Nat.mod_eq_of_lt fits
  obtain ⟨above, room⟩ := inside
  have place : m.offset (address + h.length) = m.offset address + h.size := by
    simp only [offset, next]
    omega
  rw [t.toNat_length] at room
  refine ⟨⟨above, ?_⟩, ⟨?_, ?_⟩, place⟩
  · rw [h.toNat_length]
    omega
  · rw [next]
    omega
  · rw [place, h.toNat_length]
    omega

theorem write_of_read {v : t.Value} (found : m.read t address = .ok v) :
    m.write t address v = .ok m := by
  have inside := contains_of_read found
  have done := Edit.attempt_eq_apply (e := .typed t address v) inside
  rwa [Edit.apply_of_read found] at done

theorem read_unsigned (inside : m.Contains address t.length) :
    ∃ v u, m.read t address = .ok v ∧ m.read t.unsigned address = .ok u ∧
      t.number v = t.reading (t.unsigned.number u) := by
  have inside' : m.Contains address t.unsigned.length := by
    rwa [t.length_unsigned]
  refine ⟨_, _, read_of_contains inside, read_of_contains inside', Scalar.number_of_encode ?_⟩
  rw [t.unsigned.encode_decode _ (m.length_window _ _), t.encode_decode _ (m.length_window _ _),
    t.size_unsigned]

theorem write_unsigned (m : Memory) (address : UInt32) (v : t.Value) :
    ∃ u, t.number v = t.reading (t.unsigned.number u) ∧
      m.write t address v = m.write t.unsigned address u := by
  have whole : (t.encode v).length = t.unsigned.size := by
    rw [t.length_encode, t.size_unsigned]
  have same := t.unsigned.encode_decode _ whole
  refine ⟨_, Scalar.number_of_encode same, ?_⟩
  simp only [write, same, t.size_unsigned]

theorem read_halves (halved : t.half? = some h) (inside : m.Contains address t.length)
    (fits : address.toNat + h.size < 0x100000000) :
    ∃ v hi lo, m.read t address = .ok v ∧ m.read h address = .ok hi ∧
      m.read h (address + h.length) = .ok lo ∧
      t.number v = h.number hi * BigEndian.weight h.size + h.number lo := by
  obtain ⟨first, second, place⟩ := contains_halves halved inside fits
  refine ⟨_, _, _, read_of_contains inside, read_of_contains first, read_of_contains second,
    Scalar.number_of_halves halved ?_⟩
  rw [t.encode_decode _ (m.length_window _ _), h.encode_decode _ (m.length_window _ _),
    h.encode_decode _ (m.length_window _ _), (Scalar.half_facts halved).1, window_add, place]

end Memory

namespace Edit

variable {m : Memory} {t h : Scalar} {address : UInt32}

theorem byte_apply_halves (halved : t.half? = some h) (inside : m.Contains address t.length)
    {v : t.Value} {hi lo : h.Value} (parts : t.encode v = h.encode hi ++ h.encode lo) (i : Nat) :
    (apply m (.typed t address v)).byte i =
      if m.offset address + h.size ≤ i ∧ i < m.offset address + h.size + h.size
        then (h.encode lo).getD (i - (m.offset address + h.size)) 0
      else if m.offset address ≤ i ∧ i < m.offset address + h.size
        then (h.encode hi).getD (i - m.offset address) 0
      else m.byte i := by
  rw [byte_apply_typed inside, parts, (Scalar.half_facts halved).1]
  by_cases low : m.offset address + h.size ≤ i ∧ i < m.offset address + h.size + h.size
  · rw [if_pos low, if_pos (by omega), List.getD_append_right _ _ _ _ (by simp; omega),
      h.length_encode, Nat.sub_sub]
  · rw [if_neg low]
    by_cases high : m.offset address ≤ i ∧ i < m.offset address + h.size
    · rw [if_pos high, if_pos (by omega), List.getD_append _ _ _ _ (by simp; omega)]
    · rw [if_neg high, if_neg (by omega)]

theorem run_halves (halved : t.half? = some h) (inside : m.Contains address t.length)
    (fits : address.toNat + h.size < 0x100000000) {v : t.Value} {hi lo : h.Value}
    (parts : t.encode v = h.encode hi ++ h.encode lo) :
    run m [.typed h address hi, .typed h (address + h.length) lo] = apply m (.typed t address v) ∧
    run m [.typed h (address + h.length) lo, .typed h address hi] = apply m (.typed t address v) := by
  obtain ⟨first, second, place⟩ := Memory.contains_halves halved inside fits
  change run m _ = run m [_] ∧ run m _ = run m [_]
  constructor
  · apply run_eq_of_byte
    intro i
    simp only [run_cons, run_nil]
    rw [byte_apply_halves halved inside parts, byte_apply_typed ((apply_contains ..).mpr second),
      apply_offset, place, byte_apply_typed first]
  · apply run_eq_of_byte
    intro i
    simp only [run_cons, run_nil]
    rw [byte_apply_halves halved inside parts, byte_apply_typed ((apply_contains ..).mpr first),
      apply_offset, byte_apply_typed second, place]
    -- no offset is in both halves, so it does not matter which one is asked for first
    split
    · next high => rw [if_neg (by omega)]
    · rfl

end Edit

namespace Memory

theorem write_halves {m : Memory} {t h : Scalar} {address : UInt32} (halved : t.half? = some h)
    (inside : m.Contains address t.length) (fits : address.toNat + h.size < 0x100000000) (v : t.Value) :
    ∃ hi lo after, t.number v = h.number hi * BigEndian.weight h.size + h.number lo ∧
      m.write t address v = .ok after ∧
      (do (← m.write h address hi).write h (address + h.length) lo) = .ok after ∧
      (do (← m.write h (address + h.length) lo).write h address hi) = .ok after := by
  obtain ⟨hi, lo, parts⟩ := Scalar.encode_halves halved v
  obtain ⟨first, second, -⟩ := contains_halves halved inside fits
  obtain ⟨upward, downward⟩ := Edit.run_halves halved inside fits parts
  have stored (m : Memory) (t : Scalar) (address : UInt32) (v : t.Value)
      (inside : m.Contains address t.length) :
      m.write t address v = .ok (Edit.apply m (.typed t address v)) :=
    Edit.attempt_eq_apply (e := .typed t address v) inside
  refine ⟨hi, lo, _, Scalar.number_of_halves halved parts, stored m t address v inside, ?_, ?_⟩
  · rw [stored m h address hi first, ← upward]
    exact stored _ h _ lo ((Edit.apply_contains ..).mpr second)
  · rw [stored m h _ lo second, ← downward]
    exact stored _ h _ hi ((Edit.apply_contains ..).mpr first)

/-- The codec is one bijection for each type, and these agree. A value comes back from its bytes and bytes
from their value, so storing what was just read changes nothing. Where a value lies in the image, a signed
one reads and is stored as the unsigned number with its two's complement, and a float as its bits; an
unsigned one reads and is stored as its halves, the high one first in memory and either one first in
time, if the address of the low one can be written. -/
theorem types_share_bytes (m : Memory) :
    (∀ t : Scalar,
      (∀ v, (t.encode v).length = t.size ∧ t.decode (t.encode v) = v) ∧
      ∀ bytes, bytes.length = t.size → t.encode (t.decode bytes) = bytes) ∧
    (∀ (t : Scalar) address v, m.read t address = .ok v → m.write t address v = .ok m) ∧
    (∀ (t : Scalar) address, m.Contains address t.length →
      (∃ v u, m.read t address = .ok v ∧ m.read t.unsigned address = .ok u ∧
        t.number v = t.reading (t.unsigned.number u)) ∧
      ∀ v, ∃ u after, t.number v = t.reading (t.unsigned.number u) ∧
        m.write t address v = .ok after ∧ m.write t.unsigned address u = .ok after) ∧
    ∀ (t h : Scalar) address, t.half? = some h → m.Contains address t.length →
      address.toNat + h.size < 0x100000000 →
      (∃ v hi lo, m.read t address = .ok v ∧ m.read h address = .ok hi ∧
        m.read h (address + h.length) = .ok lo ∧
        t.number v = h.number hi * BigEndian.weight h.size + h.number lo) ∧
      ∀ v, ∃ hi lo after, t.number v = h.number hi * BigEndian.weight h.size + h.number lo ∧
        m.write t address v = .ok after ∧
        (do (← m.write h address hi).write h (address + h.length) lo) = .ok after ∧
        (do (← m.write h (address + h.length) lo).write h address hi) = .ok after := by
  refine ⟨?_, fun t address v => write_of_read, ?_, ?_⟩
  · intro t
    exact ⟨fun v => ⟨t.length_encode v, t.decode_encode v⟩, t.encode_decode⟩
  · intro t address inside
    refine ⟨read_unsigned inside, ?_⟩
    intro v
    obtain ⟨u, same, stored⟩ := m.write_unsigned address v
    obtain ⟨after, done, -⟩ := write_of_contains inside v
    exact ⟨u, after, same, done, stored ▸ done⟩
  · intro t h address halved inside fits
    exact ⟨read_halves halved inside fits, write_halves halved inside fits⟩

def signalingImage : Memory :=
  ofImage 0x80000000 ⟨#[0x7f, 0xa0, 0x00, 0x01, 0x80, 0x00, 0x00, 0x02]⟩

theorem types_share_bytes_signaling :
    (([0xff, 0xf0, 0, 0, 0, 0, 0, 1] : List UInt8).length = Scalar.f64.size ∧
      Scalar.f64.encode (Scalar.f64.decode [0xff, 0xf0, 0, 0, 0, 0, 0, 1])
        = [0xff, 0xf0, 0, 0, 0, 0, 0, 1]) ∧
    (signalingImage.read .f32 0x80000000 = .ok ⟨0x7fa00001⟩ ∧
      signalingImage.write .f32 0x80000000 ⟨0x7fa00001⟩ = .ok signalingImage) ∧
    (signalingImage.Contains 0x80000003 Scalar.i32.length ∧
      ∃ v u, signalingImage.read .i32 0x80000003 = .ok v ∧
        signalingImage.read .u32 0x80000003 = .ok u ∧
        Scalar.i32.number v = Scalar.i32.reading (Scalar.u32.number u)) ∧
    Scalar.u64.half? = some .u32 ∧ signalingImage.Contains 0x80000000 Scalar.u64.length ∧
      (0x80000000 : UInt32).toNat + Scalar.u32.size < 0x100000000 ∧
      ∃ v hi lo, signalingImage.read .u64 0x80000000 = .ok v ∧
        signalingImage.read .u32 0x80000000 = .ok hi ∧
        signalingImage.read .u32 (0x80000000 + Scalar.u32.length) = .ok lo ∧
        Scalar.u64.number v
          = Scalar.u32.number hi * BigEndian.weight Scalar.u32.size + Scalar.u32.number lo := by
  have held : signalingImage.read .f32 0x80000000 = .ok ⟨0x7fa00001⟩ := by rfl
  have within : signalingImage.Contains 0x80000003 Scalar.i32.length := by decide
  have wide : signalingImage.Contains 0x80000000 Scalar.u64.length := by decide
  have fits : (0x80000000 : UInt32).toNat + Scalar.u32.size < 0x100000000 := by decide
  obtain ⟨codec, back, shared, halves⟩ := types_share_bytes signalingImage
  exact ⟨⟨rfl, (codec .f64).2 _ rfl⟩, ⟨held, back .f32 _ _ held⟩,
    ⟨within, (shared .i32 _ within).1⟩, rfl, wide, fits, (halves .u64 .u32 _ rfl wide fits).1⟩

end Memory

end CallGate
