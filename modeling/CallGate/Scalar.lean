import CallGate.Bytes.BigEndian
import CallGate.Floating

/-! The plain values that live in guest memory, and their big-endian bytes. -/

namespace CallGate

inductive Scalar
  | u8 | i8 | u16 | i16 | u32 | i32 | u64 | i64 | f32 | f64
deriving DecidableEq, Repr

namespace Scalar

abbrev Value : Scalar → Type
  | u8 => UInt8
  | i8 => Int8
  | u16 => UInt16
  | i16 => Int16
  | u32 => UInt32
  | i32 => Int32
  | u64 => UInt64
  | i64 => Int64
  | f32 => Single
  | f64 => Double

def size : Scalar → Nat
  | u8 | i8 => 1
  | u16 | i16 => 2
  | u32 | i32 | f32 => 4
  | u64 | i64 | f64 => 8

def toBits : (t : Scalar) → t.Value → Nat
  | u8, v => UInt8.toNat v
  | i8, v => (Int8.toUInt8 v).toNat
  | u16, v => UInt16.toNat v
  | i16, v => (Int16.toUInt16 v).toNat
  | u32, v => UInt32.toNat v
  | i32, v => (Int32.toUInt32 v).toNat
  | u64, v => UInt64.toNat v
  | i64, v => (Int64.toUInt64 v).toNat
  | f32, v => (Single.bits v).toNat
  | f64, v => (Double.bits v).toNat

def ofBits : (t : Scalar) → Nat → t.Value
  | u8, n => UInt8.ofNat n
  | i8, n => (UInt8.ofNat n).toInt8
  | u16, n => UInt16.ofNat n
  | i16, n => (UInt16.ofNat n).toInt16
  | u32, n => UInt32.ofNat n
  | i32, n => (UInt32.ofNat n).toInt32
  | u64, n => UInt64.ofNat n
  | i64, n => (UInt64.ofNat n).toInt64
  | f32, n => Single.mk (UInt32.ofNat n)
  | f64, n => Double.mk (UInt64.ofNat n)

def encode (t : Scalar) (v : t.Value) : List UInt8 := BigEndian.encode t.size (t.toBits v)

def decode (t : Scalar) (bytes : List UInt8) : t.Value := t.ofBits (BigEndian.decode bytes)

@[simp] theorem length_encode (t : Scalar) (v : t.Value) : (t.encode v).length = t.size :=
  BigEndian.length_encode _ _

theorem toBits_lt : (t : Scalar) → (v : t.Value) → t.toBits v < BigEndian.weight t.size
  | u8, v => UInt8.toNat_lt v
  | i8, v => UInt8.toNat_lt (Int8.toUInt8 v)
  | u16, v => UInt16.toNat_lt v
  | i16, v => UInt16.toNat_lt (Int16.toUInt16 v)
  | u32, v => UInt32.toNat_lt v
  | i32, v => UInt32.toNat_lt (Int32.toUInt32 v)
  | u64, v => UInt64.toNat_lt v
  | i64, v => UInt64.toNat_lt (Int64.toUInt64 v)
  | f32, v => UInt32.toNat_lt (Single.bits v)
  | f64, v => UInt64.toNat_lt (Double.bits v)

theorem ofBits_toBits (t : Scalar) (v : t.Value) : t.ofBits (t.toBits v) = v := by
  cases t <;> simp [ofBits, toBits]

theorem toBits_ofBits (t : Scalar) (n : Nat) : t.toBits (t.ofBits n) = n % BigEndian.weight t.size := by
  cases t <;> simp [ofBits, toBits, size, BigEndian.weight]

theorem decode_encode (t : Scalar) (v : t.Value) : t.decode (t.encode v) = v := by
  rw [decode, encode, BigEndian.decode_encode, Nat.mod_eq_of_lt (t.toBits_lt v), ofBits_toBits]

theorem encode_decode (t : Scalar) (bytes : List UInt8) (whole : bytes.length = t.size) :
    t.encode (t.decode bytes) = bytes := by
  rw [encode, decode, toBits_ofBits, BigEndian.encode_mod _ _ _ (Nat.le_refl _), ← whole,
    BigEndian.encode_decode]

end Scalar

end CallGate
