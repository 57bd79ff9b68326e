import CallGate.Proofs.Memory.Access

/-! Memory accesses with every limit checked.

A checked operation is stopped where its machine counterpart has no result: an index, a range, a copy or a
sum out of its limits. An access made of such operations is never stopped, and comes to what the access
without checks comes to. -/

namespace CallGate

/-- What stops a checked operation. -/
inductive Breach
  | overflow
  | index (i : Nat)
  | range (start stop size : Nat)
  | copy (source target : Nat)
deriving DecidableEq, Repr

abbrev Checked (α : Type) := Except Breach α

namespace Checked

variable {α β : Type}

@[simp] theorem ok_bind (a : α) (next : α → Checked β) : ((.ok a : Checked α) >>= next) = next a := rfl

@[simp] theorem pure_eq (a : α) : (pure a : Checked α) = .ok a := rfl

def addSize (a b : Nat) : Checked Nat :=
  if a + b < 0x10000000000000000 then .ok (a + b) else .error .overflow

theorem addSize_of_lt {a b : Nat} (fits : a + b < 0x10000000000000000) :
    addSize a b = .ok (a + b) := if_pos fits

def slice (bytes : ByteArray) (start stop : Nat) : Checked ByteArray :=
  if start ≤ stop ∧ stop ≤ bytes.size then .ok (bytes.extract start stop)
  else .error (.range start stop bytes.size)

theorem slice_of_le {bytes : ByteArray} {start stop : Nat} (ordered : start ≤ stop)
    (inside : stop ≤ bytes.size) : slice bytes start stop = .ok (bytes.extract start stop) :=
  if_pos ⟨ordered, inside⟩

def copy (source : List UInt8) (target : Nat) : Checked (List UInt8) :=
  if source.length = target then .ok source else .error (.copy source.length target)

theorem copy_of_length {source : List UInt8} {target : Nat} (whole : source.length = target) :
    copy source target = .ok source := if_pos whole

structure Range where
  start : Nat
  stop : Nat

def resolve (m : Memory) (address length : UInt32) : Checked (Except Fault Range) :=
  if address < m.base then .ok (.error (.outOfBounds address length))
  else do
    let stop ← addSize (address - m.base).toNat length.toNat
    if stop > m.size then return .error (.outOfBounds address length)
    else return .ok ⟨(address - m.base).toNat, stop⟩

def image (m : Memory) : Checked ByteArray := slice m.pages 0 m.size

def place (m : Memory) (address length : UInt32) : Checked (Except Fault (Range × ByteArray)) := do
  match ← resolve m address length with
  | .error fault => return .error fault
  | .ok range =>
    let found ← slice (← image m) range.start range.stop
    return .ok (range, found)

def put (m : Memory) (range : Range) (value : Nat → UInt8) : Memory :=
  { m with
    pages := Memory.fill value range.start (range.stop - range.start) m.pages
    size_le := by rw [Memory.size_fill]; exact m.size_le }

def bytes (m : Memory) (address length : UInt32) : Checked (Except Fault ByteArray) := do
  let placed ← place m address length
  return placed.map Prod.snd

def overwrite (m : Memory) (address length : UInt32) (value : Nat → UInt8) :
    Checked (Except Fault Memory) := do
  let placed ← place m address length
  return placed.map fun found => put m found.1 value

def read (m : Memory) (t : Scalar) (address : UInt32) : Checked (Except Fault t.Value) := do
  match ← bytes m address t.length with
  | .error fault => return .error fault
  | .ok found =>
    let raw ← copy found.data.toList t.size
    return .ok (t.decode raw)

def write (m : Memory) (t : Scalar) (address : UInt32) (value : t.Value) :
    Checked (Except Fault Memory) := do
  match ← place m address t.length with
  | .error fault => return .error fault
  | .ok (range, old) =>
    let encoded ← copy (t.encode value) old.size
    return .ok (put m range fun i => encoded.getD i 0)

variable {m : Memory} {address length : UInt32}

theorem resolve_of_above (above : m.base.toNat ≤ address.toNat) :
    resolve m address length =
      if m.offset address + length.toNat > m.size then .ok (.error (.outOfBounds address length))
      else .ok (.ok ⟨m.offset address, m.offset address + length.toNat⟩) := by
  have start : (address - m.base).toNat = m.offset address :=
    UInt32.toNat_sub_of_le _ _ (UInt32.le_iff_toNat_le.mpr above)
  have low : m.offset address < 0x100000000 := start ▸ (address - m.base).toNat_lt
  have short : length.toNat < 0x100000000 := length.toNat_lt
  -- both parts are below 2 ^ 32, far from the limit of the sum
  have fits : m.offset address + length.toNat < 0x10000000000000000 := by omega
  have reached : ¬ address < m.base := Nat.not_lt.mpr above
  rw [resolve, if_neg reached, start, addSize_of_lt fits, ok_bind]
  rfl

theorem resolve_of_contains (inside : m.Contains address length) :
    resolve m address length
      = .ok (.ok ⟨m.offset address, m.offset address + length.toNat⟩) := by
  rw [resolve_of_above inside.1, if_neg (Nat.not_lt.mpr inside.2)]

theorem resolve_of_outside (outside : ¬ m.Contains address length) :
    resolve m address length = .ok (.error (.outOfBounds address length)) := by
  by_cases above : m.base.toNat ≤ address.toNat
  · rw [resolve_of_above above, if_pos]
    rw [gt_iff_lt, ← Nat.not_le]
    intro room
    exact outside ⟨above, room⟩
  · have below : address < m.base := Nat.not_le.mp above
    rw [resolve, if_pos below]

theorem resolve_range (m : Memory) (address length : UInt32) :
    ∃ found, resolve m address length = .ok found ∧
      ∀ range, found = .ok range → range.start ≤ range.stop ∧ range.stop ≤ m.size ∧
        range.stop - range.start = length.toNat := by
  by_cases inside : m.Contains address length
  · refine ⟨_, resolve_of_contains inside, ?_⟩
    rintro range ⟨⟩
    exact ⟨Nat.le_add_right _ _, inside.2, Nat.add_sub_cancel_left _ _⟩
  · refine ⟨_, resolve_of_outside inside, ?_⟩
    rintro range ⟨⟩

theorem image_eq (m : Memory) : image m = .ok m.image := slice_of_le (Nat.zero_le _) m.size_le

theorem size_image (m : Memory) : m.image.size = m.size := by
  have room := m.size_le
  simp only [Memory.image, ByteArray.size_extract]
  omega

theorem place_of_contains (inside : m.Contains address length) :
    ∃ found, place m address length
        = .ok (.ok (⟨m.offset address, m.offset address + length.toNat⟩, found)) ∧
      m.bytes address length = .ok found ∧ found.size = length.toNat := by
  have room : m.offset address + length.toNat ≤ m.size := inside.2
  have behind : m.size ≤ m.pages.size := m.size_le
  have cut : m.image.extract (m.offset address) (m.offset address + length.toNat)
      = m.pages.extract (m.offset address) (m.offset address + length.toNat) := by
    rw [Memory.image, ByteArray.extract_extract]
    congr 1 <;> omega
  refine ⟨m.pages.extract (m.offset address) (m.offset address + length.toNat), ?_, ?_, ?_⟩
  · rw [place, resolve_of_contains inside, ok_bind]
    simp only [image_eq, ok_bind]
    rw [slice_of_le (Nat.le_add_right _ _) (by rwa [size_image]), cut]
    rfl
  · simp only [Memory.bytes, Memory.span, if_pos inside, Except.map]
  · rw [ByteArray.size_extract]
    omega

theorem place_of_outside (outside : ¬ m.Contains address length) :
    place m address length = .ok (.error (.outOfBounds address length)) := by
  rw [place, resolve_of_outside outside]
  rfl

theorem bytes_eq (m : Memory) (address length : UInt32) :
    bytes m address length = .ok (m.bytes address length) := by
  by_cases inside : m.Contains address length
  · obtain ⟨found, placed, done, -⟩ := place_of_contains inside
    rw [bytes, placed, done]
    rfl
  · rw [bytes, place_of_outside inside, Memory.bytes_of_outside inside]
    rfl

theorem put_of_contains (inside : m.Contains address length) (value : Nat → UInt8) :
    m.overwrite address length value
      = .ok (put m ⟨m.offset address, m.offset address + length.toNat⟩ value) := by
  simp only [Memory.overwrite, Memory.span, if_pos inside, Except.map, put, Nat.add_sub_cancel_left]

theorem overwrite_eq (m : Memory) (address length : UInt32) (value : Nat → UInt8) :
    overwrite m address length value = .ok (m.overwrite address length value) := by
  by_cases inside : m.Contains address length
  · obtain ⟨found, placed, -⟩ := place_of_contains inside
    rw [overwrite, placed, put_of_contains inside]
    rfl
  · rw [overwrite, place_of_outside inside, Memory.overwrite_of_outside inside]
    rfl

theorem read_eq (m : Memory) (t : Scalar) (address : UInt32) :
    read m t address = .ok (m.read t address) := by
  have running : m.read t address
      = (m.bytes address t.length).map fun found => t.decode found.data.toList := rfl
  rw [read, bytes_eq, ok_bind, running]
  by_cases inside : m.Contains address t.length
  · obtain ⟨found, -, done, size⟩ := place_of_contains inside
    have whole : found.data.toList.length = t.size := by
      rw [← t.toNat_length, ← size]
      rfl
    rw [done]
    simp only [copy_of_length whole, ok_bind, pure_eq, Except.map]
  · rw [Memory.bytes_of_outside inside]
    rfl

theorem write_eq (m : Memory) (t : Scalar) (address : UInt32) (value : t.Value) :
    write m t address value = .ok (m.write t address value) := by
  have running : m.write t address value
      = m.overwrite address t.length fun i => (t.encode value).getD i 0 := rfl
  rw [write, running]
  by_cases inside : m.Contains address t.length
  · obtain ⟨old, placed, -, size⟩ := place_of_contains inside
    have whole : (t.encode value).length = old.size := by
      rw [t.length_encode, size, t.toNat_length]
    rw [placed, ok_bind, put_of_contains inside]
    simp only [copy_of_length whole, ok_bind, pure_eq]
  · rw [place_of_outside inside, Memory.overwrite_of_outside inside]
    rfl

end Checked

end CallGate
