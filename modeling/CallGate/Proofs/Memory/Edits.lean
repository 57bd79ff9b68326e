import CallGate.Proofs.Memory.Access

/-! Runs of edits on a guest memory.

An edit that faults changes nothing, and base and size never change, so whether an edit succeeds is
known before the run starts. Each byte is then the one that the last edit over it put there
(`byte_run`), and every reader shows these bytes (`presents_byte`). -/

namespace CallGate

/-- A change asked of a memory: a typed value, a word, or bytes put in the place of a whole range. -/
inductive Edit
  | typed (t : Scalar) (address : UInt32) (value : t.Value)
  | word (address value : UInt32)
  | raw (address length : UInt32) (value : Nat → UInt8)

namespace Edit

def attempt (m : Memory) : Edit → Except Fault Memory
  | typed t address value => m.write t address value
  | word address value => m.writeWord address value
  | raw address length value => m.overwrite address length value

def apply (m : Memory) (e : Edit) : Memory :=
  match e.attempt m with
  | .ok after => after
  | .error _ => m

def run (m : Memory) (edits : List Edit) : Memory := edits.foldl apply m

def address : Edit → UInt32
  | typed _ address _ => address
  | word address _ => address
  | raw address _ _ => address

def length : Edit → UInt32
  | typed t _ _ => t.length
  | word _ _ => 4
  | raw _ length _ => length

def byteAt : Edit → Nat → UInt8
  | typed t _ value => t.byteAt value
  | word _ value => Scalar.u32.byteAt value
  | raw _ _ value => value

def Covers (m : Memory) (offset : Nat) (e : Edit) : Prop :=
  m.Contains e.address e.length ∧
    m.offset e.address ≤ offset ∧ offset < m.offset e.address + e.length.toNat

instance (m : Memory) (offset : Nat) : DecidablePred (Covers m offset) := fun e =>
  inferInstanceAs (Decidable (m.Contains e.address e.length ∧ _ ∧ _))

/-- The byte that the last edit over an offset puts there, or the initial one. -/
def lastByte (m : Memory) (edits : List Edit) (offset : Nat) : UInt8 :=
  match edits.reverse.find? (fun e => decide (e.Covers m offset)) with
  | some e => e.byteAt (offset - m.offset e.address)
  | none => m.byte offset

variable {m : Memory} {e : Edit}

theorem attempt_of_contains (inside : m.Contains e.address e.length) :
    ∃ after, e.attempt m = .ok after ∧ after.base = m.base ∧ after.size = m.size ∧
      ∀ i, after.byte i = if m.offset e.address ≤ i ∧ i < m.offset e.address + e.length.toNat
        then e.byteAt (i - m.offset e.address) else m.byte i := by
  cases e with
  | typed t address value =>
      obtain ⟨after, done, base, size, bytes⟩ := Memory.write_of_contains inside value
      refine ⟨after, done, base, size, ?_⟩
      intro i
      rw [bytes, length, t.toNat_length]
      rfl
  | word address value => exact Memory.write_of_contains (t := .u32) inside value
  | raw address length value =>
      obtain ⟨after, done, base, size, -⟩ := Memory.overwrite_of_contains inside value
      exact ⟨after, done, base, size, Memory.byte_overwrite done⟩

theorem attempt_of_outside (outside : ¬ m.Contains e.address e.length) :
    e.attempt m = .error (.outOfBounds e.address e.length) := by
  cases e with
  | typed t address value => exact Memory.write_of_outside outside value
  | word address value => exact Memory.write_of_outside (t := .u32) outside value
  | raw address length value => exact Memory.overwrite_of_outside outside value

theorem apply_of_outside (outside : ¬ m.Contains e.address e.length) : apply m e = m := by
  simp only [apply, attempt_of_outside outside]

theorem apply_bounds (m : Memory) (e : Edit) :
    (apply m e).base = m.base ∧ (apply m e).size = m.size := by
  by_cases inside : m.Contains e.address e.length
  · obtain ⟨after, done, base, size, -⟩ := attempt_of_contains inside
    simp only [apply, done, base, size, and_self]
  · simp only [apply_of_outside inside, and_self]

@[simp] theorem apply_contains (m : Memory) (e : Edit) (address length : UInt32) :
    (apply m e).Contains address length ↔ m.Contains address length :=
  Memory.contains_congr (apply_bounds m e).1 (apply_bounds m e).2

@[simp] theorem apply_offset (m : Memory) (e : Edit) (address : UInt32) :
    (apply m e).offset address = m.offset address :=
  Memory.offset_congr (apply_bounds m e).1

theorem byte_apply (m : Memory) (e : Edit) (i : Nat) :
    (apply m e).byte i
      = if e.Covers m i then e.byteAt (i - m.offset e.address) else m.byte i := by
  by_cases inside : m.Contains e.address e.length
  · obtain ⟨after, done, -, -, bytes⟩ := attempt_of_contains inside
    have same : e.Covers m i ↔
        m.offset e.address ≤ i ∧ i < m.offset e.address + e.length.toNat := and_iff_right inside
    simp only [apply, done, bytes, same]
  · have absent : ¬ e.Covers m i := by
      intro covers
      exact inside covers.1
    rw [apply_of_outside inside, if_neg absent]

theorem read_apply_typed {t : Scalar} {address : UInt32} (inside : m.Contains address t.length)
    (v : t.Value) : (apply m (.typed t address v)).read t address = .ok v := by
  apply Memory.read_of_window ((apply_contains _ _ _ _).mpr inside)
  rw [apply_offset, ← t.map_byteAt]
  apply List.map_congr_left
  intro i member
  have small := List.mem_range.mp member
  have covers : (Edit.typed t address v).Covers m (m.offset address + i) := by
    refine ⟨inside, Nat.le_add_right _ _, ?_⟩
    change _ < m.offset address + t.length.toNat
    rw [t.toNat_length]
    omega
  rw [byte_apply, if_pos covers]
  exact congrArg (t.byteAt v) (Nat.add_sub_cancel_left _ _)

theorem read_apply_apart {t : Scalar} {address : UInt32}
    (apart : Memory.Apart e.address e.length address t.length) :
    (apply m e).read t address = m.read t address := by
  by_cases inside : m.Contains address t.length
  · have reached := (apply_contains m e address t.length).mpr inside
    have kept : (apply m e).window (m.offset address) t.size
        = m.window (m.offset address) t.size := by
      apply Memory.window_congr
      intro i above below
      have missed : ¬ e.Covers m i := by
        intro covers
        have gap := Memory.offset_apart covers.1 inside apart
        have lower := covers.2.1
        have upper := covers.2.2
        rw [t.toNat_length] at gap
        omega
      rw [byte_apply, if_neg missed]
    rw [Memory.read_of_contains reached, Memory.read_of_contains inside, apply_offset, kept]
  · have missed : ¬ (apply m e).Contains address t.length := by
      rwa [apply_contains]
    rw [Memory.read_of_outside inside, Memory.read_of_outside missed]

@[simp] theorem run_nil (m : Memory) : run m [] = m := rfl

@[simp] theorem run_cons (m : Memory) (e : Edit) (edits : List Edit) :
    run m (e :: edits) = run (apply m e) edits := rfl

theorem run_bounds (m : Memory) (edits : List Edit) :
    (run m edits).base = m.base ∧ (run m edits).size = m.size := by
  induction edits generalizing m with
  | nil => exact ⟨rfl, rfl⟩
  | cons e edits ih =>
      have first := apply_bounds m e
      have rest := ih (apply m e)
      exact ⟨rest.1.trans first.1, rest.2.trans first.2⟩

theorem run_contains (m : Memory) (edits : List Edit) (address length : UInt32) :
    (run m edits).Contains address length ↔ m.Contains address length :=
  Memory.contains_congr (run_bounds m edits).1 (run_bounds m edits).2

theorem covers_apply (m : Memory) (e e' : Edit) (i : Nat) :
    e'.Covers (apply m e) i ↔ e'.Covers m i := by
  simp only [Covers, apply_contains, apply_offset]

theorem lastByte_cons (m : Memory) (e : Edit) (edits : List Edit) (i : Nat) :
    lastByte m (e :: edits) i = lastByte (apply m e) edits i := by
  simp only [lastByte, List.reverse_cons, List.find?_append, covers_apply, apply_offset]
  -- the first edit is the last one over an offset only if no later one is
  cases edits.reverse.find? fun later => decide (later.Covers m i) with
  | some later => rfl
  | none =>
      rw [byte_apply]
      by_cases covers : e.Covers m i <;> simp [covers]

theorem byte_run (m : Memory) (edits : List Edit) (i : Nat) :
    (run m edits).byte i = lastByte m edits i := by
  induction edits generalizing m with
  | nil => rfl
  | cons e edits ih => rw [run_cons, ih, lastByte_cons]

theorem byte_run_cases (m : Memory) (edits : List Edit) (i : Nat) :
    (run m edits).byte i = m.byte i ∨ ∃ e ∈ edits, e.Covers m i := by
  rw [byte_run, lastByte]
  split
  · next e found =>
    have member := List.mem_of_find?_eq_some found
    have covers := List.find?_some found
    exact .inr ⟨e, List.mem_reverse.mp member, of_decide_eq_true covers⟩
  · exact .inl rfl

end Edit

namespace Memory

/-- A memory shows the given bytes: its image consists of them and every access that lies in the image
reads them, a value with the most significant byte first. -/
structure Presents (m : Memory) (base : UInt32) (size : Nat) (bytes : Nat → UInt8) : Prop where
  base_eq : m.base = base
  size_eq : m.size = size
  image : m.image.data.toList = (List.range size).map bytes
  range : ∀ address length, m.Contains address length →
    ∃ found, m.bytes address length = .ok found ∧ m.text ⟨address⟩ length = .ok found ∧
      found.data.toList
        = (List.range length.toNat).map fun i => bytes (address.toNat - base.toNat + i)
  value : ∀ (t : Scalar) address, m.Contains address t.length →
    m.read t address = .ok (t.ofBits (BigEndian.decode
      ((List.range t.size).map fun i => bytes (address.toNat - base.toNat + i))))
  word : ∀ address, m.Contains address 4 →
    m.readWord address = .ok (UInt32.ofNat (BigEndian.decode
      ((List.range 4).map fun i => bytes (address.toNat - base.toNat + i))))

theorem presents_byte (m : Memory) : m.Presents m.base m.size m.byte where
  base_eq := rfl
  size_eq := rfl
  image := m.image_toList
  range address length inside := by
    obtain ⟨found, done, list⟩ := bytes_of_contains inside
    exact ⟨found, done, done, list⟩
  value t address inside := read_of_contains inside
  word address inside := read_of_contains (t := .u32) inside

/-- Guest memory is a byte store in which the last writer wins. Behind any run an edit succeeds exactly
if its range lies in the image that the run started from, and faults with that range otherwise; the
memory shows, under the old bounds, the last byte put at every offset. -/
theorem last_writer_wins (m : Memory) (edits : List Edit) :
    (∀ e : Edit, if m.Contains e.address e.length
      then ∃ after, e.attempt (Edit.run m edits) = .ok after
      else e.attempt (Edit.run m edits) = .error (.outOfBounds e.address e.length)) ∧
    (Edit.run m edits).Presents m.base m.size (Edit.lastByte m edits) := by
  constructor
  · intro e
    have same := Edit.run_contains m edits e.address e.length
    split
    · next inside =>
      obtain ⟨after, done, -⟩ := Edit.attempt_of_contains (same.mpr inside)
      exact ⟨after, done⟩
    · next outside =>
      apply Edit.attempt_of_outside
      intro inside
      exact outside (same.mp inside)
  · have shown := (Edit.run m edits).presents_byte
    rw [(Edit.run_bounds m edits).1, (Edit.run_bounds m edits).2] at shown
    rwa [funext (Edit.byte_run m edits)] at shown

-- a halfword across the middle of a word, then a word that would end behind the image
example : (Edit.run (ofImage 0x80000000 ⟨Array.replicate 4 0⟩)
    [.word 0x80000000 0x01020304, .typed .u16 0x80000001 0xaabb, .word 0x80000002 0]).readWord
      0x80000000 = .ok 0x01aabb04 := by
  rfl

end Memory

end CallGate
