import CallGate.Proofs.Memory.Edits

/-! When two runs of edits leave the same memory.

Edits put bytes in the place of others and move nothing, so two runs from one memory leave the same memory
as soon as they leave the same bytes (`run_eq_of_byte`). So runs whose ranges lie apart may change places
(`run_comm`), and storing a value where it is held already changes nothing (`apply_of_read`). -/

namespace CallGate

namespace Memory

variable {m m' : Memory} {t : Scalar} {address : UInt32} {v : t.Value}

/-- A memory is no more than its bounds and its bytes, those behind the image included. -/
theorem eq_of_byte (base : m'.base = m.base) (size : m'.size = m.size)
    (pages : m'.pages.size = m.pages.size) (bytes : ∀ i, m'.byte i = m.byte i) : m' = m := by
  have same : m'.pages = m.pages := by
    apply ByteArray.ext_getElem pages
    intro i first second
    have held := bytes i
    rwa [byte, byte, getElem!_pos m'.pages i first, getElem!_pos m.pages i second] at held
  cases m'
  cases m
  cases base
  cases size
  cases same
  rfl

@[simp] theorem length_window (m : Memory) (start n : Nat) : (m.window start n).length = n := by
  rw [window, List.length_map, List.length_range]

theorem contains_of_read (found : m.read t address = .ok v) : m.Contains address t.length := by
  by_cases inside : m.Contains address t.length
  · exact inside
  · rw [read_of_outside inside] at found
    cases found

theorem window_of_read (found : m.read t address = .ok v) :
    m.window (m.offset address) t.size = t.encode v := by
  rw [read_of_contains (contains_of_read found)] at found
  rw [← Except.ok.inj found, t.encode_decode _ (m.length_window _ _)]

end Memory

namespace Edit

theorem attempt_overwrites (m : Memory) (e : Edit) :
    ∃ value, e.attempt m = m.overwrite e.address e.length value := by
  cases e with
  | typed t address v => exact ⟨fun i => (t.encode v).getD i 0, rfl⟩
  | word address v => exact ⟨fun i => (Scalar.u32.encode v).getD i 0, rfl⟩
  | raw address length value => exact ⟨value, rfl⟩

theorem apply_pages (m : Memory) (e : Edit) : (apply m e).pages.size = m.pages.size := by
  by_cases inside : m.Contains e.address e.length
  · obtain ⟨value, overwrites⟩ := attempt_overwrites m e
    obtain ⟨after, done, -, -, pages⟩ := Memory.overwrite_of_contains inside value
    rw [apply, overwrites, done]
    change after.pages.size = m.pages.size
    rw [pages, Memory.size_fill]
  · rw [apply_of_outside inside]

theorem attempt_eq_apply {m : Memory} {e : Edit} (inside : m.Contains e.address e.length) :
    e.attempt m = .ok (apply m e) := by
  obtain ⟨after, done, -⟩ := attempt_of_contains inside
  rw [apply, done]

theorem run_pages (m : Memory) (edits : List Edit) : (run m edits).pages.size = m.pages.size := by
  induction edits generalizing m with
  | nil => rfl
  | cons e edits ih =>
      calc
        (run (apply m e) edits).pages.size = (apply m e).pages.size := ih _
        _ = m.pages.size := apply_pages m e

theorem run_eq_of_byte {m : Memory} {edits others : List Edit}
    (bytes : ∀ i, (run m edits).byte i = (run m others).byte i) : run m edits = run m others := by
  have first := run_bounds m edits
  have second := run_bounds m others
  apply Memory.eq_of_byte
  · rw [first.1, second.1]
  · rw [first.2, second.2]
  · rw [run_pages, run_pages]
  · exact bytes

theorem run_unchanged {m : Memory} {edits : List Edit} (bytes : ∀ i, (run m edits).byte i = m.byte i) :
    run m edits = m := by
  change run m edits = run m []
  exact run_eq_of_byte bytes

theorem apply_comm {e e' : Edit} (m : Memory)
    (apart : Memory.Apart e.address e.length e'.address e'.length) :
    apply (apply m e) e' = apply (apply m e') e := by
  change run m [e, e'] = run m [e', e]
  apply run_eq_of_byte
  intro i
  have once : e.Covers m i → ¬ e'.Covers m i := by
    intro first second
    have gap := Memory.offset_apart first.1 second.1 apart
    have inFirst := first.2
    have inSecond := second.2
    omega
  simp only [run_cons, run_nil, byte_apply, covers_apply, apply_offset]
  by_cases first : e.Covers m i
  · simp only [if_neg (once first), if_pos first]
  · simp only [if_neg first]

theorem run_apply_comm {e : Edit} {edits : List Edit} (m : Memory)
    (apart : ∀ e' ∈ edits, Memory.Apart e.address e.length e'.address e'.length) :
    run (apply m e) edits = apply (run m edits) e := by
  induction edits generalizing m with
  | nil => rfl
  | cons e' edits ih =>
      obtain ⟨first, rest⟩ := List.forall_mem_cons.mp apart
      rw [run_cons, run_cons, apply_comm m first, ih _ rest]

theorem run_comm {edits others : List Edit} (m : Memory)
    (apart : ∀ e ∈ edits, ∀ e' ∈ others, Memory.Apart e.address e.length e'.address e'.length) :
    run (run m edits) others = run (run m others) edits := by
  induction edits generalizing m with
  | nil => rfl
  | cons e edits ih =>
      obtain ⟨first, rest⟩ := List.forall_mem_cons.mp apart
      rw [run_cons, run_cons, ih _ rest, run_apply_comm m first]

theorem byte_apply_typed {m : Memory} {t : Scalar} {address : UInt32}
    (inside : m.Contains address t.length) (v : t.Value) (i : Nat) :
    (apply m (.typed t address v)).byte i =
      if m.offset address ≤ i ∧ i < m.offset address + t.size
        then (t.encode v).getD (i - m.offset address) 0 else m.byte i := by
  have covers : (Edit.typed t address v).Covers m i ↔
      m.offset address ≤ i ∧ i < m.offset address + t.size := by
    rw [← t.toNat_length]
    exact and_iff_right inside
  simp only [byte_apply, covers]
  split
  · next within =>
    have small : i - m.offset address < t.size := by omega
    exact (t.getD_encode v _ small).symm
  · rfl

theorem apply_of_read {m : Memory} {t : Scalar} {address : UInt32} {v : t.Value}
    (held : m.read t address = .ok v) : apply m (.typed t address v) = m := by
  change run m [.typed t address v] = m
  apply run_unchanged
  intro i
  change (apply m (.typed t address v)).byte i = m.byte i
  rw [byte_apply_typed (Memory.contains_of_read held), ← Memory.window_of_read held]
  split
  · next within =>
    have small : i - m.offset address < t.size := by omega
    have place : m.offset address + (i - m.offset address) = i := by omega
    simp only [Memory.window, List.getD_eq_getElem?_getD, List.getElem?_map,
      List.getElem?_range small, Option.map_some, Option.getD_some, place]
  · rfl

end Edit

end CallGate
