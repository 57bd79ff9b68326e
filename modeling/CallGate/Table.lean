/-! Tables from numbers to values. An entry that was never set reads as the default, so `get_set_same`
and `get_set_other` hold of every number. -/

namespace CallGate

structure Table (α : Type) where
  entries : Array α := #[]

namespace Table

variable {α : Type}

def size (t : Table α) : Nat := t.entries.size

variable [Inhabited α]

def get (t : Table α) (i : Nat) : α := t.entries.getD i default

/-- Fills up with defaults to reach an entry beyond the end. -/
def set (t : Table α) (i : Nat) (a : α) : Table α :=
  if present : i < t.entries.size then ⟨t.entries.set i a⟩
  else ⟨(t.entries ++ Array.replicate (i - t.entries.size) default).push a⟩

def push (t : Table α) (a : α) : Table α := ⟨t.entries.push a⟩

theorem get_set_same (t : Table α) (i : Nat) (a : α) : (t.set i a).get i = a := by
  unfold set
  split
  · next present => simp [get, present]
  · next absent =>
    have last : (t.entries ++ Array.replicate (i - t.entries.size) default).size = i := by
      simp only [Array.size_append, Array.size_replicate]
      omega
    rw [get, Array.getD_eq_getD_getElem?, Array.getElem?_push, if_pos last.symm, Option.getD_some]

theorem get_set_other (t : Table α) {i j : Nat} (other : j ≠ i) (a : α) :
    (t.set i a).get j = t.get j := by
  unfold set
  split
  · simp [get, Array.getD_eq_getD_getElem?, other.symm]
  · next absent =>
    simp only [get, Array.getD_eq_getD_getElem?, Array.getElem?_push, Array.getElem?_append,
      Array.getElem?_replicate, Array.size_append, Array.size_replicate]
    by_cases known : j < t.entries.size
    · simp only [known, if_true]
      rw [if_neg (by omega)]
    · rw [if_neg (by omega), if_neg known, Array.getElem?_eq_none (by omega)]
      by_cases filled : j - t.entries.size < i - t.entries.size
      · simp [filled]
      · simp [filled]

theorem size_le_set (t : Table α) (i : Nat) (a : α) : t.size ≤ (t.set i a).size := by
  unfold set size
  split
  · simp
  · simp only [Array.size_push, Array.size_append, Array.size_replicate]
    omega

theorem get_push_of_lt (t : Table α) {i : Nat} (present : i < t.size) (a : α) :
    (t.push a).get i = t.get i := by
  have other : i ≠ t.entries.size := Nat.ne_of_lt present
  simp [get, push, Array.getD_eq_getD_getElem?, Array.getElem?_push, other]

theorem get_of_size_le (t : Table α) {i : Nat} (absent : t.size ≤ i) : t.get i = default := by
  have missing : t.entries[i]? = none := Array.getElem?_eq_none absent
  rw [get, Array.getD_eq_getD_getElem?, missing, Option.getD_none]

theorem get_push_size (t : Table α) (a : α) : (t.push a).get t.size = a := by
  simp [get, push, size, Array.getD_eq_getD_getElem?]

theorem get_push_of_ne (t : Table α) {i : Nat} (other : i ≠ t.size) (a : α) :
    (t.push a).get i = t.get i := by
  rcases Nat.lt_or_gt_of_ne other with present | absent
  · exact t.get_push_of_lt present a
  · have beyond : (t.push a).size ≤ i := by
      rw [size, push, Array.size_push]
      exact absent
    rw [get_of_size_le _ beyond, t.get_of_size_le (Nat.le_of_lt absent)]

end Table

end CallGate
