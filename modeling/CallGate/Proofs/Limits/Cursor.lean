import CallGate.Proofs.Convention.Layout
import CallGate.Proofs.Limits.Memory

/-! The argument cursor with every limit checked.

Slots are counted in 32 bits here. As long as the slots in use stay below `2 ^ 30` the address of a slot
is no overflow, and a checked cursor does what the cursor without checks does (`fetchEach_eq`). Six
arguments use far fewer. -/

namespace CallGate.Checked

def addWord (a b : UInt32) : Checked UInt32 :=
  if a.toNat + b.toNat < 0x100000000 then .ok (a + b) else .error .overflow

def mulWord (a b : UInt32) : Checked UInt32 :=
  if a.toNat * b.toNat < 0x100000000 then .ok (a * b) else .error .overflow

def mulSize (a b : Nat) : Checked Nat :=
  if a * b < 0x10000000000000000 then .ok (a * b) else .error .overflow

/-- Arguments are told by four integer registers and the stack pointer. -/
def integerRegister (regs : Registers) (i : Nat) : Checked UInt32 :=
  if known : 4 ≤ i ∧ i ≤ 7 ∨ i = 29 then .ok (regs.word ⟨i, by omega⟩) else .error (.index i)

def floatRegister (regs : Registers) (i : Nat) : Checked Single :=
  if known : i = 12 ∨ i = 14 then .ok (regs.single ⟨i, by omega⟩) else .error (.index i)

structure Position where
  slot : UInt32 := 0
  singlesOnly : Bool := true

def Position.ofWide (p : O32.Position) : Position := ⟨UInt32.ofNat p.slot, p.singlesOnly⟩

def word (regs : Registers) (m : Memory) (p : Position) : Checked (Except Fault UInt32 × Position) := do
  let next ← addWord p.slot 1
  if p.slot < 4 then
    let value ← integerRegister regs (← addSize 4 p.slot.toNat)
    return (.ok value, { p with slot := next })
  else
    let sp ← integerRegister regs 29
    let offset ← mulWord 4 p.slot
    let found ← read m .u32 (sp + offset)
    return (found, { p with slot := next })

def fetch (regs : Registers) (m : Memory) :
    (k : Fetch) → Position → Checked (Except Fault k.Value × Position)
  | .word, p => word regs m { p with singlesOnly := false }
  | .doubleWord, p => do
    let raised ← addWord p.slot 1
    match ← word regs m ⟨raised &&& ~~~1, false⟩ with
    | (.error fault, p) => return (.error fault, p)
    | (.ok high, p) =>
      let (low, p) ← word regs m p
      return (low.map (O32.joinWords high), p)
  | .single, p =>
    if p.singlesOnly ∧ p.slot < 2 then do
      let i ← addSize 12 (← mulSize 2 p.slot.toNat)
      let next ← addWord p.slot 1
      let value ← floatRegister regs i
      return (.ok value, { p with slot := next })
    else do
      let (found, p) ← word regs m { p with singlesOnly := false }
      return (found.map Single.mk, p)

def fetchEach (regs : Registers) (m : Memory) :
    List Fetch → Position → Checked (List Fetched × Position)
  | [], p => return ([], p)
  | k :: ks, p => do
    let (answer, p) ← fetch regs m k p
    let (answers, p) ← fetchEach regs m ks p
    return (⟨k, answer⟩ :: answers, p)

def decodeAll (regs : Registers) (m : Memory) :
    (ts : List ArgType) → Position → Checked (Except Fault (Arguments ts) × Position)
  | [], p => return (.ok .nil, p)
  | t :: ts, p => do
    match ← fetch regs m t.fetch p with
    | (.error fault, p) => return (.error fault, p)
    | (.ok v, p) =>
      let (rest, p) ← decodeAll regs m ts p
      return (rest.map (.cons (t.interpret v)), p)

def decode (regs : Registers) (m : Memory) (ts : List ArgType) :
    Checked (Except Fault (Arguments ts)) := do
  let (result, _) ← decodeAll regs m ts {}
  return result

variable {regs : Registers} {m : Memory} {slot : Nat}

theorem toNat_slot (below : slot < 0x100000000) : (UInt32.ofNat slot).toNat = slot :=
  UInt32.toNat_ofNat_of_lt' below

theorem addWord_slot (below : slot + 1 < 0x100000000) :
    addWord (UInt32.ofNat slot) 1 = .ok (UInt32.ofNat (slot + 1)) := by
  have one : (1 : UInt32).toNat = 1 := rfl
  rw [addWord, toNat_slot (by omega), one, if_pos below, UInt32.ofNat_add]
  rfl

theorem mulWord_slot (below : slot < 0x40000000) :
    mulWord 4 (UInt32.ofNat slot) = .ok (UInt32.ofNat (4 * slot)) := by
  have four : (4 : UInt32).toNat = 4 := rfl
  rw [mulWord, toNat_slot (by omega), four, if_pos (by omega), UInt32.ofNat_mul]
  rfl

theorem toNat_clearLowest (n : UInt32) : (n &&& ~~~1).toNat = 2 * (n.toNat / 2) := by
  have mask : (~~~1 : UInt32).toNat = 2 * (2 ^ 31 - 1) := by decide
  have small : n.toNat / 2 < 2 ^ 31 := by
    have bound := n.toNat_lt
    omega
  have high : n.toNat / 2 &&& (2 ^ 31 - 1) = n.toNat / 2 := by
    rw [Nat.and_two_pow_sub_one_eq_mod, Nat.mod_eq_of_lt small]
  rw [UInt32.toNat_and, mask]
  apply Nat.eq_of_testBit_eq
  intro i
  cases i with
  | zero => simp [Nat.testBit_zero]
  | succ i =>
      rw [Nat.testBit_succ, Nat.testBit_succ, Nat.and_div_two, Nat.mul_div_cancel_left _ (by decide),
        Nat.mul_div_cancel_left _ (by decide), high]

theorem even_slot (below : slot + 1 < 0x100000000) :
    UInt32.ofNat (slot + 1) &&& ~~~1 = UInt32.ofNat (slot + slot % 2) := by
  rw [← UInt32.toNat_inj, toNat_clearLowest, toNat_slot below, toNat_slot (by omega)]
  omega

theorem word_eq (regs : Registers) (m : Memory) (below : slot < 0x40000000) (singlesOnly : Bool) :
    word regs m ⟨UInt32.ofNat slot, singlesOnly⟩
      = .ok (O32.slotWord regs m slot, ⟨UInt32.ofNat (slot + 1), singlesOnly⟩) := by
  have wide : (UInt32.ofNat slot).toNat = slot := toNat_slot (by omega)
  have early : UInt32.ofNat slot < 4 ↔ slot < 4 := by
    rw [UInt32.lt_iff_toNat_lt, wide]
    rfl
  rw [word, addWord_slot (by omega), ok_bind, O32.slotWord]
  by_cases inRegister : slot < 4
  · have known : 4 ≤ 4 + slot ∧ 4 + slot ≤ 7 ∨ 4 + slot = 29 := by omega
    have index : addSize 4 slot = .ok (4 + slot) := addSize_of_lt (by omega)
    simp only [if_pos (early.mpr inRegister), wide, index, integerRegister, dif_pos known,
      dif_pos inRegister, ok_bind, pure_eq]
    rfl
  · have stack : integerRegister regs 29 = .ok (regs.word Reg.sp) := rfl
    simp only [if_neg (mt early.mp inRegister), stack, mulWord_slot below, read_eq,
      dif_neg inRegister, ok_bind, pure_eq]
    rfl

/-- From there on the address of a slot is an overflow, or the number of the next one is. -/
theorem word_of_full (regs : Registers) (m : Memory) (full : 0x40000000 ≤ slot)
    (fits : slot < 0x100000000) (singlesOnly : Bool) :
    word regs m ⟨UInt32.ofNat slot, singlesOnly⟩ = .error .overflow := by
  have wide := toNat_slot fits
  have late : ¬ UInt32.ofNat slot < 4 := by
    rw [UInt32.lt_iff_toNat_lt, wide]
    exact Nat.not_lt.mpr (Nat.le_trans (by decide) full)
  have stack : integerRegister regs 29 = .ok (regs.word Reg.sp) := rfl
  have overflows : mulWord 4 (UInt32.ofNat slot) = .error .overflow := by
    have four : (4 : UInt32).toNat = 4 := rfl
    rw [mulWord, wide, four, if_neg (by omega)]
  by_cases last : slot + 1 < 0x100000000
  · rw [word, addWord_slot last, ok_bind, if_neg late, stack, ok_bind, overflows]
    rfl
  · have one : (1 : UInt32).toNat = 1 := rfl
    rw [word, addWord, wide, one, if_neg last]
    rfl

theorem slot_cursor (regs : Registers) (m : Memory) (k : Fetch) (p : O32.Position) :
    p.slot < (O32.cursor regs m k p).2.slot ∧ (O32.cursor regs m k p).2.slot ≤ p.slot + 3 := by
  cases k with
  | word => exact ⟨Nat.lt_succ_self _, Nat.add_le_add_left (by decide) _⟩
  | doubleWord =>
      simp only [O32.cursor]
      split <;> simp only <;> omega
  | single =>
      simp only [O32.cursor]
      split <;> simp only <;> omega

theorem fetch_doubleWord {p : O32.Position}
    (below : (O32.cursor regs m .doubleWord p).2.slot ≤ 0x40000000) :
    fetch regs m .doubleWord (.ofWide p)
      = .ok ((O32.cursor regs m .doubleWord p).1, .ofWide (O32.cursor regs m .doubleWord p).2) := by
  have start := (slot_cursor regs m .doubleWord p).1
  have raised : addWord (UInt32.ofNat p.slot) 1 = .ok (UInt32.ofNat (p.slot + 1)) :=
    addWord_slot (by omega)
  have even : UInt32.ofNat (p.slot + 1) &&& ~~~1 = UInt32.ofNat (p.slot + p.slot % 2) :=
    even_slot (by omega)
  simp only [O32.cursor] at below ⊢
  simp only [fetch, Position.ofWide, raised, even, ok_bind]
  -- the second slot is in use only if the first one is read without a fault
  split at below
  · next fault first =>
    rw [word_eq regs m (Nat.lt_of_succ_le below), first]
    rfl
  · next high first =>
    have both : p.slot + p.slot % 2 + 2 ≤ 0x40000000 := below
    rw [word_eq regs m (by omega), first]
    simp only [ok_bind]
    rw [word_eq regs m (by omega)]
    rfl

theorem fetch_single {p : O32.Position} (below : p.slot < 0x40000000) :
    fetch regs m .single (.ofWide p)
      = .ok ((O32.cursor regs m .single p).1, .ofWide (O32.cursor regs m .single p).2) := by
  have wide : (UInt32.ofNat p.slot).toNat = p.slot := toNat_slot (by omega)
  have early : UInt32.ofNat p.slot < 2 ↔ p.slot < 2 := by
    rw [UInt32.lt_iff_toNat_lt, wide]
    rfl
  simp only [O32.cursor]
  split
  · next leading =>
    have leads : p.singlesOnly = true ∧ UInt32.ofNat p.slot < 2 :=
      ⟨leading.1, early.mpr leading.2⟩
    have next : addWord (UInt32.ofNat p.slot) 1 = .ok (UInt32.ofNat (p.slot + 1)) :=
      addWord_slot (by omega)
    have twice : mulSize 2 p.slot = .ok (2 * p.slot) := if_pos (by omega)
    have index : addSize 12 (2 * p.slot) = .ok (12 + 2 * p.slot) := addSize_of_lt (by omega)
    have known : 12 + 2 * p.slot = 12 ∨ 12 + 2 * p.slot = 14 := by omega
    simp only [fetch, Position.ofWide, if_pos leads, wide, twice, index, next, floatRegister,
      dif_pos known, ok_bind, pure_eq]
    rw [leading.1]
    rfl
  · next trailing =>
    have trails : ¬ (p.singlesOnly = true ∧ UInt32.ofNat p.slot < 2) := by
      rw [early]
      exact trailing
    rw [fetch, Position.ofWide, if_neg trails, word_eq regs m below]
    rfl

theorem fetch_eq {k : Fetch} {p : O32.Position}
    (below : (O32.cursor regs m k p).2.slot ≤ 0x40000000) :
    fetch regs m k (.ofWide p)
      = .ok ((O32.cursor regs m k p).1, .ofWide (O32.cursor regs m k p).2) := by
  have start : p.slot < 0x40000000 := Nat.lt_of_lt_of_le (slot_cursor regs m k p).1 below
  cases k with
  | word => exact word_eq regs m start false
  | doubleWord => exact fetch_doubleWord below
  | single => exact fetch_single start

theorem slot_le_fetchEach (regs : Registers) (m : Memory) (ks : List Fetch) (p : O32.Position) :
    p.slot ≤ ((O32.cursor regs m).fetchEach ks p).2.slot := by
  induction ks generalizing p with
  | nil => exact Nat.le_refl _
  | cons k ks ih => exact Nat.le_trans (Nat.le_of_lt (slot_cursor regs m k p).1) (ih _)

/-- Any run of fetches is within its limits if its slots stay below `2 ^ 30`, that is, if the slot behind
the last one in use is at most that. -/
theorem fetchEach_eq {ks : List Fetch} {p : O32.Position}
    (below : ((O32.cursor regs m).fetchEach ks p).2.slot ≤ 0x40000000) :
    fetchEach regs m ks (.ofWide p)
      = .ok (((O32.cursor regs m).fetchEach ks p).1,
        .ofWide ((O32.cursor regs m).fetchEach ks p).2) := by
  induction ks generalizing p with
  | nil => rfl
  | cons k ks ih =>
      -- slots only grow, so the bound on the last position is one on this step's
      have middle : (O32.cursor regs m k p).2.slot ≤ 0x40000000 :=
        Nat.le_trans (slot_le_fetchEach regs m ks _) below
      have rest := ih (p := (O32.cursor regs m k p).2) below
      rw [fetchEach, fetch_eq middle, ok_bind]
      simp only [rest]
      rfl

theorem decodeAll_eq {ts : List ArgType} {p : O32.Position}
    (below : p.slot + 3 * ts.length ≤ 0x40000000) :
    decodeAll regs m ts (.ofWide p)
      = .ok (((O32.cursor regs m).decodeAll ts p).1,
        .ofWide ((O32.cursor regs m).decodeAll ts p).2) := by
  induction ts generalizing p with
  | nil => rfl
  | cons t ts ih =>
      rw [List.length_cons] at below
      have step := (slot_cursor regs m t.fetch p).2
      rw [decodeAll, fetch_eq (by omega), ok_bind, Cursor.decodeAll, Cursor.decode]
      cases answer : O32.cursor regs m t.fetch p with
      | mk fetched q =>
          rw [answer] at step
          simp only at step
          cases fetched with
          | error fault => rfl
          | ok v =>
              simp only [Except.map]
              rw [ih (by omega)]
              rfl

theorem decode_eq (regs : Registers) (m : Memory) {ts : List ArgType} (few : ts.length ≤ 6) :
    decode regs m ts = .ok (O32.decode regs m ts) := by
  -- an argument takes three slots at most, one of them padding
  have below : ({} : O32.Position).slot + 3 * ts.length ≤ 0x40000000 := by
    change 0 + 3 * ts.length ≤ 0x40000000
    omega
  rw [decode, show ({} : Position) = .ofWide {} from rfl, decodeAll_eq below]
  rfl

end CallGate.Checked
