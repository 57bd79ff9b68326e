import CallGate.Convention.O32
import CallGate.Proofs.Memory.Access
import Mathlib.Order.Bounds.Basic

/-! The layout of an argument list, told without a cursor.

The argument area is one sequence of words. An argument starts at the least slot that is aligned to
its size and not before the end of the argument in front of it. A cursor walks a list exactly so
(`fetchEach_eq_iff`). -/

namespace CallGate

abbrev Fetched := (k : Fetch) × Except Fault k.Value

def Fetch.slots : Fetch → Nat
  | word | single => 1
  | doubleWord => 2

/-- Takes one fetch after the other, going on behind faults. -/
def Cursor.fetchEach {σ : Type} (c : Cursor σ) : List Fetch → σ → List Fetched × σ
  | [], s => ([], s)
  | k :: ks, s =>
    let (answer, s) := c k s
    let (answers, s) := c.fetchEach ks s
    (⟨k, answer⟩ :: answers, s)

namespace O32

/-- Where slot `n` lies in the frame of the caller; the sum wraps around. -/
def frameAddress (regs : Registers) (n : Nat) : UInt32 :=
  UInt32.ofNat ((regs.gpr[29].toUInt32.toNat + 4 * n) % 0x100000000)

/-- Word `n` of the argument area: a register or a word of the image. -/
def areaWord (regs : Registers) (m : Memory) (n : Nat) : Except Fault UInt32 :=
  if inRegister : n < 4 then .ok regs.gpr[4 + n].toUInt32
  else if m.Contains (frameAddress regs n) 4 then
    .ok (UInt32.ofNat (BigEndian.decode (m.window (m.offset (frameAddress regs n)) 4)))
  else .error (.outOfBounds (frameAddress regs n) 4)

def Leading (before : List Fetch) : Prop := before.length < 2 ∧ ∀ k ∈ before, k = .single

instance (before : List Fetch) : Decidable (Leading before) :=
  inferInstanceAs (Decidable (_ ∧ _))

/-- What an argument comes to that starts at a slot, with the arguments `before` in front of it. -/
def argumentAt (regs : Registers) (m : Memory) (before : List Fetch) (start : Nat) :
    (k : Fetch) → Except Fault k.Value
  | .word => areaWord regs m start
  | .doubleWord =>
    match areaWord regs m start, areaWord regs m (start + 1) with
    | .error fault, _ => .error fault
    | .ok _, .error fault => .error fault
    | .ok high, .ok low => .ok (UInt64.ofNat (high.toNat * 0x100000000 + low.toNat))
  | .single =>
    if leading : Leading before then
      have inside : before.length < 2 := leading.1
      .ok ⟨regs.fpr[12 + 2 * before.length].toUInt32⟩
    else (areaWord regs m start).map Single.mk

/-- The slots that an argument uses up. A doubleword whose high word faults leaves the slot of its low
word to the next argument. -/
def extent (regs : Registers) (m : Memory) (start : Nat) : Fetch → Nat
  | .doubleWord =>
    match areaWord regs m start with
    | .ok _ => Fetch.doubleWord.slots
    | .error _ => 1
  | k => k.slots

/-- The answers to a list of arguments behind the arguments `before`, whose slots end at `stop`. -/
inductive Laid (regs : Registers) (m : Memory) :
    List Fetch → Nat → List Fetch → List Fetched → Prop
  | nil {before : List Fetch} {stop : Nat} : Laid regs m before stop [] []
  | cons {before : List Fetch} {stop start : Nat} {k : Fetch} {ks : List Fetch}
      {answers : List Fetched}
      (least : IsLeast {n | stop ≤ n ∧ k.slots ∣ n} start)
      (rest : Laid regs m (before ++ [k]) (start + extent regs m start k) ks answers) :
      Laid regs m before stop (k :: ks) (⟨k, argumentAt regs m before start k⟩ :: answers)

theorem frameAddress_eq (regs : Registers) (n : Nat) :
    regs.word Reg.sp + UInt32.ofNat (4 * n) = frameAddress regs n := by
  rw [regs.word_of_ne_zero (by decide), ← UInt32.toNat_inj]
  change ((regs.gpr[29].toUInt32.toNat + _ % _) % _ : Nat) = _ % _
  simp

theorem slotWord_eq (regs : Registers) (m : Memory) (n : Nat) :
    slotWord regs m n = areaWord regs m n := by
  unfold slotWord areaWord
  split
  · rw [regs.word_of_ne_zero (Registers.argument_ne_zero _)]
    rfl
  · rw [frameAddress_eq]
    split
    · next inside => exact Memory.read_of_contains (t := .u32) inside
    · next outside => exact Memory.read_of_outside (t := .u32) outside

theorem joinWords_eq (high low : UInt32) :
    joinWords high low = UInt64.ofNat (high.toNat * 0x100000000 + low.toNat) := by
  have top := high.toNat_lt
  have small := low.toNat_lt
  have shifted : (high.toUInt64 <<< 32).toNat = high.toNat <<< 32 := by
    have fits : high.toNat <<< 32 < 2 ^ 64 := by
      rw [Nat.shiftLeft_eq]
      omega
    simp only [UInt64.toNat_shiftLeft, UInt32.toNat_toUInt64, UInt64.reduceToNat, Nat.reduceMod]
    exact Nat.mod_eq_of_lt fits
  rw [← UInt64.toNat_inj, joinWords, UInt64.toNat_or, shifted, UInt32.toNat_toUInt64,
    ← Nat.shiftLeft_add_eq_or_of_lt small, Nat.shiftLeft_eq, UInt64.toNat_ofNat', Nat.mod_eq_of_lt]
  omega

theorem least_slot (stop : Nat) : IsLeast {n | stop ≤ n ∧ 1 ∣ n} stop := by
  refine ⟨⟨Nat.le_refl _, Nat.one_dvd _⟩, ?_⟩
  intro n after
  exact after.1

theorem least_even_slot (stop : Nat) : IsLeast {n | stop ≤ n ∧ 2 ∣ n} (stop + stop % 2) := by
  refine ⟨⟨by omega, by omega⟩, ?_⟩
  intro n after
  have behind := after.1
  have even := after.2
  omega

/-- A cursor stands behind the arguments `before`, whose slots end at `stop`. The flag alone does not
say that the next single is in a float register, nor does the slot; together they do. -/
structure Stands (before : List Fetch) (stop : Nat) (p : Position) : Prop where
  slot : p.slot = stop
  leading : p.singlesOnly = true ∧ p.slot < 2 ↔ Leading before
  counted : Leading before → stop = before.length

theorem stands_start : Stands [] 0 {} := by
  refine ⟨rfl, ?_, fun _ => rfl⟩
  simp [Leading]

theorem stands_closed {before : List Fetch} {stop : Nat} (closed : ¬ Leading before) :
    Stands before stop ⟨stop, false⟩ := by
  refine ⟨rfl, ?_, fun leading => absurd leading closed⟩
  simp [closed]

theorem leading_init {before : List Fetch} {k : Fetch} (leading : Leading (before ++ [k])) :
    Leading before ∧ k = .single := by
  have short : before.length + 1 < 2 := by simpa using leading.1
  refine ⟨⟨by omega, ?_⟩, leading.2 k (by simp)⟩
  intro earlier member
  exact leading.2 earlier (List.mem_append_left _ member)

theorem leading_snoc {before : List Fetch} (leading : Leading before) :
    Leading (before ++ [.single]) ↔ before.length + 1 < 2 := by
  constructor
  · intro longer
    simpa using longer.1
  · intro short
    refine ⟨by simpa using short, ?_⟩
    intro k member
    rcases List.mem_append.mp member with earlier | last
    · exact leading.2 k earlier
    · exact List.mem_singleton.mp last

theorem stands_step (regs : Registers) (m : Memory) {before : List Fetch} {stop : Nat} {p : Position}
    (stands : Stands before stop p) (k : Fetch) :
    ∃ start, IsLeast {n | stop ≤ n ∧ k.slots ∣ n} start ∧
      (cursor regs m k p).1 = argumentAt regs m before start k ∧
      Stands (before ++ [k]) (start + extent regs m start k) (cursor regs m k p).2 := by
  obtain ⟨rfl, leading, counted⟩ := stands
  cases k with
  | word =>
      have closed : ¬ Leading (before ++ [.word]) := by
        intro opened
        cases (leading_init opened).2
      exact ⟨p.slot, least_slot p.slot, slotWord_eq regs m p.slot, stands_closed closed⟩
  | doubleWord =>
      have closed : ¬ Leading (before ++ [.doubleWord]) := by
        intro opened
        cases (leading_init opened).2
      refine ⟨p.slot + p.slot % 2, least_even_slot p.slot, ?_⟩
      simp only [cursor, argumentAt, extent, slotWord_eq]
      cases areaWord regs m (p.slot + p.slot % 2) with
      | error fault => exact ⟨rfl, stands_closed closed⟩
      | ok high =>
          refine ⟨?_, stands_closed closed⟩
          cases areaWord regs m (p.slot + p.slot % 2 + 1) with
          | error fault => rfl
          | ok low => exact congrArg Except.ok (joinWords_eq high low)
  | single =>
      refine ⟨p.slot, least_slot p.slot, ?_⟩
      by_cases opened : Leading before
      · have first := leading.mpr opened
        have place := counted opened
        simp only [cursor, argumentAt, dif_pos first, dif_pos opened]
        constructor
        · simp only [Registers.single, Registers.rawFpr, Reg.floatArgument, place]
          rfl
        · refine ⟨rfl, ?_, ?_⟩
          · rw [leading_snoc opened, ← place]
            exact and_iff_right rfl
          · intro _
            simp [place, extent, Fetch.slots]
      · -- the flag may still be up here, for the third of three leading singles
        have shut : ¬ (p.singlesOnly = true ∧ p.slot < 2) := by
          intro first
          exact opened (leading.mp first)
        have closed : ¬ Leading (before ++ [.single]) := by
          intro next
          exact opened (leading_init next).1
        simp only [cursor, argumentAt, dif_neg shut, dif_neg opened, slotWord_eq]
        exact ⟨trivial, stands_closed closed⟩

theorem fetchEach_laid (regs : Registers) (m : Memory) {before : List Fetch} {stop : Nat} {p : Position}
    (stands : Stands before stop p) (ks : List Fetch) :
    Laid regs m before stop ks ((cursor regs m).fetchEach ks p).1 := by
  -- what flag and slot of a position say together is kept by every fetch, faults included
  induction ks generalizing before stop p with
  | nil => exact .nil
  | cons k ks ih =>
      obtain ⟨start, least, answer, next⟩ := stands_step regs m stands k
      simp only [Cursor.fetchEach, answer]
      exact .cons least (ih next)

theorem laid_unique {regs : Registers} {m : Memory} {before : List Fetch} {stop : Nat}
    {ks : List Fetch} {a b : List Fetched} (first : Laid regs m before stop ks a)
    (second : Laid regs m before stop ks b) : a = b := by
  induction first generalizing b with
  | nil => cases second; rfl
  | cons least rest ih =>
      cases second with
      | cons least' rest' =>
          obtain rfl := least.unique least'
          rw [ih rest']

/-- The answers of a fresh cursor, faults included, are those of the layout and no others. -/
theorem fetchEach_eq_iff (regs : Registers) (m : Memory) (ks : List Fetch) (answers : List Fetched) :
    ((cursor regs m).fetchEach ks {}).1 = answers ↔ Laid regs m [] 0 ks answers := by
  have laid := fetchEach_laid regs m stands_start ks
  constructor
  · intro same
    rwa [same] at laid
  · intro other
    exact laid_unique laid other

-- slot 1 stays empty, and the word behind the doubleword is the first one on the stack
example : ((cursor {} (Memory.ofImage 0 ⟨Array.replicate 20 7⟩)).fetchEach
    [.single, .doubleWord, .word] {}).1
      = [⟨.single, .ok ⟨0⟩⟩, ⟨.doubleWord, .ok 0⟩, ⟨.word, .ok 0x07070707⟩] := by
  rfl

end O32

end CallGate
