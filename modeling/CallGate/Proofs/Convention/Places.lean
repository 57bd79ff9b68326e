import CallGate.Proofs.Convention.Layout
import Mathlib.Data.List.Nodup

/-! Where the words of an argument list are kept.

Every word has a place: a register, or a word in the frame of the caller. Along a list the slots of the
places ascend strictly (`slots_layout`). So no register holds two of the words, and no byte of the
stack belongs to two of them as long as the frame does not wrap around onto itself
(`nodup_cells`). -/

namespace CallGate

def Fetch.start (k : Fetch) (stop : Nat) : Nat := (stop + (k.slots - 1)) / k.slots * k.slots

theorem Fetch.start_least (k : Fetch) (stop : Nat) :
    IsLeast {n | stop ≤ n ∧ k.slots ∣ n} (k.start stop) := by
  refine ⟨⟨?_, Nat.dvd_mul_left _ _⟩, ?_⟩
  · cases k <;> simp only [start, slots] <;> omega
  · intro n after
    have behind := after.1
    have aligned := after.2
    cases k <;> simp only [start, slots] at * <;> omega

theorem Fetch.le_start (k : Fetch) (stop : Nat) : stop ≤ k.start stop := (k.start_least stop).1.1

namespace O32

inductive Place
  | integer (n : Fin 4)
  | float (n : Fin 2)
  | frame (slot : Nat)
deriving DecidableEq, Repr

inductive Cell
  | gpr (r : Reg)
  | fpr (r : Reg)
  | byte (address : Nat)
deriving DecidableEq, Repr

namespace Place

def ofSlot (slot : Nat) : Place :=
  if inRegister : slot < 4 then integer ⟨slot, inRegister⟩ else frame slot

/-- The slot that a word uses up. A word in a float register uses up one too. -/
def slot : Place → Nat
  | integer n => n
  | float n => n
  | frame slot => slot

def OnStack : Place → Prop
  | frame _ => True
  | _ => False

instance : DecidablePred OnStack
  | integer _ => inferInstanceAs (Decidable False)
  | float _ => inferInstanceAs (Decidable False)
  | frame _ => inferInstanceAs (Decidable True)

def cells (regs : Registers) : Place → List Cell
  | integer n => [.gpr (Reg.argument n)]
  | float n => [.fpr (Reg.floatArgument n)]
  | frame slot => (List.range 4).map fun i => .byte ((frameAddress regs slot).toNat + i)

/-- Behind this many slots a frame has used up the address space. -/
def slotLimit : Nat := 0x40000000

@[simp] theorem slot_integer (n : Fin 4) : (integer n).slot = n := rfl

@[simp] theorem slot_float (n : Fin 2) : (float n).slot = n := rfl

@[simp] theorem slot_frame (n : Nat) : (frame n).slot = n := rfl

theorem slot_ofSlot (n : Nat) : (ofSlot n).slot = n := by
  unfold ofSlot
  split <;> rfl

theorem onStack_ofSlot (n : Nat) : (ofSlot n).OnStack ↔ 4 ≤ n := by
  unfold ofSlot
  split
  · next inRegister => exact iff_of_false id (by omega)
  · next behind => exact iff_of_true trivial (by omega)

end Place

open Place

theorem Leading.length_lt {before : List Fetch} (leading : Leading before) : before.length < 2 :=
  leading.1

def places (before : List Fetch) (stop : Nat) : Fetch → List Place
  | .word => [ofSlot (Fetch.word.start stop)]
  | .doubleWord => [ofSlot (Fetch.doubleWord.start stop), ofSlot (Fetch.doubleWord.start stop + 1)]
  | .single =>
    if leading : Leading before then [float ⟨before.length, leading.length_lt⟩]
    else [ofSlot (Fetch.single.start stop)]

def layout (before : List Fetch) (stop : Nat) : List Fetch → List (List Place)
  | [] => []
  | k :: ks => places before stop k :: layout (before ++ [k]) (k.start stop + k.slots) ks

def slotsEnd (stop : Nat) : List Fetch → Nat
  | [] => stop
  | k :: ks => slotsEnd (k.start stop + k.slots) ks

variable {before : List Fetch} {stop : Nat}

theorem slots_places (counted : Leading before → stop = before.length) (k : Fetch) :
    (places before stop k).map slot = List.range' (k.start stop) k.slots := by
  cases k with
  | word => simp [places, slot_ofSlot, Fetch.slots]
  | doubleWord => simp [places, slot_ofSlot, Fetch.slots, List.range'_succ]
  | single =>
      by_cases leading : Leading before
      · simp [places, leading, Fetch.start, Fetch.slots, counted leading]
      · simp [places, leading, slot_ofSlot, Fetch.slots]

theorem counted_next (counted : Leading before → stop = before.length) (k : Fetch)
    (leading : Leading (before ++ [k])) : k.start stop + k.slots = (before ++ [k]).length := by
  obtain ⟨earlier, rfl⟩ := leading_init leading
  simp [Fetch.start, Fetch.slots, counted earlier]

theorem stop_le_slotsEnd (stop : Nat) (ks : List Fetch) : stop ≤ slotsEnd stop ks := by
  induction ks generalizing stop with
  | nil => exact Nat.le_refl _
  | cons k ks ih =>
      have first := k.le_start stop
      have rest := ih (k.start stop + k.slots)
      simp only [slotsEnd]
      omega

/-- Along a list the slots ascend, whatever is padding and whatever is in float registers. -/
theorem slots_layout (counted : Leading before → stop = before.length) (ks : List Fetch) :
    ((layout before stop ks).flatten.map slot).Pairwise (· < ·) ∧
    ∀ p ∈ (layout before stop ks).flatten, stop ≤ p.slot ∧ p.slot < slotsEnd stop ks := by
  induction ks generalizing before stop with
  | nil => simp [layout]
  | cons k ks ih =>
      obtain ⟨ascending, within⟩ := ih (counted_next counted k)
      have behind := k.le_start stop
      have room := stop_le_slotsEnd (k.start stop + k.slots) ks
      have own : ∀ p ∈ places before stop k,
          k.start stop ≤ p.slot ∧ p.slot < k.start stop + k.slots := by
        intro p member
        have listed := List.mem_map_of_mem (f := slot) member
        rw [slots_places counted] at listed
        simpa using List.mem_range'_1.mp listed
      simp only [layout, List.flatten_cons, List.map_append, slotsEnd]
      constructor
      · rw [List.pairwise_append]
        refine ⟨?_, ascending, ?_⟩
        · rw [slots_places counted]
          exact List.pairwise_lt_range' 
        · intro a first b second
          obtain ⟨p, member, rfl⟩ := List.mem_map.mp first
          obtain ⟨q, later, rfl⟩ := List.mem_map.mp second
          have below := (own p member).2
          have above := (within q later).1
          omega
      · intro p member
        rcases List.mem_append.mp member with first | later
        · have bounds := own p first
          omega
        · have bounds := within p later
          omega

/-- Below the limit different slots of a frame are different words, also where their addresses wrap
around. -/
theorem frameAddress_apart (regs : Registers) {a b : Nat} (different : a ≠ b)
    (first : a < slotLimit) (second : b < slotLimit) :
    Memory.Apart (frameAddress regs a) 4 (frameAddress regs b) 4 := by
  have four : (4 : UInt32).toNat = 4 := rfl
  simp only [slotLimit] at first second
  simp only [Memory.Apart, frameAddress, UInt32.toNat_ofNat', four]
  omega

theorem slot_of_shared (regs : Registers) {p q : Place} (first : p.slot < slotLimit)
    (second : q.slot < slotLimit) {c : Cell} (left : c ∈ p.cells regs) (right : c ∈ q.cells regs) :
    p.slot = q.slot := by
  cases p with
  | integer n =>
      obtain rfl := List.mem_singleton.mp left
      cases q with
      | integer n' =>
          have same := Registers.argument_inj (Cell.gpr.inj (List.mem_singleton.mp right))
          exact congrArg Fin.val same
      | float n' => simp [cells] at right
      | frame b => simp [cells] at right
  | float n =>
      obtain rfl := List.mem_singleton.mp left
      cases q with
      | integer n' => simp [cells] at right
      | float n' =>
          have same := Registers.floatArgument_inj (Cell.fpr.inj (List.mem_singleton.mp right))
          exact congrArg Fin.val same
      | frame b => simp [cells] at right
  | frame a =>
      obtain ⟨i, small, rfl⟩ := List.mem_map.mp left
      cases q with
      | integer n' => simp [cells] at right
      | float n' => simp [cells] at right
      | frame b =>
          obtain ⟨j, small', same⟩ := List.mem_map.mp right
          have shared := Cell.byte.inj same
          have four : (4 : UInt32).toNat = 4 := rfl
          rw [List.mem_range] at small small'
          by_contra different
          have apart := frameAddress_apart regs different first second
          simp only [Memory.Apart, four, slot_frame] at apart
          omega

theorem nodup_cells_place (regs : Registers) (p : Place) : (p.cells regs).Nodup := by
  cases p with
  | integer n => exact List.nodup_singleton _
  | float n => exact List.nodup_singleton _
  | frame n =>
      apply List.nodup_range.map
      intro i j same
      have shared := Cell.byte.inj same
      omega

theorem nodup_cells (regs : Registers) (ks : List Fetch) (few : slotsEnd 0 ks ≤ slotLimit) :
    ((layout [] 0 ks).flatten.flatMap (cells regs)).Nodup := by
  have counted : Leading [] → 0 = ([] : List Fetch).length := fun _ => rfl
  obtain ⟨ascending, within⟩ := slots_layout counted ks
  rw [List.nodup_flatMap]
  refine ⟨fun p _ => nodup_cells_place regs p, ?_⟩
  apply (List.pairwise_map.mp ascending).imp_of_mem
  intro p q first second below c left right
  have shared := slot_of_shared regs (Nat.lt_of_lt_of_le (within p first).2 few)
    (Nat.lt_of_lt_of_le (within q second).2 few) left right
  omega

theorem places_together (before : List Fetch) (stop : Nat) (k : Fetch) :
    (∀ p ∈ places before stop k, p.OnStack) ∨ (∀ p ∈ places before stop k, ¬ p.OnStack) := by
  have alone (p : Place) : (∀ q ∈ [p], q.OnStack) ∨ (∀ q ∈ [p], ¬ q.OnStack) := by
    simpa using em p.OnStack
  cases k with
  | word => exact alone _
  | doubleWord =>
      have even := (Fetch.doubleWord.start_least stop).1.2
      simp only [Fetch.slots] at even
      simp only [places, List.forall_mem_cons, onStack_ofSlot, List.not_mem_nil, false_implies,
        implies_true, and_true]
      omega
  | single =>
      by_cases leading : Leading before
      · simp only [places, dif_pos leading]
        exact alone _
      · simp only [places, dif_neg leading]
        exact alone _

theorem layout_together (before : List Fetch) (stop : Nat) (ks : List Fetch) :
    ∀ ps ∈ layout before stop ks, (∀ p ∈ ps, p.OnStack) ∨ (∀ p ∈ ps, ¬ p.OnStack) := by
  induction ks generalizing before stop with
  | nil => simp [layout]
  | cons k ks ih =>
      intro ps member
      rcases List.mem_cons.mp member with rfl | later
      · exact places_together before stop k
      · exact ih _ _ ps later

end O32

end CallGate
