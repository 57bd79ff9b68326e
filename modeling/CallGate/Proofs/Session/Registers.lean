import CallGate.Proofs.Registers.Stores
import CallGate.Proofs.Session.Guest

/-! The register file of a session.

A step comes to stores into some fields of the register file, or puts another file in its place. So behind a
run of steps that all keep the file, every field holds the last value that a step stored into it, and the
readers of a register are told by its field. A number that names no register is refused, and nothing has
changed then. -/

namespace CallGate.Session

def atRegister (index : Nat) (stores : Reg → List (Field × UInt64)) : List (Field × UInt64) :=
  match Reg.ofIndex index with
  | .ok r => stores r
  | .error _ => []

/-- The fields that a step stores into, with what is stored. Into the field of register 0 only a caller
stores, who does so directly. -/
def RegisterStep.stores : RegisterStep → List (Field × UInt64)
  | .set index value => atRegister index fun r => if r = Reg.zero then [] else [(.gpr r, value)]
  | .setWord index value =>
    atRegister index fun r => if r = Reg.zero then [] else [(.gpr r, widened value)]
  | .setSingle index value => atRegister index fun r => [(.fpr r, UInt64.ofNat value.bits.toNat)]
  | .pokeGpr index value => atRegister index fun r => [(.gpr r, value)]
  | .pokeFpr index value => atRegister index fun r => [(.fpr r, value)]
  | .pokeHi value => [(.hi, value)]
  | .pokeLo value => [(.lo, value)]
  | _ => []

def Step.stores : Step → List (Field × UInt64)
  | .registers x => x.stores
  | .convention (.store value) => value.stores
  | _ => []

def Step.replacesRegisters : Step → Bool
  | .registers .reset => true
  | .registers .restore => true
  | _ => false

def RegisterStep.index? : RegisterStep → Option Nat
  | .get index => some index
  | .word index => some index
  | .set index _ => some index
  | .setWord index _ => some index
  | .single index => some index
  | .setSingle index _ => some index
  | .pokeGpr index _ => some index
  | .pokeFpr index _ => some index
  | _ => none

variable {s : Session}

theorem registers_withRegister {index : Nat} {use : Reg → Answer}
    {stores : Reg → List (Field × UInt64)}
    (used : ∀ r, (use r).2.registers = s.registers.storeAll (stores r)) :
    (s.withRegister index use).2.registers = s.registers.storeAll (atRegister index stores) := by
  unfold withRegister atRegister
  cases Reg.ofIndex index with
  | ok r => exact used r
  | error e => rfl

theorem registers_registerStep (s : Session) {x : RegisterStep}
    (keeps : (Step.registers x).replacesRegisters = false) :
    (s.registerStep x).2.registers = s.registers.storeAll x.stores := by
  have read (index : Nat) (reply : Reg → Reply) :
      (s.withRegister index fun r => s.answer (reply r)).2.registers = s.registers :=
    withRegister_cases (P := fun a => a.2.registers = s.registers) (fun _ => rfl) fun _ => rfl
  cases x with
  | get | word | single => exact read _ _
  | set index value =>
      apply registers_withRegister
      intro r
      change s.registers.set r value = _
      split
      · next zero => rw [zero, Registers.set_zero]; rfl
      · next nonzero => exact Registers.set_eq_poke nonzero value
  | setWord index value =>
      apply registers_withRegister
      intro r
      change s.registers.setWord r value = _
      split
      · next zero => rw [zero, Registers.setWord, Registers.set_zero]; rfl
      · next nonzero => exact Registers.setWord_eq_poke nonzero value
  | setSingle index value =>
      apply registers_withRegister
      intro r
      exact s.registers.setSingle_eq_poke r value
  | pokeGpr | pokeFpr => exact registers_withRegister fun _ => rfl
  | pokeHi | pokeLo | save | sameAsSaved => rfl
  | reset | restore => cases keeps

theorem registers_step (s : Session) {x : Step} (keeps : x.replacesRegisters = false) :
    (s.step x).2.registers = s.registers.storeAll x.stores := by
  cases x with
  | memory x => exact (registersKept_memoryStep s x).registers
  | registers x => exact registers_registerStep s keeps
  | convention x =>
      cases x with
      | store value => exact s.registers.store_eq_storeAll value
      | _ => rfl
  | input x => exact (hostsKept_inputStep s x).registers
  | output x => exact (hostsKept_outputStep s x).registers
  | host x => exact (servicesOnly_hostStep s x).registers
  | call x => exact (registersKept_callStep s x).registers

theorem registers_run (s : Session) {steps : List Step}
    (keep : ∀ x ∈ steps, x.replacesRegisters = false) :
    (run s steps).2.registers = s.registers.storeAll (steps.flatMap Step.stores) := by
  induction steps generalizing s with
  | nil => rfl
  | cons x steps ih =>
      rw [List.forall_mem_cons] at keep
      calc
        (run (s.step x).2 steps).2.registers
            = (s.step x).2.registers.storeAll (steps.flatMap Step.stores) := ih _ keep.2
        _ = s.registers.storeAll (x.stores ++ steps.flatMap Step.stores) := by
          rw [registers_step s keep.1, Registers.storeAll_append]

theorem mem_atRegister {index : Nat} {stores : Reg → List (Field × UInt64)} {e : Field × UInt64}
    (member : e ∈ atRegister index stores) : ∃ r : Reg, r.val = index ∧ e ∈ stores r := by
  unfold atRegister Reg.ofIndex at member
  by_cases inside : index < 32
  · rw [dif_pos inside] at member
    exact ⟨⟨index, inside⟩, rfl, member⟩
  · rw [dif_neg inside] at member
    cases member

theorem stores_zero {x : Step} {value : UInt64} (stored : (Field.gpr Reg.zero, value) ∈ x.stores) :
    x = .registers (.pokeGpr 0 value) := by
  -- a method drops what it is given for register 0, and returns go into others
  have dropped (index : Nat) (v : UInt64) : (Field.gpr Reg.zero, value) ∉
      atRegister index fun r => if r = Reg.zero then [] else [(.gpr r, v)] := by
    intro member
    obtain ⟨r, -, listed⟩ := mem_atRegister member
    split at listed
    · cases listed
    · next nonzero =>
      have same := List.mem_singleton.mp listed
      exact nonzero (Field.gpr.inj (Prod.ext_iff.mp same).1).symm
  cases x with
  | registers x =>
      cases x with
      | set index v => exact absurd stored (dropped index v)
      | setWord index v => exact absurd stored (dropped index (widened v))
      | setSingle index v | pokeFpr index v =>
          obtain ⟨r, -, listed⟩ := mem_atRegister stored
          cases (Prod.ext_iff.mp (List.mem_singleton.mp listed)).1
      | pokeGpr index v =>
          obtain ⟨r, named, listed⟩ := mem_atRegister stored
          obtain ⟨field, same⟩ := Prod.ext_iff.mp (List.mem_singleton.mp listed)
          obtain rfl : Reg.zero = r := Field.gpr.inj field
          obtain rfl : value = v := same
          rw [← named]
          rfl
      | pokeHi v | pokeLo v => cases (Prod.ext_iff.mp (List.mem_singleton.mp stored)).1
      | _ => cases stored
  | convention x =>
      cases x with
      | store v =>
          have carries : Field.gpr Reg.zero ∈ v.carriers := by
            rw [← v.map_fst_stores]
            exact List.mem_map_of_mem stored
          exact absurd carries v.zero_not_mem_carriers
      | _ => cases stored
  | _ => cases stored

theorem registerStep_index (s : Session) {x : RegisterStep} {index : Nat}
    (names : x.index? = some index) :
    if index < 32 then (s.registerStep x).1.isOk = true
    else s.registerStep x = (.error (.noSuchRegister ⟨index⟩), s) := by
  have named (use : Reg → Answer) (used : ∀ r, (use r).1.isOk = true) :
      if index < 32 then (s.withRegister index use).1.isOk = true
      else s.withRegister index use = (.error (.noSuchRegister ⟨index⟩), s) := by
    unfold withRegister Reg.ofIndex
    split
    · exact used _
    · rfl
  cases x with
  | get | word | set | setWord | single | setSingle | pokeGpr | pokeFpr =>
      cases names
      exact named _ fun _ => rfl
  | pokeHi | pokeLo | reset | save | restore | sameAsSaved => cases names

/-- The register file behind any run of steps that keep it, whatever it held before. Every field holds the
last value that a step stored into it, and a field that no step stores into, the old one; the field of
register 0 changes by a direct store alone. The readers of a register show its field whole, its low word or
the bits of a single, and register 0 as zero. A number that names no register is refused, and nothing has
changed. -/
theorem registers_hold_last (s : Session) (steps : List Step)
    (keep : ∀ x ∈ steps, x.replacesRegisters = false) :
    (run s steps).2.registers.Shows (s.registers.lastStored (steps.flatMap Step.stores)) ∧
    (∀ f, (∀ x ∈ steps, ∀ value, (f, value) ∉ x.stores) →
      (run s steps).2.registers.raw f = s.registers.raw f) ∧
    ((∀ value, Step.registers (.pokeGpr 0 value) ∉ steps) →
      (run s steps).2.registers.raw (.gpr Reg.zero) = s.registers.raw (.gpr Reg.zero)) ∧
    ∀ (x : RegisterStep) (index : Nat), x.index? = some index →
      if index < 32 then ((run s steps).2.registerStep x).1.isOk = true
      else (run s steps).2.registerStep x
        = (.error (.noSuchRegister ⟨index⟩), (run s steps).2) := by
  have shown := (run s steps).2.registers.shows_raw
  have held : (run s steps).2.registers.raw
      = s.registers.lastStored (steps.flatMap Step.stores) := by
    funext f
    rw [registers_run s keep, Registers.raw_storeAll]
  rw [held] at shown
  have kept (f : Field) (missed : ∀ x ∈ steps, ∀ value, (f, value) ∉ x.stores) :
      (run s steps).2.registers.raw f = s.registers.raw f := by
    rw [shown.raw]
    apply Registers.lastStored_of_not_mem
    intro value member
    obtain ⟨x, listed, stored⟩ := List.mem_flatMap.mp member
    exact missed x listed value stored
  refine ⟨shown, kept, ?_, ?_⟩
  · intro undisturbed
    apply kept
    intro x listed value stored
    obtain rfl := stores_zero stored
    exact undisturbed value listed
  · intro x index names
    exact registerStep_index _ names

def mixedStores : List Step :=
  [.registers (.pokeGpr 0 7), .registers (.set 0 9), .registers (.setWord 5 0x80000000),
    .registers (.set 32 1), .registers (.pokeFpr 0 0xdeadbeef00000000),
    .convention (.store (.f32 ⟨0x7fc00001⟩)), .convention (.store (.u64 0x1122334480000000)),
    .registers (.setSingle 40 ⟨1⟩)]

theorem registers_hold_last_mixedStores :
    (∀ x ∈ mixedStores, x.replacesRegisters = false) ∧
    ((run start mixedStores).2.registers.get Reg.zero = 0 ∧
      (run start mixedStores).2.registers.raw (.gpr Reg.zero) = 7 ∧
      (run start mixedStores).2.registers.get 5 = 0xffffffff80000000 ∧
      (run start mixedStores).2.registers.get 3 = 0xffffffff80000000 ∧
      ((run start mixedStores).2.registers.word 2).toNat = 0x11223344 ∧
      ((run start mixedStores).2.registers.single 0).bits.toNat = 0x7fc00001) ∧
    ((∀ x ∈ mixedStores, ∀ value, (Field.hi, value) ∉ x.stores) ∧
      (run start mixedStores).2.registers.raw .hi = 0) ∧
    ((∀ value, Step.registers (.pokeGpr 0 value) ∉ mixedStores.drop 1) ∧
      (run start (mixedStores.drop 1)).2.registers.raw (.gpr Reg.zero) = 0) ∧
    RegisterStep.index? (.single 40) = some 40 ∧
    (run start mixedStores).2.registerStep (.single 40)
      = (.error (.noSuchRegister ⟨40⟩), (run start mixedStores).2) := by
  have keep : ∀ x ∈ mixedStores, x.replacesRegisters = false := by decide
  have named : ∀ x ∈ mixedStores, Field.hi ∉ x.stores.map Prod.fst := by decide
  have untouched : ∀ x ∈ mixedStores, ∀ value, (Field.hi, value) ∉ x.stores := by
    intro x member value stored
    exact named x member (List.mem_map_of_mem stored)
  have undisturbed : ∀ value, Step.registers (.pokeGpr 0 value) ∉ mixedStores.drop 1 := by
    simp [mixedStores]
  obtain ⟨shown, kept, -, refused⟩ := registers_hold_last start mixedStores keep
  obtain ⟨-, -, zero, -⟩ := registers_hold_last start (mixedStores.drop 1)
    fun x member => keep x (List.mem_of_mem_drop member)
  refine ⟨keep, ⟨shown.zero.1, shown.raw _, shown.get 5 (by decide), shown.get 3 (by decide),
    shown.word 2 (by decide), shown.single 0⟩, ⟨untouched, kept .hi untouched⟩,
    ⟨undisturbed, zero undisturbed⟩, rfl, ?_⟩
  exact refused (.single 40) 40 rfl

end CallGate.Session
