import CallGate.Proofs.Convention.Returning
import CallGate.Proofs.Session.Registers

/-! Register files that 32-bit code leaves behind.

A field is canonical if an integer register repeats the sign of its low word and a float register has
nothing in its high word; register 0 holds zero. Every step stores canonical values, but for those that
store a whole register, so a guest that starts with a canonical file keeps one. -/

namespace CallGate

/-- What 32-bit code leaves in a field. -/
def Field.Canonical : Field → UInt64 → Prop
  | .gpr r, value => value = widened value.toUInt32 ∧ (r = Reg.zero → value = 0)
  | .fpr _, value => value.toNat < 0x100000000
  | _, _ => True

theorem Field.canonical_widened {r : Reg} (nonzero : r ≠ Reg.zero) (word : UInt32) :
    (Field.gpr r).Canonical (widened word) := by
  refine ⟨?_, ?_⟩
  · rw [toUInt32_widened]
  · intro zero
    exact absurd zero nonzero

theorem Field.canonical_single (r : Reg) (bits : UInt32) :
    (Field.fpr r).Canonical (UInt64.ofNat bits.toNat) := by
  have small := bits.toNat_lt
  rw [Canonical, UInt64.toNat_ofNat']
  omega

theorem Field.canonical_zero (f : Field) : f.Canonical 0 := by
  cases f with
  | gpr r => exact ⟨rfl, fun _ => rfl⟩
  | fpr r => exact Nat.zero_lt_succ _
  | hi => trivial
  | lo => trivial

theorem ReturnValue.canonical_stores {v : ReturnValue} {e : Field × UInt64} (stored : e ∈ v.stores) :
    e.1.Canonical e.2 := by
  have first (word : UInt32) : (Field.gpr Reg.v0).Canonical (widened word) :=
    Field.canonical_widened (by decide) word
  have second (word : UInt32) : (Field.gpr Reg.v1).Canonical (widened word) :=
    Field.canonical_widened (by decide) word
  cases v with
  | unit => cases stored
  | u32 | i32 | ptr =>
      obtain rfl := List.mem_singleton.mp stored
      exact first _
  | u64 v =>
      rcases List.mem_cons.mp stored with rfl | later
      · exact first _
      · obtain rfl := List.mem_singleton.mp later
        exact second _
  | f32 v =>
      obtain rfl := List.mem_singleton.mp stored
      exact Field.canonical_single _ _

namespace Registers

def Canonical (regs : Registers) : Prop := ∀ f : Field, f.Canonical (regs.raw f)

theorem canonical_empty : Canonical {} := by
  intro f
  have zero : Registers.raw {} f = 0 := by
    cases f <;> simp [raw, rawGpr, rawFpr]
  rw [zero]
  exact f.canonical_zero

theorem Canonical.storeAll {regs : Registers} (canonical : regs.Canonical)
    {stores : List (Field × UInt64)} (fit : ∀ e ∈ stores, e.1.Canonical e.2) :
    (regs.storeAll stores).Canonical := fun f =>
  raw_storeAll_holds (fun value stored => fit (f, value) stored) (.inl (canonical f))

theorem raw_carrier (regs : Registers) {v : ReturnValue} {r : Reg} (carried : .gpr r ∈ v.carriers) :
    (regs.store v).raw (.gpr r) = widened ((regs.store v).word r) := by
  have nonzero : r ≠ Reg.zero := by
    rintro rfl
    exact v.zero_not_mem_carriers carried
  have canonical : (Field.gpr r).Canonical ((regs.store v).raw (.gpr r)) := by
    rw [store_eq_storeAll]
    rw [← v.map_fst_stores] at carried
    exact raw_storeAll_holds (fun _ => v.canonical_stores) (.inr carried)
  rw [word_of_ne_zero _ nonzero]
  exact canonical.1

end Registers

namespace Session

def Step.storesWhole : Step → Bool
  | .registers (.set _ _) => true
  | .registers (.pokeGpr _ _) => true
  | .registers (.pokeFpr _ _) => true
  | _ => false

theorem canonical_stores {x : Step} (narrow : x.storesWhole = false) {e : Field × UInt64}
    (stored : e ∈ x.stores) : e.1.Canonical e.2 := by
  cases x with
  | registers x =>
      cases x with
      | setWord index value =>
          obtain ⟨r, -, listed⟩ := mem_atRegister stored
          split at listed
          · cases listed
          · next nonzero =>
            obtain rfl := List.mem_singleton.mp listed
            exact Field.canonical_widened nonzero value
      | setSingle index value =>
          obtain ⟨r, -, listed⟩ := mem_atRegister stored
          obtain rfl := List.mem_singleton.mp listed
          exact Field.canonical_single r value.bits
      | pokeHi value | pokeLo value =>
          obtain rfl := List.mem_singleton.mp stored
          trivial
      | set | pokeGpr | pokeFpr => cases narrow
      | _ => cases stored
  | convention x =>
      cases x with
      | store v => exact v.canonical_stores stored
      | _ => cases stored
  | _ => cases stored

structure Canonical (s : Session) : Prop where
  registers : s.registers.Canonical
  saved : s.saved.Canonical

theorem canonical_saved_registerStep {s : Session} (canonical : Canonical s) (x : RegisterStep) :
    (s.registerStep x).2.saved.Canonical := by
  have named (index : Nat) (use : Reg → Answer) (used : ∀ r, (use r).2.saved = s.saved) :
      (s.withRegister index use).2.saved.Canonical := by
    have kept : (s.withRegister index use).2.saved = s.saved :=
      withRegister_cases (P := fun a => a.2.saved = s.saved) (fun _ => rfl) used
    rw [kept]
    exact canonical.saved
  cases x with
  | save => exact canonical.registers
  | get | word | set | setWord | single | setSingle | pokeGpr | pokeFpr =>
      exact named _ _ fun _ => rfl
  | _ => exact canonical.saved

theorem canonical_saved_step {s : Session} (canonical : Canonical s) (x : Step) :
    (s.step x).2.saved.Canonical := by
  have kept {after : Session} (same : after.saved = s.saved) : after.saved.Canonical := by
    rw [same]
    exact canonical.saved
  cases x with
  | memory x => exact kept (registersKept_memoryStep s x).saved
  | registers x => exact canonical_saved_registerStep canonical x
  | convention x => cases x <;> exact canonical.saved
  | input x => exact kept (hostsKept_inputStep s x).saved
  | output x => exact kept (hostsKept_outputStep s x).saved
  | host x => exact kept (servicesOnly_hostStep s x).saved
  | call x => exact kept (registersKept_callStep s x).saved

theorem canonical_registers_step {s : Session} (canonical : Canonical s) {x : Step}
    (narrow : x.storesWhole = false) : (s.step x).2.registers.Canonical := by
  cases replaced : x.replacesRegisters with
  | false =>
      rw [registers_step s replaced]
      exact canonical.registers.storeAll fun _ => canonical_stores narrow
  | true =>
      -- the file comes in whole: the default one, or the one saved before
      cases x with
      | registers x =>
          cases x with
          | reset => exact Registers.canonical_empty
          | restore => exact canonical.saved
          | _ => cases replaced
      | _ => cases replaced

theorem canonical_run {s : Session} (canonical : Canonical s) {steps : List Step}
    (narrow : ∀ x ∈ steps, x.storesWhole = false) : Canonical (run s steps).2 := by
  induction steps generalizing s with
  | nil => exact canonical
  | cons x steps ih =>
      rw [List.forall_mem_cons] at narrow
      exact ih ⟨canonical_registers_step canonical narrow.1, canonical_saved_step canonical x⟩ narrow.2

/-- Return values come through whole and leave the register file canonical. Behind a return the registers
that carry the value show it, repeat the sign of their low words, and are the only fields that may have
changed; copied whole to the first argument registers they are decoded to the value, bit for bit, by a call
that takes one argument of its type. A guest that starts with a canonical file, such as the default one,
keeps one over any steps that store no register whole. -/
theorem returns_come_through (regs : Registers) (v : ReturnValue) :
    v.ShownBy (regs.store v) ∧
    (∀ f, f ∉ v.carriers → (regs.store v).raw f = regs.raw f) ∧
    (∀ r, .gpr r ∈ v.carriers → (regs.store v).raw (.gpr r) = widened ((regs.store v).word r)) ∧
    (∀ memory, O32.decode (regs.store v).forwarded memory v.types = .ok v.arguments) ∧
    Registers.Canonical {} ∧
    ∀ (s : Session) (steps : List Step), s.registers.Canonical → s.saved.Canonical →
      (∀ x ∈ steps, x.storesWhole = false) → (run s steps).2.registers.Canonical := by
  refine ⟨regs.shownBy_store v, fun _ => regs.raw_store_other, fun _ => regs.raw_carrier,
    regs.decode_forwarded v, Registers.canonical_empty, ?_⟩
  intro s steps registers saved narrow
  exact (canonical_run ⟨registers, saved⟩ narrow).registers

/-- Negative words, a float over a saved file, calls, and a return of two words with the top bit set. -/
def narrowSteps : List Step :=
  [.registers (.setWord 4 0x80000000), .registers .save, .registers (.setSingle 12 ⟨0x7fa00001⟩),
    .call (.handle .cameraInputs 0), .registers .restore, .convention (.store (.i32 (-1))),
    .call (.handle .itemInputs 1), .convention (.store (.u64 0xffffffff80000001))]

theorem returns_come_through_narrow :
    (Field.gpr 4 ∉ (ReturnValue.u64 0xffffffff80000001).carriers ∧
      ((Registers.poke {} (.gpr 2) 0x123456789).store (.u64 0xffffffff80000001)).raw (.gpr 4) = 0) ∧
    (Field.gpr 2 ∈ (ReturnValue.u64 0xffffffff80000001).carriers ∧
      ((Registers.poke {} (.gpr 2) 0x123456789).store (.u64 0xffffffff80000001)).raw (.gpr 2)
        = widened (((Registers.poke {} (.gpr 2) 0x123456789).store (.u64 0xffffffff80000001)).word 2)) ∧
    start.registers.Canonical ∧ start.saved.Canonical ∧ (∀ x ∈ narrowSteps, x.storesWhole = false) ∧
      (run start narrowSteps).2.registers.Canonical := by
  have other : Field.gpr 4 ∉ (ReturnValue.u64 0xffffffff80000001).carriers := by decide
  have carried : Field.gpr 2 ∈ (ReturnValue.u64 0xffffffff80000001).carriers := by decide
  have narrow : ∀ x ∈ narrowSteps, x.storesWhole = false := by decide
  obtain ⟨-, kept, widens, -, fresh, reach⟩ :=
    returns_come_through (Registers.poke {} (.gpr 2) 0x123456789) (.u64 0xffffffff80000001)
  exact ⟨⟨other, kept _ other⟩, ⟨carried, widens _ carried⟩, fresh, fresh, narrow,
    reach start narrowSteps fresh fresh narrow⟩

end Session

end CallGate
