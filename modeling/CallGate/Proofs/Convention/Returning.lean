import CallGate.Proofs.Convention.Staging
import CallGate.Proofs.Registers.Stores

/-! Return values, handed back by one call and on to the next.

A return value is found again in the registers that carry it, and no other field is touched. With these
registers copied whole to the first argument registers, a call that takes one argument of the same type
decodes the value, bit for bit. -/

namespace CallGate

namespace ReturnValue

@[reducible] def types : ReturnValue → List ArgType
  | .unit => []
  | .u32 _ => [.u32]
  | .i32 _ => [.i32]
  | .u64 _ => [.u64]
  | .f32 _ => [.f32]
  | .ptr _ => [.ptr]

def arguments : (v : ReturnValue) → Arguments v.types
  | .unit => .nil
  | .u32 v => .cons v .nil
  | .i32 v => .cons v .nil
  | .u64 v => .cons v .nil
  | .f32 v => .cons v .nil
  | .ptr v => .cons v .nil

/-- The return registers show the value: a signed one in two's complement, a doubleword with its high word
first. -/
def ShownBy (regs : Registers) : ReturnValue → Prop
  | .unit => True
  | .u32 v => (regs.word Reg.v0).toNat = v.toNat
  | .i32 v => Int.bmod (regs.word Reg.v0).toNat 0x100000000 = v.toInt
  | .u64 v => (regs.word Reg.v0).toNat * 0x100000000 + (regs.word Reg.v1).toNat = v.toNat
  | .f32 v => regs.single Reg.f0 = v
  | .ptr v => regs.word Reg.v0 = v.address

end ReturnValue

namespace Registers

/-- The return registers copied whole to where a call finds its first arguments. -/
def forwarded (regs : Registers) : Registers :=
  regs.storeAll
    [(.gpr Reg.a0, regs.raw (.gpr Reg.v0)), (.gpr Reg.a1, regs.raw (.gpr Reg.v1)),
      (.fpr Reg.f12, regs.raw (.fpr Reg.f0))]

theorem word_forwarded (regs : Registers) :
    regs.forwarded.word Reg.a0 = regs.word Reg.v0 ∧ regs.forwarded.word Reg.a1 = regs.word Reg.v1 ∧
      regs.forwarded.single Reg.f12 = regs.single Reg.f0 := by
  have first : regs.forwarded.rawGpr Reg.a0 = regs.rawGpr Reg.v0 := regs.raw_storeAll _ (.gpr Reg.a0)
  have second : regs.forwarded.rawGpr Reg.a1 = regs.rawGpr Reg.v1 := regs.raw_storeAll _ (.gpr Reg.a1)
  have float : regs.forwarded.rawFpr Reg.f12 = regs.rawFpr Reg.f0 := regs.raw_storeAll _ (.fpr Reg.f12)
  refine ⟨?_, ?_, ?_⟩
  · rw [word_of_ne_zero _ (by decide), word_of_ne_zero _ (by decide), first]
  · rw [word_of_ne_zero _ (by decide), word_of_ne_zero _ (by decide), second]
  · rw [single, single, float]

theorem join_store (v : UInt64) :
    (v >>> 32).toUInt32.toNat * 0x100000000 + v.toUInt32.toNat = v.toNat := by
  have joined := congrArg UInt64.toNat (O32.join_words v)
  have high := (v >>> 32).toUInt32.toNat_lt
  have low := v.toUInt32.toNat_lt
  rw [UInt64.toNat_ofNat'] at joined
  omega

theorem shownBy_store (regs : Registers) (v : ReturnValue) : v.ShownBy (regs.store v) := by
  have first : Reg.v0 ≠ Reg.zero := by decide
  have second : Reg.v1 ≠ Reg.zero := by decide
  have apart : Reg.v0 ≠ Reg.v1 := by decide
  cases v with
  | unit => trivial
  | u32 v => exact congrArg UInt32.toNat (regs.word_setWord_same first v)
  | i32 v =>
      have word : (regs.store (.i32 v)).word Reg.v0 = v.toUInt32 := regs.word_setWord_same first _
      rw [ReturnValue.ShownBy, word]
      exact (BitVec.toInt_eq_toNat_bmod v.toBitVec).symm
  | u64 v =>
      rw [ReturnValue.ShownBy, store, word_setWord_other _ apart, word_setWord_same _ first,
        word_setWord_same _ second]
      exact join_store v
  | f32 v => exact regs.single_setSingle_same Reg.f0 v
  | ptr v => exact regs.word_setWord_same first v.address

theorem raw_store_other (regs : Registers) {v : ReturnValue} {f : Field} (other : f ∉ v.carriers) :
    (regs.store v).raw f = regs.raw f := by
  rw [store_eq_storeAll, raw_storeAll]
  apply lastStored_of_not_mem
  intro value stored
  apply other
  rw [← v.map_fst_stores]
  exact List.mem_map_of_mem stored

def firstFetch (regs : Registers) : (k : Fetch) → k.Value
  | .word => regs.word Reg.a0
  | .doubleWord => O32.joinWords (regs.word Reg.a0) (regs.word Reg.a1)
  | .single => regs.single Reg.f12

theorem decode_of_first {regs : Registers} {t : ArgType} {v : t.Value}
    (fetched : regs.firstFetch t.fetch = t.represent v) (memory : Memory) :
    O32.decode regs memory [t] = .ok (.cons v .nil) := by
  have found : O32.decode regs memory [t]
      = .ok (.cons (t.interpret (regs.firstFetch t.fetch)) .nil) := by
    cases t <;> rfl
  rw [found, fetched, t.interpret_represent]

theorem decode_forwarded (regs : Registers) (v : ReturnValue) (memory : Memory) :
    O32.decode (regs.store v).forwarded memory v.types = .ok v.arguments := by
  have shown := regs.shownBy_store v
  have held (word : UInt32) : (regs.setWord Reg.v0 word).forwarded.word Reg.a0 = word := by
    rw [(word_forwarded _).1]
    exact regs.word_setWord_same (by decide) word
  cases v with
  | unit => rfl
  | u32 v => exact decode_of_first (t := .u32) (held v) memory
  | i32 v => exact decode_of_first (t := .i32) (held v.toUInt32) memory
  | u64 v =>
      have joined : (regs.store (.u64 v)).forwarded.firstFetch .doubleWord = v := by
        rw [firstFetch, O32.joinWords_eq, (word_forwarded _).1, (word_forwarded _).2.1, shown,
          UInt64.ofNat_toNat]
      exact decode_of_first (t := .u64) joined memory
  | f32 v =>
      have kept : (regs.store (.f32 v)).forwarded.firstFetch .single = v := by
        rw [firstFetch, (word_forwarded _).2.2, shown]
      exact decode_of_first (t := .f32) kept memory
  | ptr v => exact decode_of_first (t := .ptr) (held v.address) memory

end Registers

end CallGate
