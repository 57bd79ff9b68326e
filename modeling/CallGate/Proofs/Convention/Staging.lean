import CallGate.Machine
import CallGate.Proofs.Convention.Places
import CallGate.Proofs.Memory.Edits

/-! A caller that stages an argument list and a callee that decodes it.

The words of a list may be put in their places in any order: the places are apart, so each word is still
held when the last one has been put (`stage_holds`). A cursor then finds at every slot the word that
was staged for it (`decode_step`). -/

namespace CallGate.O32

open Place

namespace Place

def put (p : Place) (word : UInt32) (m : Machine) : Except Fault Machine :=
  match p with
  | integer n => .ok { m with registers := m.registers.setWord (Reg.argument n) word }
  | float n => .ok { m with registers := m.registers.setSingle (Reg.floatArgument n) ⟨word⟩ }
  | frame slot =>
    match m.memory.writeWord (frameAddress m.registers slot) word with
    | .ok memory => .ok { m with memory }
    | .error fault => .error fault

def held (m : Machine) : Place → Except Fault UInt32
  | integer n => .ok (m.registers.word (Reg.argument n))
  | float n => .ok (m.registers.single (Reg.floatArgument n)).bits
  | frame slot => m.memory.readWord (frameAddress m.registers slot)

def Within (m : Machine) : Place → Prop
  | frame slot => m.memory.Contains (frameAddress m.registers slot) 4
  | _ => True

instance (m : Machine) : DecidablePred (Within m)
  | integer _ => inferInstanceAs (Decidable True)
  | float _ => inferInstanceAs (Decidable True)
  | frame _ => inferInstanceAs (Decidable (Memory.Contains _ _ _))

end Place

def stage : List (Place × UInt32) → Machine → Except Fault Machine
  | [], m => .ok m
  | (p, word) :: rest, m =>
    match p.put word m with
    | .ok m => stage rest m
    | .error fault => .error fault

def words : (k : Fetch) → k.Value → List UInt32
  | .word, w => [w]
  | .doubleWord, v => [(v >>> 32).toUInt32, v.toUInt32]
  | .single, v => [v.bits]

/-- Which word goes where, for arguments behind the arguments `before`, whose slots end at `stop`. -/
def staging (before : List Fetch) (stop : Nat) :
    {ts : List ArgType} → Arguments ts → List (Place × UInt32)
  | [], .nil => []
  | t :: _, .cons v rest =>
    (places before stop t.fetch).zip (words t.fetch (t.represent v)) ++
      staging (before ++ [t.fetch]) (t.fetch.start stop + t.fetch.slots) rest

variable {m after : Machine}

theorem frameAddress_congr {regs regs' : Registers} (same : regs'.word Reg.sp = regs.word Reg.sp)
    (n : Nat) : frameAddress regs' n = frameAddress regs n := by
  rw [← frameAddress_eq, ← frameAddress_eq, same]

/-- What staging leaves alone: where the frame is and what of it lies in the image. -/
structure SameFrame (m after : Machine) : Prop where
  address : ∀ n, frameAddress after.registers n = frameAddress m.registers n
  base : after.memory.base = m.memory.base
  size : after.memory.size = m.memory.size

theorem SameFrame.within (same : SameFrame m after) (p : Place) : p.Within after ↔ p.Within m := by
  cases p with
  | integer n => exact Iff.rfl
  | float n => exact Iff.rfl
  | frame slot =>
      simp only [Within, same.address]
      exact Memory.contains_congr same.base same.size

theorem put_holds {p : Place} (within : p.Within m) (small : p.slot < slotLimit) (word : UInt32) :
    ∃ after, p.put word m = .ok after ∧ SameFrame m after ∧ p.held after = .ok word ∧
      ∀ q : Place, q.slot < slotLimit → q.slot ≠ p.slot → q.held after = q.held m := by
  cases p with
  | integer n =>
      have stack := m.registers.word_setWord_other (Registers.argument_ne_sp n).symm word
      refine ⟨_, rfl, ⟨frameAddress_congr stack, rfl, rfl⟩, ?_, ?_⟩
      · exact congrArg Except.ok (Registers.word_setWord_same _ (Registers.argument_ne_zero n) _)
      · intro q _ other
        cases q with
        | integer n' =>
            have different : Reg.argument n' ≠ Reg.argument n := by
              intro same
              exact other (congrArg Fin.val (Registers.argument_inj same))
            simp only [held, Registers.word_setWord_other _ different]
        | float n' => simp only [held, Registers.single_setWord]
        | frame slot => simp only [held, frameAddress_congr stack]
  | float n =>
      have stack := m.registers.word_setSingle (Reg.floatArgument n) Reg.sp ⟨word⟩
      refine ⟨_, rfl, ⟨frameAddress_congr stack, rfl, rfl⟩, ?_, ?_⟩
      · simp only [held, Registers.single_setSingle_same]
      · intro q _ other
        cases q with
        | integer n' => rfl
        | float n' =>
            have different : Reg.floatArgument n' ≠ Reg.floatArgument n := by
              intro same
              exact other (congrArg Fin.val (Registers.floatArgument_inj same))
            simp only [held, Registers.single_setSingle_other _ different]
        | frame slot => rfl
  | frame slot =>
      let e : Edit := .typed .u32 (frameAddress m.registers slot) word
      have inside : m.memory.Contains e.address e.length := within
      obtain ⟨memory, done, base, size, -⟩ := Edit.attempt_of_contains inside
      have written : Edit.apply m.memory e = memory := by simp only [Edit.apply, done]
      have put : (frame slot).put word m = .ok { m with memory } := by
        change (match e.attempt m.memory with
          | .ok memory => Except.ok { m with memory }
          | .error fault => .error fault) = _
        rw [done]
      refine ⟨_, put, ⟨fun _ => rfl, base, size⟩, ?_, ?_⟩
      · rw [← written]
        exact Edit.read_apply_typed (t := .u32) inside word
      · intro q below other
        cases q with
        | integer n => rfl
        | float n => rfl
        | frame slot' =>
            rw [← written]
            exact Edit.read_apply_apart (t := .u32)
              (frameAddress_apart m.registers other.symm small below)

theorem stage_holds (order : List (Place × UInt32)) (within : ∀ w ∈ order, w.1.Within m)
    (small : ∀ w ∈ order, w.1.slot < slotLimit)
    (apart : order.Pairwise fun w w' => w.1.slot ≠ w'.1.slot) :
    ∃ after, stage order m = .ok after ∧ (∀ w ∈ order, w.1.held after = .ok w.2) ∧
      ∀ q : Place, q.slot < slotLimit → (∀ w ∈ order, w.1.slot ≠ q.slot) →
        q.held after = q.held m := by
  induction order generalizing m with
  | nil => exact ⟨m, rfl, by simp, fun _ _ _ => rfl⟩
  | cons w order ih =>
      obtain ⟨p, word⟩ := w
      rw [List.forall_mem_cons] at within small
      rw [List.pairwise_cons] at apart
      obtain ⟨first, put, same, holds, kept⟩ := put_holds within.1 small.1 word
      obtain ⟨after, staged, rest, others⟩ :=
        ih (fun w member => (same.within w.1).mpr (within.2 w member)) small.2 apart.2
      refine ⟨after, ?_, ?_, ?_⟩
      · rw [stage, put]
        exact staged
      · rw [List.forall_mem_cons]
        refine ⟨?_, rest⟩
        -- the words put later are in other slots, so the first one is still held
        rw [others p small.1 fun w member => (apart.1 w member).symm]
        exact holds
      · intro q below different
        rw [List.forall_mem_cons] at different
        rw [others q below different.2]
        exact kept q below different.1.symm

theorem held_ofSlot (m : Machine) (n : Nat) :
    (ofSlot n).held m = areaWord m.registers m.memory n := by
  rw [← slotWord_eq]
  unfold ofSlot slotWord
  split
  · rfl
  · rw [frameAddress_eq]
    rfl

theorem join_words (v : UInt64) :
    UInt64.ofNat ((v >>> 32).toUInt32.toNat * 0x100000000 + v.toUInt32.toNat) = v := by
  rw [← UInt64.toNat_inj]
  have small := v.toNat_lt
  simp [Nat.shiftRight_eq_div_pow]
  omega

variable {before : List Fetch} {stop : Nat}

theorem argumentAt_of_held (k : Fetch) (v : k.Value)
    (holds : ∀ w ∈ (places before stop k).zip (words k v), w.1.held m = .ok w.2) :
    argumentAt m.registers m.memory before (k.start stop) k = .ok v ∧
      extent m.registers m.memory (k.start stop) k = k.slots := by
  cases k with
  | word =>
      have held := holds (ofSlot (Fetch.word.start stop), v) (List.mem_singleton_self _)
      rw [held_ofSlot] at held
      exact ⟨held, rfl⟩
  | doubleWord =>
      have high := holds (ofSlot (Fetch.doubleWord.start stop), (v >>> 32).toUInt32)
        (List.mem_cons_self ..)
      have low := holds (ofSlot (Fetch.doubleWord.start stop + 1), v.toUInt32)
        (List.mem_cons_of_mem _ (List.mem_singleton_self _))
      rw [held_ofSlot] at high low
      simp only [argumentAt, extent, high, low, join_words, and_self]
  | single =>
      by_cases leading : Leading before
      · have held := holds (float ⟨before.length, leading.length_lt⟩, v.bits) (by
          simp only [places, dif_pos leading, words]
          exact List.mem_singleton_self _)
        simp only [argumentAt, dif_pos leading]
        exact ⟨congrArg (Except.map Single.mk) held, rfl⟩
      · have held := holds (ofSlot (Fetch.single.start stop), v.bits) (by
          simp only [places, dif_neg leading, words]
          exact List.mem_singleton_self _)
        rw [held_ofSlot] at held
        simp only [argumentAt, dif_neg leading, held]
        exact ⟨rfl, rfl⟩

theorem decode_step {p : Position} (stands : Stands before stop p) (t : ArgType) (v : t.Value)
    (holds : ∀ w ∈ (places before stop t.fetch).zip (words t.fetch (t.represent v)),
      w.1.held m = .ok w.2) :
    ∃ next, (cursor m.registers m.memory).decode t p = (.ok v, next) ∧
      Stands (before ++ [t.fetch]) (t.fetch.start stop + t.fetch.slots) next := by
  obtain ⟨start, least, answer, stands'⟩ := stands_step m.registers m.memory stands t.fetch
  obtain rfl := least.unique (t.fetch.start_least stop)
  obtain ⟨found, used⟩ := argumentAt_of_held t.fetch (t.represent v) holds
  rw [used] at stands'
  refine ⟨_, ?_, stands'⟩
  simp only [Cursor.decode, answer, found, Except.map, t.interpret_represent]

theorem decode_of_held {ts : List ArgType} (args : Arguments ts) {p : Position}
    (stands : Stands before stop p) (holds : ∀ w ∈ staging before stop args, w.1.held m = .ok w.2) :
    ((cursor m.registers m.memory).decodeAll ts p).1 = .ok args ∧
      ((cursor m.registers m.memory).decodeEach ts p).1 = args.toList.map .ok := by
  induction args generalizing before stop p with
  | nil => exact ⟨rfl, rfl⟩
  | @cons t ts v rest ih =>
      rw [staging, List.forall_mem_append] at holds
      obtain ⟨next, decoded, stands'⟩ := decode_step stands t v holds.1
      obtain ⟨whole, each⟩ := ih stands' holds.2
      simp only [Cursor.decodeAll, Cursor.decodeEach, decoded, Arguments.toList, List.map_cons]
      rw [whole, each]
      exact ⟨rfl, rfl⟩

theorem length_words (before : List Fetch) (stop : Nat) (k : Fetch) (v : k.Value) :
    (words k v).length = (places before stop k).length := by
  cases k with
  | word => rfl
  | doubleWord => rfl
  | single =>
      by_cases leading : Leading before
      · simp only [places, dif_pos leading, words, List.length_singleton]
      · simp only [places, dif_neg leading, words, List.length_singleton]

theorem map_fst_staging {ts : List ArgType} (args : Arguments ts) (before : List Fetch) (stop : Nat) :
    (staging before stop args).map Prod.fst = (layout before stop (ts.map ArgType.fetch)).flatten := by
  induction args generalizing before stop with
  | nil => rfl
  | @cons t ts v rest ih =>
      have paired : ((places before stop t.fetch).zip (words t.fetch (t.represent v))).map Prod.fst
          = places before stop t.fetch :=
        List.map_fst_zip (Nat.le_of_eq (length_words ..).symm)
      simp only [staging, List.map_append, paired, ih, List.map_cons, layout, List.flatten_cons]

/-- The arguments of a call decode to the values that its caller staged, bit for bit and without a
fault, for lists of any length and whatever registers and memory held before. The words may be staged
in any order, as long as those on the stack lie in the image and the frame stays below the limit. No two
words share a register or a byte of the stack, and the words of one value are in registers both or on
the stack both. -/
theorem decode_staged {ts : List ArgType} (args : Arguments ts) (m : Machine)
    (few : slotsEnd 0 (ts.map ArgType.fetch) ≤ slotLimit)
    (inside : ∀ p ∈ (layout [] 0 (ts.map ArgType.fetch)).flatten, p.Within m)
    (order : List (Place × UInt32)) (shuffled : order.Perm (staging [] 0 args)) :
    (∃ after, stage order m = .ok after ∧
      decode after.registers after.memory ts = .ok args ∧
      ((cursor after.registers after.memory).decodeEach ts {}).1 = args.toList.map .ok) ∧
    ((layout [] 0 (ts.map ArgType.fetch)).flatten.flatMap (cells m.registers)).Nodup ∧
    ∀ ps ∈ layout [] 0 (ts.map ArgType.fetch),
      (∀ p ∈ ps, p.OnStack) ∨ (∀ p ∈ ps, ¬ p.OnStack) := by
  refine ⟨?_, nodup_cells m.registers _ few, layout_together [] 0 _⟩
  have counted : Leading [] → 0 = ([] : List Fetch).length := fun _ => rfl
  obtain ⟨ascending, bounds⟩ := slots_layout counted (ts.map ArgType.fetch)
  have listed : ∀ w ∈ order, w.1 ∈ (layout [] 0 (ts.map ArgType.fetch)).flatten := by
    intro w member
    rw [← map_fst_staging args]
    exact List.mem_map_of_mem (shuffled.mem_iff.mp member)
  have apart : order.Pairwise fun w w' => w.1.slot ≠ w'.1.slot := by
    rw [shuffled.pairwise_iff Ne.symm]
    rw [← map_fst_staging args, List.map_map, List.pairwise_map] at ascending
    exact ascending.imp Nat.ne_of_lt
  obtain ⟨after, staged, holds, -⟩ := stage_holds order
    (fun w member => inside w.1 (listed w member))
    (fun w member => Nat.lt_of_lt_of_le (bounds w.1 (listed w member)).2 few) apart
  have decoded := decode_of_held args stands_start
    fun w member => holds w (shuffled.mem_iff.mpr member)
  exact ⟨after, staged, decoded⟩

/-- A frame that wraps around: slot 4 is the word at address zero. -/
def wrappedFrame : Machine where
  registers := ({} : Registers).setWord Reg.sp 0xfffffff0
  memory := Memory.ofImage 0 ⟨Array.replicate 16 0⟩

/-- A float register, padding, a pair of integer registers, two words and a pair on the stack. -/
def mixedArguments : Arguments [.f32, .u64, .i32, .f32, .i64] :=
  .cons ⟨0x7fc00001⟩ (.cons 0x123456789abcdef0 (.cons (-1) (.cons ⟨0x80000000⟩ (.cons (-2) .nil))))

theorem decode_staged_wrappedFrame :
    slotsEnd 0 [.single, .doubleWord, .word, .single, .doubleWord] ≤ slotLimit ∧
    (∀ p ∈ (layout [] 0 [.single, .doubleWord, .word, .single, .doubleWord]).flatten,
      p.Within wrappedFrame) ∧
    (staging [] 0 mixedArguments).reverse.Perm (staging [] 0 mixedArguments) ∧
    ∃ after, stage (staging [] 0 mixedArguments).reverse wrappedFrame = .ok after ∧
      decode after.registers after.memory [.f32, .u64, .i32, .f32, .i64] = .ok mixedArguments := by
  have few : slotsEnd 0 [.single, .doubleWord, .word, .single, .doubleWord] ≤ slotLimit := by
    decide
  have inside : ∀ p ∈ (layout [] 0 [.single, .doubleWord, .word, .single, .doubleWord]).flatten,
      p.Within wrappedFrame := by decide
  have shuffled := List.reverse_perm (staging [] 0 mixedArguments)
  obtain ⟨⟨after, staged, decoded, -⟩, -⟩ :=
    decode_staged mixedArguments wrappedFrame few inside _ shuffled
  exact ⟨few, inside, shuffled, after, staged, decoded⟩

end CallGate.O32
