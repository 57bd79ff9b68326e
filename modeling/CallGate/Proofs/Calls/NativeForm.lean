import CallGate.Proofs.Calls.Effect

/-! A guest call against the native form of its capability.

Where the pointers of a call are in bounds, guest memory ends up with what the native form hands out,
and the services end up as the native form leaves them: the same polls, writes and messages in the same
order. -/

namespace CallGate.Capability

variable {m : Machine}

theorem itemInputs_agrees (inside : m.memory.Contains m.firstWord 4) (host : Host) :
    ∃ after, itemInputs.handle host m = (.ok (), after) ∧
      after.memory.readWord m.firstWord = .ok (m.services.itemInputs host).1 ∧
      after.services = (m.services.itemInputs host).2 := by
  have sound : itemInputs.fault? m.memory m.firstWord m.secondWord = none := if_pos inside
  rw [handle_eq, sound]
  exact ⟨_, rfl, Edit.read_apply_typed (t := .u32) inside _, rfl⟩

theorem cameraInputs_agrees (first : m.memory.Contains m.firstWord 4)
    (second : m.memory.Contains m.secondWord 4)
    (apart : Memory.Apart m.firstWord 4 m.secondWord 4) (host : Host) :
    ∃ after, cameraInputs.handle host m = (.ok (), after) ∧
      after.memory.readWord m.firstWord = .ok (m.services.cameraInputs host).1.x.bits ∧
      after.memory.readWord m.secondWord = .ok (m.services.cameraInputs host).1.y.bits ∧
      after.services = (m.services.cameraInputs host).2 := by
  have sound : cameraInputs.fault? m.memory m.firstWord m.secondWord = none := by
    simp only [fault?, if_pos first, if_pos second]
  let x := (m.services.cameraInputs host).1.x
  let y := (m.services.cameraInputs host).1.y
  let half := Edit.apply m.memory (.typed .f32 m.firstWord x)
  let whole := Edit.apply half (.typed .f32 m.secondWord y)
  have written : Edit.run m.memory (cameraInputs.edits host m) = whole := by
    rw [edits, if_pos first]
    rfl
  have reached : half.Contains m.secondWord 4 := (Edit.apply_contains _ _ _ _).mpr second
  have firstHeld : whole.read .f32 m.firstWord = .ok x := by
    calc
      whole.read .f32 m.firstWord = half.read .f32 m.firstWord :=
        Edit.read_apply_apart (t := .f32) apart.symm
      _ = .ok x := Edit.read_apply_typed (t := .f32) first x
  have secondHeld : whole.read .f32 m.secondWord = .ok y :=
    Edit.read_apply_typed (t := .f32) reached y
  rw [handle_eq, sound]
  refine ⟨_, rfl, ?_, ?_, rfl⟩
  · rw [written, Memory.readWord_eq_single, firstHeld]
    rfl
  · rw [written, Memory.readWord_eq_single, secondHeld]
    rfl

theorem puts_nothing (s : Services) (host : Host) : s.puts host ByteArray.empty 0 = s := rfl

theorem puts_agrees (inside : m.secondWord = 0 ∨ m.memory.Contains m.firstWord m.secondWord)
    (host : Host) :
    ∃ data : ByteArray,
      data.data.toList = m.memory.window (m.memory.offset m.firstWord) m.secondWord.toNat ∧
      puts.handle host m
        = (.ok (), { m with services := m.services.puts host data m.secondWord }) := by
  rw [handle_puts]
  by_cases empty : m.secondWord = 0
  · refine ⟨ByteArray.empty, ?_, ?_⟩
    · rw [empty]
      rfl
    · rw [if_pos empty, empty, puts_nothing]
  · have reached := inside.resolve_left empty
    obtain ⟨data, done, list⟩ := Memory.bytes_of_contains reached
    refine ⟨data, list, ?_⟩
    rw [if_neg empty, done]

/-- A handler agrees with the native form of its capability wherever its pointers are in bounds: it
returns, the words that it stores have the bits that the native form hands out, whatever was there
before, and the services end up as the native form leaves them. An empty text leaves everything
alone. -/
theorem handle_agrees (host : Host) (m : Machine) :
    (m.memory.Contains m.firstWord 4 →
      ∃ after, itemInputs.handle host m = (.ok (), after) ∧
        after.memory.readWord m.firstWord = .ok (m.services.itemInputs host).1 ∧
        after.services = (m.services.itemInputs host).2) ∧
    (m.memory.Contains m.firstWord 4 → m.memory.Contains m.secondWord 4 →
      Memory.Apart m.firstWord 4 m.secondWord 4 →
      ∃ after, cameraInputs.handle host m = (.ok (), after) ∧
        after.memory.readWord m.firstWord = .ok (m.services.cameraInputs host).1.x.bits ∧
        after.memory.readWord m.secondWord = .ok (m.services.cameraInputs host).1.y.bits ∧
        after.services = (m.services.cameraInputs host).2) ∧
    (m.secondWord = 0 ∨ m.memory.Contains m.firstWord m.secondWord →
      ∃ data : ByteArray,
        data.data.toList = m.memory.window (m.memory.offset m.firstWord) m.secondWord.toNat ∧
        puts.handle host m
          = (.ok (), { m with services := m.services.puts host data m.secondWord })) ∧
    (m.secondWord = 0 → puts.handle host m = (.ok (), m)) := by
  refine ⟨?_, ?_, ?_, ?_⟩
  · intro inside
    exact itemInputs_agrees inside host
  · intro first second apart
    exact cameraInputs_agrees first second apart host
  · intro inside
    exact puts_agrees inside host
  · intro empty
    rw [handle_puts, if_pos empty]

/-- Eight bytes at address zero, pointers to both words, and a device that reports a NaN with a payload
and a negative zero. -/
def twoWords : Machine where
  registers := ({} : Registers).setWord (Reg.argument 1) 4
  memory := Memory.ofImage 0 ⟨Array.replicate 8 0⟩
  services :=
    { inputs := ⟨#[.device (Device.constant 0x410 ⟨⟨0x7fc00001⟩, ⟨0x80000000⟩⟩) 0]⟩ }

theorem handle_agrees_twoWords :
    (twoWords.memory.Contains twoWords.firstWord 4 ∧
      twoWords.memory.Contains twoWords.secondWord 4 ∧
      Memory.Apart twoWords.firstWord 4 twoWords.secondWord 4 ∧
      twoWords.memory.Contains twoWords.firstWord twoWords.secondWord) ∧
    (∃ after, itemInputs.handle Host.standard twoWords = (.ok (), after) ∧
      after.memory.readWord twoWords.firstWord = .ok 0x410) ∧
    (∃ after, cameraInputs.handle Host.standard twoWords = (.ok (), after) ∧
      after.memory.readWord twoWords.firstWord = .ok 0x7fc00001 ∧
      after.memory.readWord twoWords.secondWord = .ok 0x80000000) ∧
    (∃ data : ByteArray, data.data.toList = [0, 0, 0, 0] ∧
      puts.handle Host.standard twoWords
        = (.ok (), { twoWords with services := twoWords.services.puts Host.standard data 4 })) ∧
    (Machine.mk {} twoWords.memory twoWords.services).secondWord = 0 ∧
    puts.handle Host.standard (Machine.mk {} twoWords.memory twoWords.services)
      = (.ok (), Machine.mk {} twoWords.memory twoWords.services) := by
  have first : twoWords.memory.Contains twoWords.firstWord 4 := by decide
  have second : twoWords.memory.Contains twoWords.secondWord 4 := by decide
  have apart : Memory.Apart twoWords.firstWord 4 twoWords.secondWord 4 := by decide
  have text : twoWords.memory.Contains twoWords.firstWord twoWords.secondWord := by decide
  have empty : (Machine.mk {} twoWords.memory twoWords.services).secondWord = 0 := by decide
  obtain ⟨items, camera, texts, -⟩ := handle_agrees Host.standard twoWords
  obtain ⟨-, -, -, nothing⟩ :=
    handle_agrees Host.standard (Machine.mk {} twoWords.memory twoWords.services)
  refine ⟨⟨first, second, apart, text⟩, ?_, ?_, texts (.inr text), empty, nothing empty⟩
  · obtain ⟨after, done, held, -⟩ := items first
    exact ⟨after, done, held⟩
  · obtain ⟨after, done, x, y, -⟩ := camera first second apart
    exact ⟨after, done, x, y⟩

end CallGate.Capability
