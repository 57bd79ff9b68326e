import CallGate.Proofs.Calls.Effect
import CallGate.Proofs.Memory.Equality

/-! The camera axes in guest memory, wherever their two pointers go.

The words may be one, overlap or lie apart. The second axis is stored on top of the first one, so it is read
back whole in any case and the first one only where the words are apart. A second poll of the same axes
finds the image as it would leave it. -/

namespace CallGate

def Memory.InWord (m : Memory) (p : UInt32) (i : Nat) : Prop :=
  p.toNat ≤ m.base.toNat + i ∧ m.base.toNat + i < p.toNat + 4

instance (m : Memory) (p : UInt32) (i : Nat) : Decidable (m.InWord p i) :=
  inferInstanceAs (Decidable (_ ∧ _))

/-- The bytes of an image with the first axis at `p` and the second one at `q`, on top. -/
def Memory.overlaid (m : Memory) (p q : UInt32) (axes : Axes) (i : Nat) : UInt8 :=
  if m.InWord q i then Scalar.f32.byteAt axes.y (m.base.toNat + i - q.toNat)
  else if m.InWord p i then Scalar.f32.byteAt axes.x (m.base.toNat + i - p.toNat)
  else m.byte i

theorem Memory.inWord_congr {m after : Memory} (base : after.base = m.base) (p : UInt32) (i : Nat) :
    after.InWord p i ↔ m.InWord p i := by
  simp only [InWord, base]

theorem Memory.overlaid_again {m after : Memory} {p q : UInt32} {axes : Axes} {i : Nat}
    (base : after.base = m.base) (shown : after.byte i = m.overlaid p q axes i) :
    after.overlaid p q axes i = after.byte i := by
  simp only [overlaid, inWord_congr base, base] at shown ⊢
  split
  · next within => rw [shown, if_pos within]
  · next missed =>
    split
    · next within => rw [shown, if_neg missed, if_pos within]
    · rfl

namespace Edit

variable {m : Memory}

theorem byte_apply_axis {p : UInt32} (inside : m.Contains p 4) (v : Single) (i : Nat) :
    (apply m (.typed .f32 p v)).byte i =
      if m.InWord p i then Scalar.f32.byteAt v (m.base.toNat + i - p.toNat) else m.byte i := by
  have above := inside.1
  have covers : (Edit.typed .f32 p v).Covers m i ↔ m.InWord p i := by
    change m.Contains p 4 ∧ m.offset p ≤ i ∧ i < m.offset p + 4 ↔ _
    simp only [inside, true_and, Memory.offset, Memory.InWord]
    omega
  have place : i - m.offset p = m.base.toNat + i - p.toNat := by
    simp only [Memory.offset]
    omega
  simp only [byte_apply, covers]
  rw [← place]
  rfl

theorem byte_run_axes {p q : UInt32} (first : m.Contains p 4) (second : m.Contains q 4) (axes : Axes)
    (i : Nat) :
    (run m [.typed .f32 p axes.x, .typed .f32 q axes.y]).byte i = m.overlaid p q axes i := by
  have reached : (apply m (.typed .f32 p axes.x)).Contains q 4 := (apply_contains ..).mpr second
  have base := (apply_bounds m (.typed .f32 p axes.x)).1
  rw [run_cons, run_cons, run_nil, byte_apply_axis reached, byte_apply_axis first]
  simp only [Memory.inWord_congr base, base, Memory.overlaid]

theorem run_axes_again {p q : UInt32} (first : m.Contains p 4) (second : m.Contains q 4) (axes : Axes) :
    run (run m [.typed .f32 p axes.x, .typed .f32 q axes.y])
        [.typed .f32 p axes.x, .typed .f32 q axes.y]
      = run m [.typed .f32 p axes.x, .typed .f32 q axes.y] := by
  apply run_unchanged
  intro i
  rw [byte_run_axes ((run_contains ..).mpr first) ((run_contains ..).mpr second)]
  exact Memory.overlaid_again (run_bounds ..).1 (byte_run_axes first second axes i)

end Edit

namespace Capability

theorem handle_cameraInputs_of_contains {m : Machine} (first : m.memory.Contains m.firstWord 4)
    (second : m.memory.Contains m.secondWord 4) (host : Host) :
    cameraInputs.handle host m = (.ok (),
      { m with
        memory := Edit.run m.memory
          [.typed .f32 m.firstWord (m.services.cameraInputs host).1.x,
            .typed .f32 m.secondWord (m.services.cameraInputs host).1.y]
        services := (m.services.cameraInputs host).2 }) := by
  have sound : cameraInputs.fault? m.memory m.firstWord m.secondWord = none := by
    simp only [fault?, if_pos first, if_pos second]
  rw [handle_eq, sound, edits, if_pos first]
  rfl

/-- A camera poll whose two words lie in the image, equal, overlapping or apart, puts the second axis over
the first one and both over the bytes that were there. So the second axis is read back whole, and the first
one where the words are apart. A poll that finds this memory with the same registers and is told the same
axes leaves it as it is. -/
theorem cameraInputs_overlays (host : Host) (m : Machine) (first : m.memory.Contains m.firstWord 4)
    (second : m.memory.Contains m.secondWord 4) :
    ∃ memory, cameraInputs.handle host m
        = (.ok (), { m with memory, services := (m.services.cameraInputs host).2 }) ∧
      memory.base = m.memory.base ∧ memory.size = m.memory.size ∧
      (∀ i, memory.byte i =
        m.memory.overlaid m.firstWord m.secondWord (m.services.cameraInputs host).1 i) ∧
      memory.read .f32 m.secondWord = .ok (m.services.cameraInputs host).1.y ∧
      (Memory.Apart m.firstWord 4 m.secondWord 4 →
        memory.read .f32 m.firstWord = .ok (m.services.cameraInputs host).1.x) ∧
      ∀ (other : Host) (again : Machine), again.registers = m.registers → again.memory = memory →
        (again.services.cameraInputs other).1 = (m.services.cameraInputs host).1 →
        cameraInputs.handle other again
          = (.ok (), { again with services := (again.services.cameraInputs other).2 }) := by
  let axes := (m.services.cameraInputs host).1
  let half := Edit.apply m.memory (.typed .f32 m.firstWord axes.x)
  let whole := Edit.run m.memory [.typed .f32 m.firstWord axes.x, .typed .f32 m.secondWord axes.y]
  have bounds : whole.base = m.memory.base ∧ whole.size = m.memory.size := Edit.run_bounds ..
  have reached : half.Contains m.secondWord 4 := (Edit.apply_contains ..).mpr second
  refine ⟨whole, handle_cameraInputs_of_contains first second host, bounds.1, bounds.2,
    Edit.byte_run_axes first second axes, Edit.read_apply_typed (t := .f32) reached axes.y, ?_, ?_⟩
  · intro apart
    calc
      whole.read .f32 m.firstWord = half.read .f32 m.firstWord :=
        Edit.read_apply_apart (t := .f32) apart.symm
      _ = .ok axes.x := Edit.read_apply_typed (t := .f32) first axes.x
  · intro other again registers memory told
    have firstWord : again.firstWord = m.firstWord := by rw [Machine.firstWord, registers]; rfl
    have secondWord : again.secondWord = m.secondWord := by rw [Machine.secondWord, registers]; rfl
    have sound : again.memory.Contains again.firstWord 4 := by
      rw [memory, firstWord]
      exact (Edit.run_contains ..).mpr first
    have sound' : again.memory.Contains again.secondWord 4 := by
      rw [memory, secondWord]
      exact (Edit.run_contains ..).mpr second
    have kept := Edit.run_axes_again first second axes
    rw [handle_cameraInputs_of_contains sound sound', told, firstWord, secondWord, memory, kept]

/-- Eight bytes of main memory, two pointers, and a device that reports a NaN with a payload and a negative
zero. -/
def axesAt (p q : UInt32) : Machine where
  registers := (({} : Registers).setWord Reg.a0 p).setWord Reg.a1 q
  memory := Memory.ofImage 0x80000000 ⟨Array.replicate 8 0xee⟩
  services :=
    { inputs := ⟨#[.device (Device.constant 0 ⟨⟨0x7fc00001⟩, ⟨0x80000000⟩⟩) 0]⟩ }

theorem cameraInputs_overlays_shared :
    ((axesAt 0x80000001 0x80000003).memory.Contains 0x80000001 4 ∧
      (axesAt 0x80000001 0x80000003).memory.Contains 0x80000003 4 ∧
      Memory.Apart 0x80000004 4 0x80000000 4) ∧
    (∃ after, cameraInputs.handle Host.standard (axesAt 0x80000001 0x80000003) = (.ok (), after) ∧
      (List.range 8).map after.memory.byte = [0xee, 0x7f, 0xc0, 0x80, 0, 0, 0, 0xee] ∧
      after.memory.read .f32 0x80000003 = .ok ⟨0x80000000⟩ ∧
      cameraInputs.handle Host.standard after
        = (.ok (), { after with services := (after.services.cameraInputs Host.standard).2 })) ∧
    ∃ after, cameraInputs.handle Host.standard (axesAt 0x80000004 0x80000000) = (.ok (), after) ∧
      after.memory.read .f32 0x80000004 = .ok ⟨0x7fc00001⟩ := by
  have first : (axesAt 0x80000001 0x80000003).memory.Contains 0x80000001 4 := by decide
  have second : (axesAt 0x80000001 0x80000003).memory.Contains 0x80000003 4 := by decide
  have apart : Memory.Apart 0x80000004 4 0x80000000 4 := by decide
  refine ⟨⟨first, second, apart⟩, ?_, ?_⟩
  · obtain ⟨memory, done, -, -, bytes, held, -, again⟩ :=
      cameraInputs_overlays Host.standard (axesAt 0x80000001 0x80000003) first second
    refine ⟨_, done, ?_, held, again Host.standard _ rfl rfl rfl⟩
    change (List.range 8).map memory.byte = _
    rw [funext bytes]
    decide
  · obtain ⟨memory, done, -, -, -, -, held, -⟩ :=
      cameraInputs_overlays Host.standard (axesAt 0x80000004 0x80000000) (by decide) (by decide)
    exact ⟨_, done, held apart⟩

end Capability

end CallGate
