import CallGate.Proofs.Memory.Bounds
import CallGate.Proofs.Memory.Reserve
import CallGate.Proofs.Session.Guest

/-! A reserved image over a whole session.

As long as a session keeps its image, all it does to it is edits (`edited_run`). Edits move neither end of
an image and reach nothing behind it. So the check made once, when the image was reserved, bounds every
access from then on: none wraps around the address space or reaches the slack of the last page. -/

namespace CallGate

namespace Edit

theorem run_append (m : Memory) (first later : List Edit) :
    run m (first ++ later) = run (run m first) later := List.foldl_append

theorem byte_run_slack (m : Memory) (edits : List Edit) {i : Nat} (behind : m.size ≤ i) :
    (run m edits).byte i = m.byte i := by
  rcases byte_run_cases m edits i with kept | ⟨e, -, covers⟩
  · exact kept
  · have room := covers.1.2
    have reached := covers.2.2
    omega

end Edit

namespace Session

def MemoryStep.range? : MemoryStep → Option (UInt32 × UInt32)
  | .bytes address length => some (address, length)
  | .byteCount address length => some (address, length)
  | .text p length => some (p.address, length)
  | .overwrite address data => some (address, UInt32.ofNat data.size)
  | .fill address length _ => some (address, length)
  | .readWord address => some (address, 4)
  | .writeWord address _ => some (address, 4)
  | .read t address => some (address, t.length)
  | .write t address _ => some (address, t.length)
  | .reserve _ _ _ => none
  | .reserveKseg0 => none
  | .attach _ _ => none

variable {s : Session}

/-- A step that goes to memory is answered if its range lies in the image. If not, it is refused with that
range, and nothing has changed. -/
def Exact (s : Session) (x : MemoryStep) (address length : UInt32) : Prop :=
  if s.memory.Contains address length then (s.memoryStep x).1.isOk = true
  else s.memoryStep x = (.error (.fault (.outOfBounds address length)), s)

theorem exact_written {x : MemoryStep} {e : Edit} {reply : Reply}
    (writes : s.memoryStep x = s.answerWritten (e.attempt s.memory) reply) :
    s.Exact x e.address e.length := by
  unfold Exact
  rw [writes]
  split
  · next inside =>
    obtain ⟨after, done, -⟩ := Edit.attempt_of_contains inside
    rw [done]
    rfl
  · next outside =>
    rw [Edit.attempt_of_outside outside]
    rfl

theorem exact_found {x : MemoryStep} {address length : UInt32} {α : Type}
    {found : Except Fault α} {reply : α → Reply}
    (reads : s.memoryStep x = s.answerFound (found.map reply))
    (opens : s.memory.Contains address length → ∃ a, found = .ok a)
    (refuses : ¬ s.memory.Contains address length → found = .error (.outOfBounds address length)) :
    s.Exact x address length := by
  unfold Exact
  rw [reads]
  split
  · next inside =>
    obtain ⟨a, done⟩ := opens inside
    rw [done]
    rfl
  · next outside =>
    rw [refuses outside]
    rfl

theorem exact_bytes {x : MemoryStep} {address length : UInt32} {reply : ByteArray → Reply}
    (reads : s.memoryStep x = s.answerFound ((s.memory.bytes address length).map reply)) :
    s.Exact x address length := by
  apply exact_found reads
  · intro inside
    obtain ⟨found, done, -⟩ := Memory.bytes_of_contains inside
    exact ⟨found, done⟩
  · exact Memory.bytes_of_outside

theorem exact_read {x : MemoryStep} {t : Scalar} {address : UInt32} {reply : t.Value → Reply}
    (reads : s.memoryStep x = s.answerFound ((s.memory.read t address).map reply)) :
    s.Exact x address t.length := by
  apply exact_found reads
  · intro inside
    exact ⟨_, Memory.read_of_contains inside⟩
  · exact Memory.read_of_outside

theorem exact_memoryStep {x : MemoryStep} {address length : UInt32}
    (goes : x.range? = some (address, length)) : s.Exact x address length := by
  cases x with
  | bytes | byteCount | text =>
      cases goes
      exact exact_bytes rfl
  | overwrite _ data =>
      cases goes
      exact exact_written (e := .raw address (UInt32.ofNat data.size) fun i => data[i]!) rfl
  | fill _ _ b =>
      cases goes
      exact exact_written (e := .raw address length fun _ => b) rfl
  | readWord =>
      cases goes
      exact exact_read (t := .u32) rfl
  | writeWord _ value =>
      cases goes
      exact exact_written (e := .word address value) rfl
  | read =>
      cases goes
      exact exact_read rfl
  | write t _ value =>
      cases goes
      exact exact_written (e := .typed t address value) rfl
  | reserve | reserveKseg0 | attach => cases goes

def Edited (s : Session) (a : Answer) : Prop := ∃ edits, a.2.memory = Edit.run s.memory edits

theorem edited_of_kept {a : Answer} (kept : a.2.memory = s.memory) : Edited s a := ⟨[], kept⟩

theorem edited_written (s : Session) (e : Edit) (reply : Reply) :
    Edited s (s.answerWritten (e.attempt s.memory) reply) := by
  refine ⟨[e], ?_⟩
  rw [Edit.run_cons, Edit.run_nil, Edit.apply]
  cases e.attempt s.memory <;> rfl

theorem edited_memoryStep (s : Session) {x : MemoryStep}
    (keeps : (Step.memory x).replacesMemory = false) : Edited s (s.memoryStep x) := by
  cases x with
  | overwrite address data =>
      exact edited_written s (.raw address (UInt32.ofNat data.size) fun i => data[i]!) .done
  | fill address length b => exact edited_written s (.raw address length fun _ => b) _
  | writeWord address value => exact edited_written s (.word address value) .done
  | write t address value => exact edited_written s (.typed t address value) .done
  | reserve | reserveKseg0 | attach => cases keeps
  | _ => exact edited_of_kept rfl

theorem memory_registerStep (s : Session) (x : RegisterStep) :
    (s.registerStep x).2.memory = s.memory := by
  have named (index : Nat) (use : Reg → Answer) (used : ∀ r, (use r).2.memory = s.memory) :
      (s.withRegister index use).2.memory = s.memory :=
    withRegister_cases (P := fun a => a.2.memory = s.memory) (fun _ => rfl) used
  cases x with
  | get | word | set | setWord | single | setSingle | pokeGpr | pokeFpr =>
      exact named _ _ fun _ => rfl
  | _ => rfl

theorem memory_conventionStep (s : Session) (x : ConventionStep) :
    (s.conventionStep x).2.memory = s.memory := by
  cases x <;> rfl

theorem edited_callStep (s : Session) (x : CallStep) : Edited s (s.callStep x) := by
  apply callStep_cases
  · intro route c host
    refine ⟨c.edits (route.server host s.machine) s.machine, ?_⟩
    rw [answerOutcome_snd]
    exact (route.run_eq c host s.machine).2.2
  · intro services reply _
    exact edited_of_kept rfl
  · intro reply
    exact edited_of_kept rfl

theorem edited_step (s : Session) {x : Step} (keeps : x.replacesMemory = false) :
    Edited s (s.step x) := by
  cases x with
  | memory x => exact edited_memoryStep s keeps
  | registers x => exact edited_of_kept (memory_registerStep s x)
  | convention x => exact edited_of_kept (memory_conventionStep s x)
  | input x => exact edited_of_kept (hostsKept_inputStep s x).memory
  | output x => exact edited_of_kept (hostsKept_outputStep s x).memory
  | host x => exact edited_of_kept (servicesOnly_hostStep s x).memory
  | call x => exact edited_callStep s x

theorem edited_run (s : Session) {steps : List Step}
    (keep : ∀ x ∈ steps, x.replacesMemory = false) :
    ∃ edits, (run s steps).2.memory = Edit.run s.memory edits := by
  induction steps generalizing s with
  | nil => exact ⟨[], rfl⟩
  | cons x steps ih =>
      rw [List.forall_mem_cons] at keep
      obtain ⟨first, step⟩ := edited_step s keep.1
      obtain ⟨later, rest⟩ := ih (s.step x).2 keep.2
      refine ⟨first ++ later, ?_⟩
      rw [Edit.run_append, ← step]
      exact rest

/-- The image of a session takes up the addresses from `base` to `base + size`, none of them behind the end
of the address space. These addresses can be reached, and no others; the pages behind them stay as they
were handed out. -/
structure Confined (base : UInt32) (size : Nat) (s : Session) : Prop where
  base_eq : s.memory.base = base
  size_eq : s.memory.size = size
  below : base.toNat + size ≤ Memory.addressSpace
  contains : ∀ address length, s.memory.Contains address length ↔
    base.toNat ≤ address.toNat ∧ address.toNat + length.toNat ≤ base.toNat + size
  access : ∀ (x : MemoryStep) (address length : UInt32), x.range? = some (address, length) →
    if base.toNat ≤ address.toNat ∧ address.toNat + length.toNat ≤ base.toNat + size
    then (s.memoryStep x).1.isOk = true
    else s.memoryStep x = (.error (.fault (.outOfBounds address length)), s)
  reach : ∀ start n : Nat, 0 < n → n < Memory.addressSpace → base.toNat ≤ start →
    start + n ≤ base.toNat + size → ∃ address length found,
      address.toNat = start ∧ length.toNat = n ∧ s.memory.bytes address length = .ok found ∧
        found.data.toList = s.memory.slice (start - base.toNat) n
  slack : ∀ i, size ≤ i → s.memory.byte i = 0

theorem confined_of_edits {base : UInt32} {size : Nat} {m : Memory}
    (below : base.toNat + size ≤ Memory.addressSpace) (fresh : Memory.Fresh base size m)
    {edits : List Edit} (edited : s.memory = Edit.run m edits) : Confined base size s := by
  have base_eq : s.memory.base = base := by
    rw [edited, (Edit.run_bounds m edits).1, fresh.base]
  have size_eq : s.memory.size = size := by
    rw [edited, (Edit.run_bounds m edits).2, fresh.size]
  have contains (address length : UInt32) : s.memory.Contains address length ↔
      base.toNat ≤ address.toNat ∧ address.toNat + length.toNat ≤ base.toNat + size := by
    simp only [Memory.Contains, Memory.offset, base_eq, size_eq]
    omega
  refine ⟨base_eq, size_eq, below, contains, ?_, ?_, ?_⟩
  · intro x address length goes
    have checked := exact_memoryStep (s := s) goes
    simpa only [Exact, contains] using checked
  · intro start n some small above room
    simp only [Memory.addressSpace] at below small
    have named : start < 0x100000000 := by omega
    have first : (UInt32.ofNat start).toNat = start := UInt32.toNat_ofNat_of_lt' named
    have second : (UInt32.ofNat n).toNat = n := UInt32.toNat_ofNat_of_lt' small
    have inside : s.memory.Contains (UInt32.ofNat start) (UInt32.ofNat n) := by
      rw [contains, first, second]
      exact ⟨above, room⟩
    obtain ⟨found, done, list⟩ := Memory.slice_of_contains inside
    rw [Memory.offset, first, second, base_eq] at list
    exact ⟨_, _, found, first, second, done, list⟩
  · intro i behind
    rw [edited, Edit.byte_run_slack m edits (fresh.size ▸ behind), fresh.zero]

/-- A reserved image never leaves the address space. A reservation fails as too large exactly if the image
would pass the end of the address space, before its pages are asked for, and otherwise only if the source
has no pages. The image is zero throughout, and as long as a session keeps it, whatever the steps, it stays
where it is: an access succeeds exactly if it lies between base and end. -/
theorem reserved_confined (source : PageSource) (base : UInt32) (size : Nat) :
    (Memory.reserve source base size = .error (.tooLarge base size) ↔
      base.toNat + size > Memory.addressSpace) ∧
    (∀ (σ : Type) (service : PageService σ) (asked : σ),
      Memory.reserveFrom service base size asked =
        (Memory.reserve (fun n => (service n asked).1) base size,
          if base.toNat + size > Memory.addressSpace then asked
          else (service (max size 1) asked).2)) ∧
    (base.toNat + size ≤ Memory.addressSpace →
      match source (max size 1) with
      | none => Memory.reserve source base size = .error .allocation
      | some _ => ∃ m, Memory.reserve source base size = .ok m ∧
          m.image.data.toList = List.replicate size 0 ∧ m.size = size ∧
          (m.isEmpty = true ↔ size = 0) ∧
          ∀ (s : Session) (steps : List Step), s.memory = m →
            (∀ x ∈ steps, x.replacesMemory = false) → Confined base size (run s steps).2) := by
  refine ⟨Memory.tooLarge_iff source base size, ?_, ?_⟩
  · intro σ service asked
    exact Memory.reserveFrom_eq service base size asked
  · intro below
    rw [Memory.reserve_of_fits below]
    cases source (max size 1) with
    | none => rfl
    | some pages =>
        have fresh := Memory.fresh_of_pages base pages pages.covers_size
        refine ⟨_, rfl, fresh.image, rfl, fresh.isEmpty, ?_⟩
        intro s steps held keep
        obtain ⟨edits, edited⟩ := edited_run s keep
        rw [held] at edited
        exact confined_of_edits below fresh edited

def lastWord : List Step :=
  [.memory (.writeWord 0xfffffffc 0x01020304), .registers (.setWord 4 0xfffffffe),
    .call (.handle .itemInputs 0), .memory (.fill 0xfffffffc 4 7)]

theorem reserved_confined_lastWord :
    (0xfffffff0 : UInt32).toNat + 16 ≤ Memory.addressSpace ∧
    (∀ x ∈ lastWord, x.replacesMemory = false) ∧
    ∃ m, Memory.reserve PageSource.unlimited 0xfffffff0 16 = .ok m ∧
      (start.withMemory m).memory = m ∧
      ((run (start.withMemory m) lastWord).2.memoryStep (.readWord 0xfffffffc)).1.isOk = true ∧
      (run (start.withMemory m) lastWord).2.memoryStep (.readWord 0xfffffffe)
        = (.error (.fault (.outOfBounds 0xfffffffe 4)), (run (start.withMemory m) lastWord).2) := by
  have below : (0xfffffff0 : UInt32).toNat + 16 ≤ Memory.addressSpace := by decide
  have keep : ∀ x ∈ lastWord, x.replacesMemory = false := by decide
  obtain ⟨-, -, reserved⟩ := reserved_confined PageSource.unlimited 0xfffffff0 16
  obtain ⟨m, done, -, -, -, confined⟩ := reserved below
  have after := confined (start.withMemory m) lastWord rfl keep
  refine ⟨below, keep, m, done, rfl, ?_, ?_⟩
  · exact after.access (.readWord 0xfffffffc) 0xfffffffc 4 rfl
  · exact after.access (.readWord 0xfffffffe) 0xfffffffe 4 rfl

end Session

end CallGate
