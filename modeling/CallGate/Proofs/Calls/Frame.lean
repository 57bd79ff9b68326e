import CallGate.Proofs.Services.Steady

/-! What guest calls leave alone.

A call writes the words that its pointers name and nothing else of the guest; the registers never change
at all. A run of calls, with the registers loaded anew before each, writes what its calls write. -/

namespace CallGate

/-- The addresses of the words that a call is to fill, with `p` and `q` as its argument words. -/
def Capability.outputs (p q : UInt32) : Capability → List UInt32
  | itemInputs => [p]
  | cameraInputs => [p, q]
  | puts => []

/-- The ranges of addresses that a call reads or writes in memory. An empty text has none. -/
def Capability.ranges (p q : UInt32) : Capability → List (UInt32 × UInt32)
  | itemInputs => [(p, 4)]
  | cameraInputs => [(p, 4), (q, 4)]
  | puts => if q = 0 then [] else [(p, q)]

theorem Capability.output_range {p q out : UInt32} {c : Capability} (member : out ∈ c.outputs p q) :
    (out, 4) ∈ c.ranges p q := by
  cases c with
  | itemInputs | cameraInputs => simpa [outputs, ranges] using member
  | puts => cases member

theorem Capability.edits_fill {c : Capability} {host : Host} {m : Machine} {e : Edit}
    (member : e ∈ c.edits host m) :
    e.address ∈ c.outputs m.firstWord m.secondWord ∧ e.length = 4 := by
  cases c with
  | itemInputs =>
      rw [edits, List.mem_singleton] at member
      subst member
      exact ⟨List.mem_singleton_self _, rfl⟩
  | cameraInputs =>
      rw [edits] at member
      split at member
      · rcases List.mem_cons.mp member with rfl | later
        · exact ⟨List.mem_cons_self .., rfl⟩
        · obtain rfl := List.mem_singleton.mp later
          exact ⟨List.mem_cons_of_mem _ (List.mem_singleton_self _), rfl⟩
      · cases member
  | puts =>
      rw [edits] at member
      cases member

theorem Capability.fault?_congr {memory after : Memory} (base : after.base = memory.base)
    (size : after.size = memory.size) (p q : UInt32) (c : Capability) :
    c.fault? after p q = c.fault? memory p q := by
  cases c <;> simp only [fault?, Memory.contains_congr base size]

structure GuestCall where
  registers : Registers
  route : Route
  capability : Capability
  host : Host

namespace GuestCall

def loaded (call : GuestCall) (m : Machine) : Machine := { m with registers := call.registers }

def run (call : GuestCall) (m : Machine) : Outcome :=
  call.route.run call.capability call.host (call.loaded m)

def firstWord (call : GuestCall) : UInt32 := call.registers.word Reg.a0

def secondWord (call : GuestCall) : UInt32 := call.registers.word Reg.a1

def server (call : GuestCall) (m : Machine) : Host := call.route.server call.host (call.loaded m)

/-- The machine behind a run of calls. Faults do not end the run. -/
def runAll : List GuestCall → Machine → Machine
  | [], m => m
  | call :: calls, m => runAll calls (call.run m).2

def results : List GuestCall → Machine → List (Except Fault Unit)
  | [], _ => []
  | call :: calls, m => (call.run m).1 :: results calls (call.run m).2

/-- The byte at an offset belongs to a word that the call is asked to fill. -/
def Fills (call : GuestCall) (m : Machine) (i : Nat) : Prop :=
  ∃ p ∈ call.capability.outputs (call.loaded m).firstWord (call.loaded m).secondWord,
    p.toNat ≤ m.memory.base.toNat + i ∧ m.memory.base.toNat + i < p.toNat + 4

end GuestCall

structure Framed (m after : Machine) : Prop where
  base : after.memory.base = m.memory.base
  size : after.memory.size = m.memory.size
  services : Services.Steady m.services after.services

theorem Framed.refl (m : Machine) : Framed m m := ⟨rfl, rfl, Services.Steady.refl _⟩

theorem Framed.trans {a b c : Machine} (first : Framed a b) (second : Framed b c) : Framed a c where
  base := second.base.trans first.base
  size := second.size.trans first.size
  services := first.services.trans second.services

namespace GuestCall

theorem run_eq (call : GuestCall) (m : Machine) :
    (call.run m).2.registers = call.registers ∧
    (call.run m).2.memory = Edit.run m.memory
      (call.capability.edits (call.route.server call.host (call.loaded m)) (call.loaded m)) :=
  (call.route.run_eq call.capability call.host (call.loaded m)).2

theorem framed_run (call : GuestCall) (m : Machine) : Framed m (call.run m).2 := by
  have bounds := Edit.run_bounds m.memory
    (call.capability.edits (call.route.server call.host (call.loaded m)) (call.loaded m))
  rw [← (call.run_eq m).2] at bounds
  exact ⟨bounds.1, bounds.2, call.route.steady_run call.capability call.host (call.loaded m)⟩

theorem framed_runAll (calls : List GuestCall) (m : Machine) : Framed m (runAll calls m) := by
  induction calls generalizing m with
  | nil => exact Framed.refl m
  | cons call calls ih => exact (call.framed_run m).trans (ih _)

theorem run_fst (call : GuestCall) (m : Machine) :
    (call.run m).1 = Capability.resultOf
      (call.capability.fault? m.memory call.firstWord call.secondWord) :=
  (call.route.run_eq call.capability call.host (call.loaded m)).1

theorem run_fst_framed {m after : Machine} (framed : Framed m after) (call : GuestCall) :
    (call.run after).1 = (call.run m).1 := by
  rw [run_fst, run_fst, Capability.fault?_congr framed.base framed.size]

theorem server_framed {m after : Machine} (framed : Framed m after) (call : GuestCall) :
    call.server after = call.server m := by
  unfold server
  cases call.route with
  | handler | call => rfl
  | entry => exact framed.services.installed

theorem results_framed {m after : Machine} (framed : Framed m after) (calls : List GuestCall) :
    results calls after = calls.map fun call => (call.run m).1 := by
  induction calls generalizing after with
  | nil => rfl
  | cons call calls ih =>
      rw [results, run_fst_framed framed, ih (framed.trans (call.framed_run after)), List.map_cons]

theorem results_eq (calls : List GuestCall) (m : Machine) :
    results calls m = calls.map fun call => (call.run m).1 :=
  results_framed (Framed.refl m) calls

theorem byte_run (call : GuestCall) (m : Machine) (i : Nat) :
    (call.run m).2.memory.byte i = m.memory.byte i ∨ call.Fills m i := by
  rw [(call.run_eq m).2]
  rcases Edit.byte_run_cases m.memory
    (call.capability.edits (call.route.server call.host (call.loaded m)) (call.loaded m)) i with
    kept | ⟨e, member, covers⟩
  · exact .inl kept
  · obtain ⟨named, short⟩ := Capability.edits_fill member
    have above := covers.1.1
    have lower := covers.2.1
    have upper := covers.2.2
    rw [short] at upper
    have four : (4 : UInt32).toNat = 4 := rfl
    simp only [Memory.offset, four] at lower upper
    exact .inr ⟨e.address, named, by omega, by omega⟩

theorem byte_runAll (calls : List GuestCall) (m : Machine) (i : Nat) :
    (runAll calls m).memory.byte i = m.memory.byte i ∨ ∃ call ∈ calls, call.Fills m i := by
  induction calls generalizing m with
  | nil => exact .inl rfl
  | cons call calls ih =>
      rcases ih (call.run m).2 with kept | ⟨later, member, p, named, filled⟩
      · rcases call.byte_run m i with same | fills
        · exact .inl (kept.trans same)
        · exact .inr ⟨call, List.mem_cons_self .., fills⟩
      · rw [(call.framed_run m).base] at filled
        exact .inr ⟨later, List.mem_cons_of_mem _ member, p, named, filled⟩

theorem memory_of_puts (registers : Registers) (route : Route) (host : Host) (m : Machine) :
    (run ⟨registers, route, .puts, host⟩ m).2.memory = m.memory :=
  (run_eq ⟨registers, route, .puts, host⟩ m).2

/-- Guest calls change nothing but the words that their pointers name. Each call, whatever its route and
whether it faults or not, leaves the register file as it is, the bounds of the image, every controller,
the camera mode and the installed host; `puts` leaves memory as a whole. A byte that differs behind a
run of calls belongs to a word that one of them is asked to fill. -/
theorem calls_fill_only_outputs (m : Machine) (calls : List GuestCall) :
    (∀ (call : GuestCall) (m : Machine),
      (call.run m).2.registers = call.registers ∧ Framed m (call.run m).2) ∧
    (∀ (registers : Registers) (route : Route) (host : Host) (m : Machine),
      (run ⟨registers, route, .puts, host⟩ m).2.memory = m.memory) ∧
    Framed m (runAll calls m) ∧
    ∀ i, (runAll calls m).memory.byte i = m.memory.byte i ∨ ∃ call ∈ calls, call.Fills m i := by
  refine ⟨?_, memory_of_puts, framed_runAll calls m, byte_runAll calls m⟩
  intro call m
  exact ⟨(call.run_eq m).1, call.framed_run m⟩

end GuestCall

end CallGate
