import CallGate.Proofs.Calls.Frame
import CallGate.Proofs.Calls.Text
import CallGate.Proofs.Memory.Equality

/-! Guest calls that may change places.

A call fills its words with what its host reports, and sends its text to one sink. Neither depends on what
another call does, as long as the ranges of the two lie apart and the reports stay the same. So two such
calls leave the same image and the same in every sink in either order (`agree_swap`), and so do any number
of them in any order (`independent_calls_commute`). -/

namespace CallGate

open Services

namespace InputSource

def unpolled : InputSource → InputSource
  | pad c => pad c
  | device d _ => device d 0

/-- What a capability reports of the source stays the same, however often the source has been polled. -/
def Settled (mode : CameraMode) (source : InputSource) : Capability → Prop
  | .itemInputs => ∀ other : InputSource, other.unpolled = source.unpolled →
      (other.pollButtons mode).1 = (source.pollButtons mode).1
  | .cameraInputs => ∀ other : InputSource, other.unpolled = source.unpolled →
      (other.pollAxes mode).1 = (source.pollAxes mode).1
  | .puts => True

theorem eq_of_unpolled_pad {c : Controller} {other : InputSource}
    (same : other.unpolled = (pad c).unpolled) : other = pad c := by
  cases other with
  | pad d => exact same
  | device d polls => cases same

theorem settled_pad (mode : CameraMode) (c : Controller) (capability : Capability) :
    (pad c).Settled mode capability := by
  cases capability with
  | itemInputs | cameraInputs =>
      intro other same
      rw [eq_of_unpolled_pad same]
  | puts => trivial

theorem settled_constant (mode : CameraMode) (held : UInt32) (axes : Axes) (polls : Nat)
    (capability : Capability) : (device (Device.constant held axes) polls).Settled mode capability := by
  cases capability with
  | itemInputs | cameraInputs =>
      intro other same
      cases other with
      | pad c => cases same
      | device d n =>
          obtain rfl : d = Device.constant held axes := (InputSource.device.inj same).1
          rfl
  | puts => trivial

theorem unpolled_pollButtons (mode : CameraMode) (source : InputSource) :
    (source.pollButtons mode).2.unpolled = source.unpolled := by
  cases source <;> rfl

theorem unpolled_pollAxes (mode : CameraMode) (source : InputSource) :
    (source.pollAxes mode).2.unpolled = source.unpolled := by
  cases source <;> rfl

end InputSource

theorem Sink.told_comm (sink : Sink) {text other : List UInt8} (quiet : text = [] ∨ other = []) :
    (sink.told text).told other = (sink.told other).told text := by
  rcases quiet with rfl | rfl <;> rfl

theorem Services.unpolled_set (s : Services) {j : Nat} {source : InputSource}
    (same : source.unpolled = (s.inputs.get j).unpolled) (i : Nat) :
    ((s.inputs.set j source).get i).unpolled = (s.inputs.get i).unpolled := by
  by_cases here : i = j
  · subst here
    rw [Table.get_set_same, same]
  · rw [Table.get_set_other _ here]

theorem Capability.unpolled_served (c : Capability) (host : Host) (m : Machine) (i : Nat) :
    ((c.served host m).inputs.get i).unpolled = (m.services.inputs.get i).unpolled := by
  cases c with
  | itemInputs => exact m.services.unpolled_set (InputSource.unpolled_pollButtons _ _) i
  | cameraInputs => exact m.services.unpolled_set (InputSource.unpolled_pollAxes _ _) i
  | puts =>
      rcases Capability.served_puts host m with ⟨-, same⟩ | ⟨data, -, same⟩
      · rw [same]
      · rw [same, inputs_puts]

theorem Route.unpolled_run (route : Route) (c : Capability) (host : Host) (m : Machine) (i : Nat) :
    ((route.run c host m).2.services.inputs.get i).unpolled = (m.services.inputs.get i).unpolled := by
  apply Route.services_run (P := fun s => (s.inputs.get i).unpolled = _)
  · intro s entry before
    exact before
  · rintro found (rfl | rfl)
    · exact c.unpolled_served _ _ i
    · exact c.unpolled_served _ (m.log (.called c.symbol)) i

/-- What every call leaves as it is: what frames a machine, and the sources behind it but for the count of
their polls. -/
structure Kept (m after : Machine) : Prop extends Framed m after where
  inputs : ∀ i, (after.services.inputs.get i).unpolled = (m.services.inputs.get i).unpolled

structure Agree (m n : Machine) : Prop where
  memory : n.memory = m.memory
  sinks : ∀ i, n.services.sinks.get i = m.services.sinks.get i

theorem Kept.refl (m : Machine) : Kept m m := ⟨Framed.refl m, fun _ => rfl⟩

theorem Kept.run {o m : Machine} (kept : Kept o m) (call : GuestCall) : Kept o (call.run m).2 where
  toFramed := kept.toFramed.trans (call.framed_run m)
  inputs i := (call.route.unpolled_run call.capability call.host (call.loaded m) i).trans (kept.inputs i)

theorem Agree.refl (m : Machine) : Agree m m := ⟨rfl, fun _ => rfl⟩

theorem Agree.trans {a b c : Machine} (first : Agree a b) (second : Agree b c) : Agree a c where
  memory := second.memory.trans first.memory
  sinks i := (second.sinks i).trans (first.sinks i)

namespace GuestCall

variable {o m n : Machine} {a b call : GuestCall}

def Settled (call : GuestCall) (m : Machine) : Prop :=
  (m.services.inputs.get (call.server m).input).Settled m.services.mode call.capability

def outputs (call : GuestCall) : List UInt32 :=
  call.capability.outputs call.firstWord call.secondWord

def ranges (call : GuestCall) : List (UInt32 × UInt32) :=
  call.capability.ranges call.firstWord call.secondWord

/-- No word that the first call fills overlaps a range of the second one. -/
def Spares (a b : GuestCall) : Prop :=
  ∀ p ∈ a.outputs, ∀ range ∈ b.ranges, Memory.Apart p 4 range.1 range.2

-- through the lists: there are far too many words and ranges to go through all of them
instance (a b : GuestCall) : Decidable (a.Spares b) :=
  @List.decidableBAll _ _ (fun _ => List.decidableBAll _ _) a.outputs

def Independent (a b : GuestCall) : Prop := a.Spares b ∧ b.Spares a

instance : DecidableRel Independent := fun _ _ => inferInstanceAs (Decidable (_ ∧ _))

/-- At most one of the two calls puts a text into each sink. -/
def OneVoice (m : Machine) (a b : GuestCall) : Prop :=
  a.capability = .puts → b.capability = .puts → (a.server m).sink ≠ (b.server m).sink

instance (m : Machine) : DecidableRel (OneVoice m) := fun _ _ =>
  inferInstanceAs (Decidable (_ → _ → _))

def edits (call : GuestCall) (m : Machine) : List Edit :=
  call.capability.edits (call.server m) (call.loaded m)

def text (call : GuestCall) (m : Machine) : List UInt8 := call.capability.text (call.loaded m)

theorem memory_run (call : GuestCall) (m : Machine) :
    (call.run m).2.memory = Edit.run m.memory (call.edits m) := (call.run_eq m).2

theorem sink_run (call : GuestCall) (m : Machine) (i : Nat) :
    (call.run m).2.services.sinks.get i
      = (m.services.sinks.get i).told (portion i (call.server m).sink (call.text m)) :=
  call.route.sink_run call.capability call.host (call.loaded m) i

theorem edits_kept (kept : Kept o m) (settled : call.Settled o) : call.edits m = call.edits o := by
  have unpolled := kept.inputs (call.server o).input
  have mode := kept.services.mode
  unfold Settled at settled
  unfold edits
  rw [server_framed kept.toFramed]
  cases called : call.capability with
  | itemInputs =>
      rw [called] at settled
      have held : (m.services.itemInputs (call.server o)).1
          = (o.services.itemInputs (call.server o)).1 := by
        change ((m.services.inputs.get _).pollButtons m.services.mode).1 = _
        rw [mode]
        exact settled _ unpolled
      exact congrArg (fun v => [Edit.typed .u32 call.firstWord v]) held
  | cameraInputs =>
      rw [called] at settled
      have axes : (m.services.cameraInputs (call.server o)).1
          = (o.services.cameraInputs (call.server o)).1 := by
        change ((m.services.inputs.get _).pollAxes m.services.mode).1 = _
        rw [mode]
        exact settled _ unpolled
      have inside : m.memory.Contains call.firstWord 4 ↔ o.memory.Contains call.firstWord 4 :=
        Memory.contains_congr kept.base kept.size
      change (if m.memory.Contains call.firstWord 4 then
          [Edit.typed .f32 call.firstWord (m.services.cameraInputs _).1.x,
            Edit.typed .f32 call.secondWord (m.services.cameraInputs _).1.y] else []) = _
      simp only [inside, axes]
      rfl
  | puts => rfl

theorem text_eq (speaks : call.capability = .puts) (m : Machine) :
    call.text m = if Capability.puts.fault? m.memory call.firstWord call.secondWord = none
      then m.memory.window (m.memory.offset call.firstWord) call.secondWord.toNat else [] := by
  simp only [text, speaks, Capability.text, true_and]
  rfl

theorem text_congr (base : n.memory.base = m.memory.base) (size : n.memory.size = m.memory.size)
    (shown : ∀ range ∈ call.ranges, m.memory.Contains range.1 range.2 →
      n.memory.window (m.memory.offset range.1) range.2.toNat
        = m.memory.window (m.memory.offset range.1) range.2.toNat) : call.text n = call.text m := by
  by_cases speaks : call.capability = .puts
  · rw [text_eq speaks, text_eq speaks, Capability.fault?_congr base size, Memory.offset_congr base]
    by_cases empty : call.secondWord = 0
    · rw [empty]
      rfl
    · have named : (call.firstWord, call.secondWord) ∈ call.ranges := by
        simp [ranges, Capability.ranges, speaks, empty]
      by_cases inside : m.memory.Contains call.firstWord call.secondWord
      · rw [shown _ named inside]
      · have faults : Capability.puts.fault? m.memory call.firstWord call.secondWord ≠ none := by
          simp [Capability.fault?, empty, inside]
        rw [if_neg faults, if_neg faults]
  · rw [text, text, Capability.text_of_silent speaks, Capability.text_of_silent speaks]

theorem text_spared (spares : a.Spares b) (m : Machine) : b.text (a.run m).2 = b.text m := by
  apply text_congr (a.framed_run m).base (a.framed_run m).size
  intro range named inside
  apply Memory.window_congr
  intro i above below
  rcases a.byte_run m i with same | ⟨p, out, lower, upper⟩
  · exact same
  · have apart := spares p out range named
    have start := inside.1
    have four : (4 : UInt32).toNat = 4 := rfl
    simp only [Memory.offset] at above below
    simp only [Memory.Apart, four] at apart
    omega

theorem edits_apart (spares : a.Spares b) (m n : Machine) :
    ∀ e ∈ a.edits m, ∀ e' ∈ b.edits n, Memory.Apart e.address e.length e'.address e'.length := by
  intro e first e' second
  obtain ⟨fills, short⟩ := Capability.edits_fill first
  obtain ⟨filled, short'⟩ := Capability.edits_fill second
  rw [short, short']
  exact spares _ fills _ (Capability.output_range filled)

theorem portion_of_silent (silent : call.capability ≠ .puts) (m : Machine) (i sink : Nat) :
    portion i sink (call.text m) = [] := by
  rw [text, Capability.text_of_silent silent, portion, ite_self]

theorem portion_nil (alone : OneVoice m a b) (i : Nat) :
    portion i (a.server m).sink (a.text m) = [] ∨ portion i (b.server m).sink (b.text m) = [] := by
  by_cases first : a.capability = .puts
  · by_cases second : b.capability = .puts
    · by_cases here : (a.server m).sink = i
      · have elsewhere : (b.server m).sink ≠ i := by
          rw [← here]
          exact (alone first second).symm
        exact .inr (if_neg elsewhere)
      · exact .inl (if_neg here)
    · exact .inr (portion_of_silent second m i _)
  · exact .inl (portion_of_silent first m i _)

theorem OneVoice.framed (framed : Framed m n) (alone : OneVoice m a b) : OneVoice n a b := by
  rwa [OneVoice, server_framed framed, server_framed framed]

/-- Calls that are independent leave the same in either order. -/
theorem agree_swap (kept : Kept o m) (independent : Independent a b) (alone : OneVoice o a b)
    (settled : a.Settled o) (settled' : b.Settled o) :
    Agree (b.run (a.run m).2).2 (a.run (b.run m).2).2 where
  memory := by
    have apart := edits_apart independent.1 o o
    simp only [memory_run, edits_kept kept settled, edits_kept kept settled',
      edits_kept (kept.run _) settled, edits_kept (kept.run _) settled']
    exact (Edit.run_comm _ apart).symm
  sinks i := by
    have quiet := portion_nil (alone.framed kept.toFramed) i
    simp only [sink_run, server_framed (a.framed_run m), server_framed (b.framed_run m),
      text_spared independent.1, text_spared independent.2]
    exact Sink.told_comm _ quiet.symm

theorem agree_run (keptM : Kept o m) (keptN : Kept o n) (agree : Agree m n) (settled : call.Settled o) :
    Agree (call.run m).2 (call.run n).2 where
  memory := by
    rw [memory_run, memory_run, edits_kept keptM settled, edits_kept keptN settled, agree.memory]
  sinks i := by
    have same : call.text n = call.text m := by
      apply text_congr
      · rw [agree.memory]
      · rw [agree.memory]
      · intro range _ _
        rw [agree.memory]
    rw [sink_run, sink_run, server_framed keptM.toFramed, server_framed keptN.toFramed, same,
      agree.sinks]

theorem agree_runAll (keptM : Kept o m) (keptN : Kept o n) (agree : Agree m n) {calls : List GuestCall}
    (settled : ∀ call ∈ calls, call.Settled o) : Agree (runAll calls m) (runAll calls n) := by
  induction calls generalizing m n with
  | nil => exact agree
  | cons call calls ih =>
      obtain ⟨first, rest⟩ := List.forall_mem_cons.mp settled
      exact ih (keptM.run call) (keptN.run call) (agree_run keptM keptN agree first) rest

theorem independent_symm {o : Machine} {a b : GuestCall} (both : Independent a b ∧ OneVoice o a b) :
    Independent b a ∧ OneVoice o b a :=
  ⟨both.1.symm, fun second first => (both.2 first second).symm⟩

theorem agree_perm (keptM : Kept o m) (keptN : Kept o n) (agree : Agree m n)
    {calls order : List GuestCall} (perm : calls.Perm order)
    (independent : calls.Pairwise fun a b => Independent a b ∧ OneVoice o a b)
    (settled : ∀ call ∈ calls, call.Settled o) : Agree (runAll calls m) (runAll order n) := by
  -- the hypotheses are about the machine before all calls, and `Kept` ties both runs to it
  induction perm generalizing m n with
  | nil => exact agree
  | cons call _ ih =>
      obtain ⟨first, rest⟩ := List.forall_mem_cons.mp settled
      exact ih (keptM.run call) (keptN.run call) (agree_run keptM keptN agree first)
        (List.pairwise_cons.mp independent).2 rest
  | swap a b calls =>
      obtain ⟨later, sooner, rest⟩ : b.Settled o ∧ a.Settled o ∧ ∀ call ∈ calls, call.Settled o := by
        simpa only [List.forall_mem_cons] using settled
      obtain ⟨apart, alone⟩ := (List.pairwise_cons.mp independent).1 a (List.mem_cons_self ..)
      have once := agree_run (keptM.run b) (keptN.run b) (agree_run keptM keptN agree later) sooner
      have swapped := once.trans (agree_swap keptN apart alone later sooner)
      exact agree_runAll ((keptM.run b).run a) ((keptN.run a).run b) swapped rest
  | trans first _ ih ih' =>
      have between := (first.pairwise_iff independent_symm).mp independent
      have rest := fun call member => settled call (first.mem_iff.mpr member)
      exact (ih keptM keptN agree independent settled).trans
        (ih' keptN keptN (Agree.refl n) between rest)

/-- Any number of calls that are independent of one another, with no sink that two of them put a text into,
may be made in any order, as long as their inputs stay the same. In each order every call comes to what it
comes to if it is made first, and the image and all sinks end up the same. -/
theorem independent_calls_commute {calls order : List GuestCall} (perm : calls.Perm order)
    (independent : calls.Pairwise Independent) (alone : calls.Pairwise (OneVoice m))
    (settled : ∀ call ∈ calls, call.Settled m) :
    results order m = order.map (fun call => (call.run m).1) ∧
    (runAll order m).memory = (runAll calls m).memory ∧
    ∀ i, (runAll order m).services.sinks.get i = (runAll calls m).services.sinks.get i := by
  have agree := agree_perm (Kept.refl m) (Kept.refl m) (Agree.refl m) perm
    (independent.and alone) settled
  exact ⟨results_eq order m, agree.memory, agree.sinks⟩

def sharedPage : Machine where
  memory := Memory.ofImage 0x80000000 ⟨Array.replicate 16 0x21⟩
  services :=
    { inputs := ⟨#[.device (Device.constant 0x410 ⟨⟨0x7fc00001⟩, ⟨0x80000000⟩⟩) 0,
        .pad { buttons := 0x8001 }]⟩
      sinks := ⟨#[Sink.capture, Sink.failingAfter 0 "closed"]⟩ }

/-- Both axes into words that share a byte, a text between them and the buttons, and an empty text from
nowhere. -/
def pageCalls : List GuestCall :=
  let passing (p q : UInt32) : Registers := (({} : Registers).setWord Reg.a0 p).setWord Reg.a1 q
  [⟨passing 0x80000001 0x80000004, .handler, .cameraInputs, ⟨0, 0⟩⟩,
    ⟨passing 0x80000008 4, .call, .puts, ⟨0, 0⟩⟩,
    ⟨passing 0x8000000c 0, .handler, .itemInputs, ⟨1, 0⟩⟩,
    ⟨passing 7 0, .handler, .puts, ⟨1, 1⟩⟩]

theorem independent_calls_commute_pageCalls :
    pageCalls.Pairwise Independent ∧ pageCalls.Pairwise (OneVoice sharedPage) ∧
    (∀ call ∈ pageCalls, call.Settled sharedPage) ∧
    results pageCalls.reverse sharedPage = [.ok (), .ok (), .ok (), .ok ()] ∧
    (runAll pageCalls.reverse sharedPage).memory = (runAll pageCalls sharedPage).memory ∧
    ∀ i, (runAll pageCalls.reverse sharedPage).services.sinks.get i
      = (runAll pageCalls sharedPage).services.sinks.get i := by
  have independent : pageCalls.Pairwise Independent := by decide
  have alone : pageCalls.Pairwise (OneVoice sharedPage) := by decide
  have settled : ∀ call ∈ pageCalls, call.Settled sharedPage := by
    simp only [pageCalls, List.forall_mem_cons]
    refine ⟨InputSource.settled_constant .., trivial, InputSource.settled_pad .., trivial, ?_⟩
    exact List.forall_mem_nil _
  obtain ⟨returned, memory, sinks⟩ :=
    independent_calls_commute (List.reverse_perm pageCalls).symm independent alone settled
  refine ⟨independent, alone, settled, ?_, memory, sinks⟩
  rw [returned]
  rfl

end GuestCall

end CallGate
