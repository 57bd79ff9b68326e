import CallGate.Proofs.Calls.Frame
import CallGate.Proofs.Calls.Text

/-! A text that a guest puts in pieces.

Whether a text is in the image and what it says are both told by addresses: a range is there if its parts
are, and reads as the parts in a row (`holds_add`, `textFrom_add`). A call to `puts` changes neither memory
nor what the next one finds, so pieces that follow one another in memory emit what the whole of them
emits, and succeed together exactly if the whole succeeds (`pieces_put_whole`). -/

namespace CallGate

open Services

namespace Memory

variable {m : Memory} {start n k : Nat}

/-- A text of `n` bytes from an address on lies in the image. An empty one may be anywhere. -/
def Holds (m : Memory) (start n : Nat) : Prop :=
  n = 0 ∨ m.base.toNat ≤ start ∧ start + n ≤ m.base.toNat + m.size

instance (m : Memory) (start n : Nat) : Decidable (m.Holds start n) :=
  inferInstanceAs (Decidable (_ ∨ _))

def textFrom (m : Memory) (start n : Nat) : List UInt8 := m.window (start - m.base.toNat) n

theorem holds_iff (m : Memory) (address length : UInt32) :
    m.Holds address.toNat length.toNat ↔ length = 0 ∨ m.Contains address length := by
  have empty : length = 0 ↔ length.toNat = 0 := UInt32.toNat_inj.symm
  simp only [Holds, Contains, offset, empty]
  omega

/-- An empty part is never looked for, so its address does not matter. -/
theorem holds_add : m.Holds start (n + k) ↔ m.Holds start n ∧ m.Holds (start + n) k := by
  simp only [Holds]
  omega

theorem textFrom_add (held : m.Holds start (n + k)) :
    m.textFrom start (n + k) = m.textFrom start n ++ m.textFrom (start + n) k := by
  rcases held with empty | ⟨above, -⟩
  · obtain ⟨rfl, rfl⟩ := Nat.add_eq_zero_iff.mp empty
    rfl
  · have next : start - m.base.toNat + n = start + n - m.base.toNat := by omega
    rw [textFrom, window_add, next]
    rfl

end Memory

theorem Capability.fault?_puts (memory : Memory) (p q : UInt32) :
    puts.fault? memory p q = none ↔ memory.Holds p.toNat q.toNat := by
  rw [Memory.holds_iff, fault?]
  split
  · next sound => exact iff_of_true rfl sound
  · next faults => exact iff_of_false (Option.some_ne_none _) faults

namespace GuestCall

variable {m : Machine} {i start : Nat} {text : List UInt8} {call : GuestCall} {calls : List GuestCall}

/-- The calls put texts that follow one another in the address space, the first one from `start` on. -/
def Consecutive (start : Nat) : List GuestCall → Prop
  | [] => True
  | call :: calls => call.capability = .puts ∧ call.firstWord.toNat = start ∧
      Consecutive (start + call.secondWord.toNat) calls

def total : List GuestCall → Nat
  | [] => 0
  | call :: calls => call.secondWord.toNat + total calls

theorem total_cons (call : GuestCall) (calls : List GuestCall) :
    total (call :: calls) = call.secondWord.toNat + total calls := rfl

theorem returns_iff_holds (speaks : call.capability = .puts) :
    (call.run m).1 = .ok () ↔ m.memory.Holds call.firstWord.toNat call.secondWord.toNat := by
  rw [run_fst, speaks, ← Capability.fault?_puts]
  cases Capability.puts.fault? m.memory call.firstWord call.secondWord <;> simp [Capability.resultOf]

theorem memory_of_speaks (speaks : call.capability = .puts) (m : Machine) :
    (call.run m).2.memory = m.memory := by
  rw [(call.run_eq m).2, speaks]
  rfl

theorem memory_of_pieces (consecutive : Consecutive start calls) (m : Machine) :
    (runAll calls m).memory = m.memory := by
  induction calls generalizing start m with
  | nil => rfl
  | cons call calls ih =>
      obtain ⟨speaks, -, later⟩ := consecutive
      exact (ih later _).trans (memory_of_speaks speaks m)

theorem holds_pieces (memory : Memory) (consecutive : Consecutive start calls) :
    memory.Holds start (total calls) ↔
      ∀ call ∈ calls, memory.Holds call.firstWord.toNat call.secondWord.toNat := by
  induction calls generalizing start with
  | nil => exact iff_of_true (.inl rfl) (List.forall_mem_nil _)
  | cons call calls ih =>
      obtain ⟨-, here, later⟩ := consecutive
      rw [total_cons, Memory.holds_add, ih later, List.forall_mem_cons, here]

theorem returns_pieces (consecutive : Consecutive start calls) :
    (∀ call ∈ calls, (call.run m).1 = .ok ()) ↔ m.memory.Holds start (total calls) := by
  rw [holds_pieces m.memory consecutive]
  induction calls generalizing start with
  | nil => exact iff_of_true (List.forall_mem_nil _) (List.forall_mem_nil _)
  | cons call calls ih =>
      obtain ⟨speaks, -, later⟩ := consecutive
      rw [List.forall_mem_cons, List.forall_mem_cons, ih later, returns_iff_holds speaks]

theorem capturing_run (capturing : Capturing i text m.services) (speaks : call.capability = .puts)
    (served : (call.server m).sink = i)
    (held : m.memory.Holds call.firstWord.toNat call.secondWord.toNat) :
    Capturing i (text ++ m.memory.textFrom call.firstWord.toNat call.secondWord.toNat)
      (call.run m).2.services := by
  have after := Route.capturing_run (m := call.loaded m) capturing call.route call.capability call.host
  have sound := (Capability.fault?_puts _ _ _).mpr held
  have emitted : call.capability.text (call.loaded m)
      = m.memory.textFrom call.firstWord.toNat call.secondWord.toNat := by
    rw [speaks, Capability.text, if_pos ⟨rfl, sound⟩]
    rfl
  change (call.route.server call.host (call.loaded m)).sink = i at served
  rwa [portion, if_pos served, emitted] at after

theorem capturing_pieces (capturing : Capturing i text m.services)
    (consecutive : Consecutive start calls) (served : ∀ call ∈ calls, (call.server m).sink = i)
    (held : m.memory.Holds start (total calls)) :
    Capturing i (text ++ m.memory.textFrom start (total calls)) (runAll calls m).services := by
  induction calls generalizing start text m with
  | nil =>
      change Capturing i (text ++ []) m.services
      rwa [List.append_nil]
  | cons call calls ih =>
      obtain ⟨speaks, rfl, later⟩ := consecutive
      obtain ⟨here, others⟩ := List.forall_mem_cons.mp served
      rw [total_cons] at held ⊢
      obtain ⟨first, rest⟩ := Memory.holds_add.mp held
      -- the first piece leaves memory alone, so the others find the text that the whole would find
      have same := memory_of_speaks speaks m
      have kept : ∀ other ∈ calls, (other.server (call.run m).2).sink = i := by
        intro other member
        rw [server_framed (call.framed_run m)]
        exact others other member
      rw [← same] at rest
      have emitted := ih (capturing_run capturing speaks here first) later kept rest
      rwa [same, List.append_assoc, ← Memory.textFrom_add held] at emitted

/-- How a guest cuts its text makes no difference to what a sink gets that refuses nothing. Pieces that
follow one another in memory, empty ones among them, all succeed exactly if the whole does, each by itself
and in a row; then they leave the sink with the contents that the whole leaves it with, which are those it
had and the bytes of the whole. Memory stays as it is. -/
theorem pieces_put_whole (capturing : Capturing i text m.services) {whole : GuestCall}
    {pieces : List GuestCall} (speaks : whole.capability = .puts)
    (consecutive : Consecutive whole.firstWord.toNat pieces)
    (covers : total pieces = whole.secondWord.toNat)
    (served : ∀ call ∈ whole :: pieces, (call.server m).sink = i) :
    ((whole.run m).1 = .ok () ↔ ∀ piece ∈ pieces, (piece.run m).1 = .ok ()) ∧
    ((whole.run m).1 = .ok () ↔ ∀ result ∈ results pieces m, result = .ok ()) ∧
    (whole.run m).2.memory = m.memory ∧ (runAll pieces m).memory = m.memory ∧
    ((whole.run m).1 = .ok () →
      ((runAll pieces m).services.sinks.get i).kept = ((whole.run m).2.services.sinks.get i).kept ∧
      ((whole.run m).2.services.sinks.get i).kept.data.toList
        = text ++ m.memory.textFrom whole.firstWord.toNat whole.secondWord.toNat) := by
  obtain ⟨here, others⟩ := List.forall_mem_cons.mp served
  have together : (whole.run m).1 = .ok () ↔ ∀ piece ∈ pieces, (piece.run m).1 = .ok () := by
    rw [returns_iff_holds speaks, returns_pieces consecutive, covers]
  refine ⟨together, ?_, memory_of_speaks speaks m, memory_of_pieces consecutive m, ?_⟩
  · rw [together, results_eq, List.forall_mem_map]
  · intro returns
    have held := (returns_iff_holds speaks).mp returns
    have once := capturing_run capturing speaks here held
    rw [← covers] at held
    have cut := capturing_pieces capturing consecutive others held
    rw [covers, ← once.kept] at cut
    exact ⟨ByteArray.ext (Array.toList_inj.mp cut.kept), once.kept⟩

def lastBytes : Machine where
  memory := Memory.ofImage 0xfffffffc ⟨#[104, 101, 121, 33]⟩
  services := { sinks := ⟨#[Sink.capture]⟩ }

/-- A call to `puts`, with junk in the upper half of a register. -/
def putting (address size : UInt32) : GuestCall where
  registers := (({} : Registers).setWord Reg.a0 address).set Reg.a1 (0xdead00000000 + size.toUInt64)
  route := .handler
  capability := .puts
  host := Host.standard

theorem pieces_put_whole_lastBytes :
    Capturing 0 [] lastBytes.services ∧
    Consecutive 0xfffffffc [putting 0xfffffffc 1, putting 0xfffffffd 0, putting 0xfffffffd 3] ∧
    ((putting 0xfffffffc 4).run lastBytes).1 = .ok () ∧
    ((runAll [putting 0xfffffffc 1, putting 0xfffffffd 0, putting 0xfffffffd 3]
      lastBytes).services.sinks.get 0).kept.data.toList = [104, 101, 121, 33] := by
  have capturing : Capturing 0 [] lastBytes.services := ⟨by decide, fun _ => rfl, rfl⟩
  have consecutive : Consecutive (putting 0xfffffffc 4).firstWord.toNat
      [putting 0xfffffffc 1, putting 0xfffffffd 0, putting 0xfffffffd 3] := by
    refine ⟨rfl, ?_, rfl, ?_, rfl, ?_, trivial⟩ <;> decide
  have served : ∀ call ∈ [putting 0xfffffffc 4, putting 0xfffffffc 1, putting 0xfffffffd 0,
      putting 0xfffffffd 3], (call.server lastBytes).sink = 0 := by
    decide
  have returns : ((putting 0xfffffffc 4).run lastBytes).1 = .ok () := by
    rw [returns_iff_holds rfl]
    decide
  have covers : total [putting 0xfffffffc 1, putting 0xfffffffd 0, putting 0xfffffffd 3]
      = (putting 0xfffffffc 4).secondWord.toNat := by
    decide
  obtain ⟨-, -, -, -, emit⟩ := pieces_put_whole capturing rfl consecutive covers served
  obtain ⟨same, whole⟩ := emit returns
  refine ⟨capturing, consecutive, returns, ?_⟩
  rw [same, whole]
  decide

end GuestCall

end CallGate
