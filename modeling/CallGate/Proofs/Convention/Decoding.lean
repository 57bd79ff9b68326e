import CallGate.Convention.Script
import CallGate.Proofs.Convention.Layout
import Mathlib.Data.List.Forall2

/-! Decoding an argument list over any cursor.

One fetch is made for each type, from left to right, and none behind the first fault
(`transcript_decodeAll`). So a list decodes as its types do in turn, up to the first fault
(`decodeAll_eq_ok_iff`, `decodeAll_eq_error_iff`), and in two parts as well as in one
(`decodeAll_append`). -/

namespace CallGate

namespace ArgType

/-- The value that fetched bits stand for: two's complement for the signed types. -/
def Denotes : (t : ArgType) → t.fetch.Value → t.Value → Prop
  | u32, w, v => UInt32.toNat v = UInt32.toNat w
  | i32, w, v => Int32.toInt v = Int.bmod (UInt32.toNat w) 0x100000000
  | u64, w, v => UInt64.toNat v = UInt64.toNat w
  | i64, w, v => Int64.toInt v = Int.bmod (UInt64.toNat w) 0x10000000000000000
  | f32, w, v => Single.bits v = Single.bits w
  | ptr, w, v => Pointer.address v = w

theorem denotes_iff_interpret (t : ArgType) (w : t.fetch.Value) (v : t.Value) :
    t.Denotes w v ↔ v = t.interpret w := by
  cases t with
  | u32 => exact UInt32.toNat_inj
  | i32 =>
      have signed : (UInt32.toInt32 w).toInt = Int.bmod (UInt32.toNat w) 0x100000000 :=
        BitVec.toInt_eq_toNat_bmod _
      rw [Denotes, ← signed]
      exact Int32.toInt_inj
  | u64 => exact UInt64.toNat_inj
  | i64 =>
      have signed : (UInt64.toInt64 w).toInt
          = Int.bmod (UInt64.toNat w) 0x10000000000000000 := BitVec.toInt_eq_toNat_bmod _
      rw [Denotes, ← signed]
      exact Int64.toInt_inj
  | f32 =>
      constructor
      · exact congrArg Single.mk
      · rintro rfl
        rfl
  | ptr =>
      constructor
      · exact congrArg Pointer.mk
      · rintro rfl
        rfl

theorem denotes_iff (t : ArgType) (w : t.fetch.Value) (v : t.Value) :
    t.Denotes w v ↔ w = t.represent v := by
  rw [denotes_iff_interpret]
  constructor
  · rintro rfl
    exact (t.represent_interpret w).symm
  · rintro rfl
    exact (t.interpret_represent v).symm

end ArgType

def Fetched.Gives (answer : Fetched) (a : Argument) : Prop :=
  ∃ w, answer = ⟨a.1.fetch, .ok w⟩ ∧ a.1.Denotes w a.2

def Arguments.append : {ts us : List ArgType} → Arguments ts → Arguments us → Arguments (ts ++ us)
  | [], _, .nil, later => later
  | _ :: _, _, .cons v rest, later => .cons v (rest.append later)

namespace Cursor

variable {σ : Type}

theorem decode_fault {c : Cursor σ} {t : ArgType} {s next : σ} {fault : Fault}
    (answer : c t.fetch s = (.error fault, next)) : c.decode t s = (.error fault, next) := by
  simp only [decode, answer, Except.map]

theorem decode_value {c : Cursor σ} {t : ArgType} {s next : σ} {w : t.fetch.Value}
    (answer : c t.fetch s = (.ok w, next)) : c.decode t s = (.ok (t.interpret w), next) := by
  simp only [decode, answer, Except.map]

theorem decodeAll_fault {c : Cursor σ} {t : ArgType} {s next : σ} {fault : Fault}
    (answer : c.decode t s = (.error fault, next)) (ts : List ArgType) :
    c.decodeAll (t :: ts) s = (.error fault, next) := by
  simp only [decodeAll, answer]

theorem decodeAll_cons {c : Cursor σ} {t : ArgType} {s next : σ} {v : t.Value}
    (answer : c.decode t s = (.ok v, next)) (ts : List ArgType) :
    c.decodeAll (t :: ts) s
      = ((c.decodeAll ts next).1.map (.cons v), (c.decodeAll ts next).2) := by
  simp only [decodeAll, answer]

theorem decodeEach_cons {c : Cursor σ} {t : ArgType} {s next : σ} {found : Except Fault t.Value}
    (answer : c.decode t s = (found, next)) (ts : List ArgType) :
    (c.decodeEach (t :: ts) s).1 = found.map (⟨t, ·⟩) :: (c.decodeEach ts next).1 := by
  simp only [decodeEach, answer]

/-- How a decoding went, if `asked` was fetched for it. The fetches are those of the types in front, each
made once; without a fault they are all there and the values are told by the answers, and with one it
was the last answer and the only fault. -/
structure Transcript (c : Cursor σ) (ts : List ArgType) (s : σ) (result : Except Fault (Arguments ts))
    (after : σ) (asked : List Fetch) : Prop where
  front : asked <+: ts.map ArgType.fetch
  after_eq : (c.fetchEach asked s).2 = after
  values : ∀ args, result = .ok args →
    asked = ts.map ArgType.fetch ∧ List.Forall₂ Fetched.Gives (c.fetchEach asked s).1 args.toList
  fault : ∀ fault, result = .error fault → ∃ answers k,
    (c.fetchEach asked s).1 = answers ++ [⟨k, .error fault⟩] ∧ ∀ a ∈ answers, a.2.isOk = true

theorem transcript_nil (c : Cursor σ) (s : σ) : c.Transcript [] s (.ok .nil) s [] := by
  refine ⟨List.prefix_rfl, rfl, ?_, ?_⟩
  · rintro args ⟨⟩
    exact ⟨rfl, .nil⟩
  · rintro fault ⟨⟩

theorem transcript_fault {c : Cursor σ} {t : ArgType} {ts : List ArgType} {s after : σ}
    {fault : Fault} (answer : c t.fetch s = (.error fault, after)) :
    c.Transcript (t :: ts) s (.error fault) after [t.fetch] := by
  refine ⟨?_, ?_, ?_, ?_⟩
  · exact ⟨ts.map ArgType.fetch, rfl⟩
  · simp only [fetchEach, answer]
  · rintro args ⟨⟩
  · rintro fault ⟨⟩
    refine ⟨[], t.fetch, ?_, List.forall_mem_nil _⟩
    simp only [fetchEach, answer, List.nil_append]

theorem transcript_cons {c : Cursor σ} {t : ArgType} {ts : List ArgType} {s next after : σ}
    {w : t.fetch.Value} {rest : Except Fault (Arguments ts)} {asked : List Fetch}
    (answer : c t.fetch s = (.ok w, next)) (later : c.Transcript ts next rest after asked) :
    c.Transcript (t :: ts) s (rest.map (.cons (t.interpret w))) after (t.fetch :: asked) := by
  refine ⟨?_, ?_, ?_, ?_⟩
  · exact List.cons_prefix_cons.mpr ⟨rfl, later.front⟩
  · simp only [fetchEach, answer]
    exact later.after_eq
  · intro args done
    cases rest with
    | error fault => cases done
    | ok values =>
        cases done
        obtain ⟨whole, given⟩ := later.values values rfl
        refine ⟨congrArg (t.fetch :: ·) whole, ?_⟩
        simp only [fetchEach, answer]
        exact .cons ⟨w, rfl, (t.denotes_iff_interpret w _).mpr rfl⟩ given
  · intro fault failed
    cases rest with
    | ok values => cases failed
    | error found =>
        cases failed
        obtain ⟨answers, k, made, fine⟩ := later.fault fault rfl
        refine ⟨⟨t.fetch, .ok w⟩ :: answers, k, ?_, ?_⟩
        · simp only [fetchEach, answer, made, List.cons_append]
        · exact List.forall_mem_cons.mpr ⟨rfl, fine⟩

theorem transcript_decodeAll (c : Cursor σ) (ts : List ArgType) (s : σ) (earlier : List Fetch) :
    ∃ asked, c.recorded.decodeAll ts (s, earlier)
        = ((c.decodeAll ts s).1, (c.decodeAll ts s).2, earlier ++ asked) ∧
      c.Transcript ts s (c.decodeAll ts s).1 (c.decodeAll ts s).2 asked := by
  induction ts generalizing s earlier with
  | nil => exact ⟨[], by rw [List.append_nil]; rfl, c.transcript_nil s⟩
  | cons t ts ih =>
      cases answer : c t.fetch s with
      | mk fetched next =>
          have called : c.recorded t.fetch (s, earlier) = (fetched, next, earlier ++ [t.fetch]) := by
            simp only [recorded, answer]
          cases fetched with
          | error fault =>
              rw [decodeAll_fault (decode_fault called), decodeAll_fault (decode_fault answer)]
              exact ⟨[t.fetch], rfl, transcript_fault answer⟩
          | ok w =>
              obtain ⟨asked, recording, later⟩ := ih next (earlier ++ [t.fetch])
              rw [decodeAll_cons (decode_value called), decodeAll_cons (decode_value answer),
                recording, List.append_assoc]
              exact ⟨t.fetch :: asked, rfl, transcript_cons answer later⟩

/-- Behind the fault of the second fetch the third is not made. -/
example : (Script.cursor.recorded.decodeAll [.i32, .u64, .f32]
    ([.ok 1, .error (.outOfBounds 16 8)], [])).2 = ([], [.word, .doubleWord]) := rfl

theorem decodeAll_eq_ok_iff (c : Cursor σ) {ts : List ArgType} (s : σ) (args : Arguments ts) :
    (c.decodeAll ts s).1 = .ok args ↔ (c.decodeEach ts s).1 = args.toList.map .ok := by
  induction args generalizing s with
  | nil => exact iff_of_true rfl rfl
  | @cons t ts v rest ih =>
      cases answer : c.decode t s with
      | mk found next =>
          rw [decodeEach_cons answer, Arguments.toList, List.map_cons, List.cons.injEq, ← ih next]
          cases found with
          | error fault => simp [decodeAll_fault answer, Except.map]
          | ok value =>
              rw [decodeAll_cons answer]
              cases (c.decodeAll ts next).1 <;> simp [Except.map]

theorem decodeAll_eq_error_iff (c : Cursor σ) (ts : List ArgType) (s : σ) (fault : Fault) :
    (c.decodeAll ts s).1 = .error fault ↔ ∃ values rest,
      (c.decodeEach ts s).1 = List.map .ok values ++ .error fault :: rest := by
  induction ts generalizing s with
  | nil => simp [decodeAll, decodeEach]
  | cons t ts ih =>
      cases answer : c.decode t s with
      | mk found next =>
          rw [decodeEach_cons answer]
          cases found with
          | error first =>
              rw [decodeAll_fault answer]
              constructor
              · rintro ⟨⟩
                exact ⟨[], _, rfl⟩
              · rintro ⟨values, rest, same⟩
                cases values with
                | nil => exact congrArg Except.error (Except.error.inj (List.cons.inj same).1)
                | cons value values => cases (List.cons.inj same).1
          | ok value =>
              have failed : ((c.decodeAll ts next).1.map (Arguments.cons value)) = .error fault ↔
                  (c.decodeAll ts next).1 = .error fault := by
                cases (c.decodeAll ts next).1 <;> simp [Except.map]
              rw [decodeAll_cons answer, failed, ih]
              constructor
              · rintro ⟨values, rest, same⟩
                exact ⟨⟨t, value⟩ :: values, rest, congrArg _ same⟩
              · rintro ⟨values, rest, same⟩
                cases values with
                | nil => cases (List.cons.inj same).1
                | cons first values => exact ⟨values, rest, (List.cons.inj same).2⟩

theorem decodeAll_append (c : Cursor σ) (first later : List ArgType) (s : σ) :
    c.decodeAll (first ++ later) s = match c.decodeAll first s with
      | (.error fault, s) => (.error fault, s)
      | (.ok values, s) => ((c.decodeAll later s).1.map values.append, (c.decodeAll later s).2) := by
  induction first generalizing s with
  | nil =>
      change c.decodeAll later s = ((c.decodeAll later s).1.map id, (c.decodeAll later s).2)
      cases c.decodeAll later s with
      | mk result after => cases result <;> rfl
  | cons t first ih =>
      cases answer : c.decode t s with
      | mk found next =>
          cases found with
          | error fault =>
              rw [decodeAll_fault answer]
              exact decodeAll_fault answer _
          | ok value =>
              rw [decodeAll_cons answer]
              change c.decodeAll (t :: (first ++ later)) s = _
              rw [decodeAll_cons answer, ih]
              cases c.decodeAll first next with
              | mk result after =>
                  cases result with
                  | error fault => rfl
                  | ok values =>
                      simp only [Except.map]
                      cases (c.decodeAll later after).1 <;> rfl

/-- An argument list is decoded from left to right. Whatever a cursor answers, it is asked exactly once for
each type, in order and up to the first fault, and the result is that fault or the values that the answers
stand for, with no bit of them lost. So a call's arguments are those that its types give in turn on one
cursor, or the first fault among them, and a list may be decoded in two parts, of which the second is left
alone if the first one faults. -/
theorem decodes_left_to_right (c : Cursor σ) (ts : List ArgType) (s : σ) :
    (∃ asked, c.recorded.decodeAll ts (s, [])
        = ((c.decodeAll ts s).1, (c.decodeAll ts s).2, asked) ∧
      c.Transcript ts s (c.decodeAll ts s).1 (c.decodeAll ts s).2 asked) ∧
    (∀ (t : ArgType) (w : t.fetch.Value) (v : t.Value), t.Denotes w v ↔ w = t.represent v) ∧
    (∀ later, c.decodeAll (ts ++ later) s = match c.decodeAll ts s with
      | (.error fault, s) => (.error fault, s)
      | (.ok values, s) =>
        ((c.decodeAll later s).1.map values.append, (c.decodeAll later s).2)) ∧
    ∀ (regs : Registers) (m : Memory),
      (∀ args, O32.decode regs m ts = .ok args ↔
        ((O32.cursor regs m).decodeEach ts {}).1 = args.toList.map .ok) ∧
      ∀ fault, O32.decode regs m ts = .error fault ↔ ∃ values rest,
        ((O32.cursor regs m).decodeEach ts {}).1 = List.map .ok values ++ .error fault :: rest := by
  refine ⟨c.transcript_decodeAll ts s [], ArgType.denotes_iff, ?_, ?_⟩
  · intro later
    exact c.decodeAll_append ts later s
  · intro regs m
    exact ⟨(O32.cursor regs m).decodeAll_eq_ok_iff {}, (O32.cursor regs m).decodeAll_eq_error_iff ts {}⟩

end Cursor

end CallGate
