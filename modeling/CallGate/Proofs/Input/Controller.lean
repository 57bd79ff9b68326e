import CallGate.Input.Source

/-! A controller and its updates.

Whatever a frontend sets, an axis reads as a number from `-1` to `1`. A controller that starts neutral is
no more than the last mask and the last two deflections that were set on it (`foldl_apply_neutral`). -/

namespace CallGate

/-- A number in `[-1, 1]`, told by its bits. -/
def Single.InUnit (v : Single) : Prop := v.isNaN = false ∧ v.magnitude ≤ 0x3f800000

instance (v : Single) : Decidable v.InUnit := inferInstanceAs (Decidable (_ ∧ _))

def Axes.InSquare (a : Axes) : Prop := a.x.InUnit ∧ a.y.InUnit

instance (a : Axes) : Decidable a.InSquare := inferInstanceAs (Decidable (_ ∧ _))

namespace Single

theorem lt_iff {a b : Single} (left : a.isNaN = false) (right : b.isNaN = false) :
    a.lt b = true ↔ a.rank < b.rank := by
  simp only [lt, left, right, Bool.not_false, Bool.true_and, decide_eq_true_eq]

theorem inUnit_iff {v : Single} (number : v.isNaN = false) :
    v.InUnit ↔ minusOne.rank ≤ v.rank ∧ v.rank ≤ one.rank := by
  have low : minusOne.rank = -0x3f800000 := by decide
  have high : one.rank = 0x3f800000 := by decide
  have magnitude : v.magnitude ≤ 0x3f800000 ↔ v.magnitude.toNat ≤ 0x3f800000 :=
    UInt32.le_iff_toNat_le
  rw [InUnit, magnitude, low, high, rank]
  simp only [number, true_and]
  split <;> omega

theorem inUnit_clamp {v : Single} (number : v.isNaN = false) :
    (v.clamp minusOne one).InUnit := by
  have limits : minusOne.isNaN = false ∧ one.isNaN = false := by decide
  unfold clamp
  split
  · decide
  · next above =>
    split
    · decide
    · next below =>
      rw [lt_iff number limits.1, Int.not_lt] at above
      rw [lt_iff limits.2 number, Int.not_lt] at below
      exact (inUnit_iff number).mpr ⟨above, below⟩

theorem inUnit_normalized (v : Single) : v.normalized.InUnit := by
  unfold normalized
  split
  · decide
  · next number => exact inUnit_clamp (Bool.eq_false_iff.mpr number)

end Single

theorem Axes.inSquare_normalized (a : Axes) : a.normalized.InSquare :=
  ⟨a.x.inUnit_normalized, a.y.inUnit_normalized⟩

theorem Axes.inSquare_rest : Axes.rest.InSquare := by
  decide

def lastOf {α β : Type} (part : β → Option α) (entries : List β) : Option α :=
  entries.reverse.findSome? part

theorem lastOf_cons {α β : Type} (part : β → Option α) (e : β) (entries : List β) :
    lastOf part (e :: entries) = (lastOf part entries).or (part e) := by
  simp [lastOf, List.findSome?_append]

inductive Update
  | buttons (held : UInt32)
  | left (axes : Axes)
  | right (axes : Axes)

namespace Update

def apply (c : Controller) : Update → Controller
  | buttons held => c.setButtons held
  | left axes => c.setLeft axes
  | right axes => c.setRight axes

def buttons? : Update → Option UInt32
  | buttons held => some held
  | _ => none

def left? : Update → Option Axes
  | left axes => some axes
  | _ => none

def right? : Update → Option Axes
  | right axes => some axes
  | _ => none

variable {α : Type}

theorem foldl_apply (part : Update → Option α) (get : Controller → α)
    (sets : ∀ c u, get (apply c u) = (part u).getD (get c)) (c : Controller)
    (updates : List Update) :
    get (updates.foldl apply c) = (lastOf part updates).getD (get c) := by
  induction updates generalizing c with
  | nil => rfl
  | cons u updates ih =>
      rw [List.foldl_cons, ih, sets, lastOf_cons]
      cases lastOf part updates <;> rfl

theorem foldl_apply_stick (part : Update → Option Axes) (get : Controller → Axes)
    (sets : ∀ c u, get (apply c u) = ((part u).map Axes.normalized).getD (get c)) (c : Controller)
    (updates : List Update) :
    get (updates.foldl apply c) = ((lastOf part updates).map Axes.normalized).getD (get c) := by
  rw [foldl_apply _ get sets, lastOf, lastOf, List.map_findSome?]
  rfl

theorem foldl_apply_neutral (updates : List Update) :
    updates.foldl apply {} =
      { buttons := (lastOf buttons? updates).getD 0
        left := ((lastOf left? updates).map Axes.normalized).getD Axes.rest
        right := ((lastOf right? updates).map Axes.normalized).getD Axes.rest } := by
  have buttons := foldl_apply buttons? Controller.buttons (by intro c u; cases u <;> rfl) {} updates
  have left := foldl_apply_stick left? Controller.left (by intro c u; cases u <;> rfl) {} updates
  have right := foldl_apply_stick right? Controller.right (by intro c u; cases u <;> rfl) {} updates
  rw [← buttons, ← left, ← right]

theorem inSquare_lastOf (part : Update → Option Axes) (updates : List Update) :
    (((lastOf part updates).map Axes.normalized).getD Axes.rest).InSquare := by
  cases lastOf part updates with
  | none => exact Axes.inSquare_rest
  | some axes => exact axes.inSquare_normalized

end Update

end CallGate
