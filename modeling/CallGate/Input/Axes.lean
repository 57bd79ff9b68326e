import CallGate.Floating

/-! Stick deflections, each axis kept within `[-1, 1]`. -/

namespace CallGate

structure Axes where
  x : Single
  y : Single
deriving DecidableEq, Repr

def Axes.rest : Axes := ⟨Single.zero, Single.zero⟩

/-- Clamps to the unit interval; a NaN becomes the rest position. -/
def Single.normalized (v : Single) : Single :=
  if v.isNaN then Single.zero else v.clamp Single.minusOne Single.one

def Axes.normalized (a : Axes) : Axes := ⟨a.x.normalized, a.y.normalized⟩

end CallGate
