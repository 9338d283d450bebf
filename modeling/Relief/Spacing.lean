import Relief.Scalar

namespace Relief

/-- The distances between adjacent columns (`x`) and adjacent rows (`y`). -/
structure Spacing (α : Type) where
  x : α
  y : α
  deriving DecidableEq

namespace Spacing

variable {α : Type}

def length [Mul α] [Trig α] (s : Spacing α) (dx dy : α) : α :=
  Trig.hypot (s.x * dx) (s.y * dy)

def aspect [Div α] (s : Spacing α) : α :=
  s.x / s.y

end Spacing

end Relief
