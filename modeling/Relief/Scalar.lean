namespace Relief

/-- Whole numbers near a scalar. With these and with `Trig` one definition is run on binary64 and
read over exact numbers. -/
class Whole (α : Type) where
  /-- Holds of every number; fails on infinities and on what is not a number. -/
  isFinite : α → Bool
  /-- The nearest whole number, a half going away from zero. -/
  nearest : α → α
  ceil : α → α
  /-- The whole part, cut off toward zero. -/
  toInt : α → Int
  /-- What the quotient cut off toward zero leaves over; it has the sign of the dividend. -/
  remainder : α → α → α

class Trig (α : Type) where
  pi : α
  sin : α → α
  cos : α → α
  atan : α → α
  /-- The angle of the point `(x, y)`, given as `atan2 y x`. -/
  atan2 : α → α → α
  log : α → α
  sqrt : α → α
  hypot : α → α → α

section

variable {α : Type} [Mul α] [Div α] [OfScientific α] [Trig α]

def toRadians (degrees : α) : α :=
  degrees * (Trig.pi / 180.0)

def toDegrees (radians : α) : α :=
  radians * (180.0 / Trig.pi)

end

@[inline]
def magnitude {α : Type} [Neg α] [LT α] [DecidableLT α] [OfScientific α] (x : α) : α :=
  if x < 0.0 then -x else x

def wrapped {α : Type} [Add α] [LT α] [DecidableLT α] [OfScientific α] [Whole α]
    (x modulus : α) : α :=
  let r := Whole.remainder x modulus
  if r < 0.0 then r + modulus else r

end Relief
