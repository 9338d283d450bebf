import Relief.Resources
import Relief.Spacing

namespace Relief

variable {α : Type} [Add α] [Mul α] [Div α] [Neg α] [LT α] [LE α] [DecidableLT α] [DecidableLE α]
  [OfScientific α] [Trig α] [Whole α]

/-- The bearing in grid space, from 0 up to but not including 360 degrees, of a bearing on the
ground. -/
def gridBearing (spacing : Spacing α) (bearing : α) : α :=
  let azimuth := toRadians bearing
  let turned := Trig.atan2 (spacing.y * Trig.sin azimuth) (spacing.x * Trig.cos azimuth)
  let degrees := wrapped (toDegrees turned) 360.0
  if 360.0 ≤ degrees then 0.0 else degrees

/-- One step along a ray: columns east, rows south, and its length on the ground. -/
structure Direction (α : Type) where
  dx : α
  dy : α
  groundStep : α
  deriving DecidableEq

namespace Direction

def ofBearing (spacing : Spacing α) (bearing : α) : Direction α :=
  let θ := toRadians (gridBearing spacing bearing)
  let dx := Trig.sin θ
  let dy := -Trig.cos θ
  ⟨dx, dy, spacing.length dx dy⟩

def width : Nat := 24

/-- Directions of equally spaced bearings, from north on clockwise. -/
def rose [NatCast α] (count : Nat) (spacing : Spacing α) : Except Error (List (Direction α)) :=
  tabulate count width fun i => ofBearing spacing (360.0 * (i : α) / (count : α))

end Direction

end Relief
