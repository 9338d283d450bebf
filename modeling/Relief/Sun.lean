import Relief.Bearing

namespace Relief

/-- A horizontal step over a grid: columns east and rows south. -/
structure Motion (α : Type) where
  x : α
  y : α
  deriving DecidableEq

structure Sun (α : Type) extends Motion α where
  /-- The rise, in elevation units. -/
  z : α
  deriving DecidableEq

def Sun.ofPosition {α : Type} [Add α] [Mul α] [Div α] [Neg α] [LT α] [LE α] [DecidableLT α]
    [DecidableLE α] [OfScientific α] [Trig α] [Whole α]
    (spacing : Spacing α) (azimuth elevation : α) : Sun α :=
  let direction := Direction.ofBearing spacing (wrapped azimuth 360.0)
  let height := toRadians elevation
  { x := direction.dx * Trig.cos height
    y := direction.dy * Trig.cos height
    z := Trig.sin height * direction.groundStep }

end Relief
