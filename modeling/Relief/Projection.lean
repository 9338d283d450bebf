import Relief.Extent
import Relief.LatitudeBand

namespace Relief

inductive Projection where
  | geographic
  | projected
  | mercator (band : LatitudeBand)
  /-- The extent fits neither reading. -/
  | unknown
  deriving DecidableEq

namespace Projection

def isGeographic : Projection → Bool
  | geographic => true
  | _ => false

/-- Small cells inside the globe are degrees; a box beyond the globe both ways is projected.
Mercator is never told from a box. -/
def classify {α : Type} [Neg α] [LT α] [DecidableLT α] [OfScientific α]
    (extent : Extent α) (cell : Spacing α) : Projection :=
  let small := magnitude cell.y < 0.02 ∧ magnitude cell.x < 0.02
  let within :=
    -180.01 < extent.xmin ∧ extent.xmax < 180.01 ∧ -90.01 < extent.ymin ∧ extent.ymax < 90.01
  let beyondX := extent.xmin < -181.0 ∨ 181.0 < extent.xmax
  let beyondY := extent.ymin < -91.0 ∨ 91.0 < extent.ymax
  if small ∧ within then geographic
  else if beyondX ∧ beyondY then projected
  else unknown

def label : Projection → String
  | geographic => "Geographic"
  | projected => "Projected"
  | mercator band =>
    "ProjectedMercator(MercatorBounds \x7b south: " ++ Number.pointed band.south
      ++ ", north: " ++ Number.pointed band.north ++ " \x7d)"
  | unknown => "Unknown"

end Projection

end Relief
