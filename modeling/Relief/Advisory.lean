import Relief.Ellipsoid
import Relief.Projection

namespace Relief

inductive Advisory (α : Type) where
  /-- The cells at the poleward edge are too much narrower than those at the centre. -/
  | geographicTooTall (centerAspect edgeAspect : α)
  /-- A projected map exceeds the size at which its scale can be taken as constant. -/
  | projectedTooLarge (width height : α)
  | voidCells (count : Nat)
  deriving DecidableEq

namespace Advisory

section

variable {α : Type} [Add α] [Sub α] [Mul α] [Div α] [Neg α] [LT α] [LE α] [DecidableLT α]
  [DecidableLE α] [OfScientific α] [Trig α]

def polewardEdge (extent : Extent α) : α :=
  if -extent.ymin ≤ extent.ymax then extent.ymax else extent.ymin

def ofSize (extent : Extent α) : Projection → Option (Advisory α)
  | .geographic =>
    let center := Ellipsoid.aspect extent.centerY
    let edge := Ellipsoid.aspect (polewardEdge extent)
    if edge < center * (15.0 / 16.0) then some (.geographicTooTall center edge) else none
  | .projected =>
    if 1000000.0 < extent.height ∨ 1000000.0 < extent.width then
      some (.projectedTooLarge extent.width extent.height)
    else none
  | .mercator _ => none
  | .unknown => none

end

def message : Advisory Float → String
  | geographicTooTall center edge =>
    "Map area too large: aspect " ++ Number.fixed 3 edge ++ " at the poleward edge vs "
      ++ Number.fixed 3 center ++ " at the centre (small-scale maps require data in Mercator "
      ++ "projection); this will degrade the quality of the result"
  | projectedTooLarge width height =>
    "Map area too large (" ++ Number.fixed 0 width ++ " x " ++ Number.fixed 0 height
      ++ " units; small-scale maps require Mercator latitudes); "
      ++ "this will degrade the quality of the result"
  | voidCells count => s!"Input contains {count} void (NODATA) cells"

end Advisory

end Relief
