import Relief.Advisory
import Relief.RowBlock
import Relief.Shadow.Method

namespace Relief

inductive Level where
  | debug
  | info
  | warn
  deriving DecidableEq, Repr

inductive Field where
  | count (n : Nat)
  | number (x : Float)
  | text (s : String)
  deriving DecidableEq

inductive Event where
  | geometryResolved (projection : Projection) (shape : Shape) (pixelAspect : Float)
  | advisory (finding : Advisory Float)
  | castingShadows (shape : Shape) (method : ShadowMethod) (azimuth elevation : Float)
      (lowest highest : Option Float) (validCells : Nat)
  | scanningHorizons (shape : Shape) (directions stride maxDistance workers : Nat)
  | sweepsDone (budget : Nat) (edges : Edges)
  | sunOverhead
  | blockDone (block : RowBlock)
  deriving DecidableEq

namespace Event

def level : Event → Level
  | geometryResolved .. => .info
  | advisory _ => .warn
  | castingShadows .. => .info
  | scanningHorizons .. => .info
  | sweepsDone .. => .debug
  | sunOverhead => .debug
  | blockDone _ => .debug

def message : Event → String
  | geometryResolved .. => "resolved grid geometry"
  | advisory finding => finding.message
  | castingShadows .. => "casting shadows"
  | scanningHorizons .. => "scanning horizons"
  | sweepsDone .. => "edge sweeps done"
  | sunOverhead => "sun overhead, nothing to sweep"
  | blockDone _ => "row block done"

/-- A missing lowest elevation is written as no number, a missing highest one as lying below all
numbers. -/
def fields : Event → List (String × Field)
  | geometryResolved projection shape pixelAspect =>
    [("projection", .text projection.label), ("rows", .count shape.rows),
      ("cols", .count shape.cols), ("pixel_aspect", .number pixelAspect)]
  | advisory _ => []
  | castingShadows shape method azimuth elevation lowest highest validCells =>
    [("rows", .count shape.rows), ("cols", .count shape.cols), ("algorithm", .text method.label),
      ("azimuth", .number azimuth), ("elevation", .number elevation),
      ("z_min", .number (lowest.getD (0.0 / 0.0))), ("z_max", .number (highest.getD (-1.0 / 0.0))),
      ("valid_cells", .count validCells)]
  | scanningHorizons shape directions stride maxDistance workers =>
    [("rows", .count shape.rows), ("cols", .count shape.cols), ("directions", .count directions),
      ("stride", .count stride), ("max_distance", .count maxDistance), ("workers", .count workers)]
  | sweepsDone budget edges => [("budget", .count budget), ("edges", .text edges.label)]
  | sunOverhead => []
  | blockDone block => [("worker", .text block.workerName), ("rows", .text block.span)]

end Event

end Relief
