import Relief.Grid
import Relief.Number

namespace Relief

inductive LatitudeFault where
  | notFinite
  | equal
  | outOfRange
  deriving DecidableEq, Repr

inductive ParameterFault where
  | azimuthNotFinite (azimuth : Float)
  | elevationOutOfRange (elevation : Float)
  | noWorkers
  | notPositive (name : String)
  | strideTooLong (stride maxDistance : Nat)
  deriving DecidableEq

inductive Error where
  | invalidDimensions (shape : Shape)
  | indexOutOfBounds (cell : Cell) (shape : Shape)
  | invalidExtent (xmin xmax ymin ymax : Float)
  | unknownProjection (xmin xmax ymin ymax xdim ydim : Float)
  | mercatorWithGeographic
  | invalidLatitudes (lat1 lat2 : Float) (fault : LatitudeFault)
  | invalidParameter (fault : ParameterFault)
  | allocation (cells : Nat)
  | tooManyWorkers
  /-- The cells of a shape cannot be counted in a machine word. -/
  | shapeOverflow
  /-- More is asked for than memory can address. -/
  | capacityOverflow
  | shortOutput
  deriving DecidableEq

namespace LatitudeFault

def reason : LatitudeFault → String
  | notFinite => "latitudes must be finite"
  | equal => "min & max latitudes cannot be equal"
  | outOfRange => "latitudes must be between -90 and +90 (exclusive)"

end LatitudeFault

namespace ParameterFault

def name : ParameterFault → String
  | azimuthNotFinite _ => "azimuth"
  | elevationOutOfRange _ => "elevation"
  | noWorkers => "workers"
  | notPositive name => name
  | strideTooLong .. => "stride"

def value : ParameterFault → String
  | azimuthNotFinite azimuth => Number.shortest azimuth
  | elevationOutOfRange elevation => Number.shortest elevation
  | noWorkers => "0"
  | notPositive _ => "0"
  | strideTooLong stride _ => toString stride

def reason : ParameterFault → String
  | azimuthNotFinite _ => "sun azimuth must be finite"
  | elevationOutOfRange _ => "sun elevation must be between 0 and 90 degrees"
  | noWorkers => "at least one worker is required"
  | notPositive _ => "must be > 0"
  | strideTooLong _ maxDistance => s!"must not exceed max_distance ({maxDistance})"

end ParameterFault

namespace Error

def box (xmin xmax ymin ymax : Float) : String :=
  let n := Number.shortest
  s!"x [{n xmin}, {n xmax}], y [{n ymin}, {n ymax}]"

def message : Error → String
  | invalidDimensions shape =>
    s!"Invalid raster dimensions: {shape.cols}x{shape.rows}"
  | indexOutOfBounds cell shape =>
    s!"Index out of bounds: ({cell.row}, {cell.col}) in raster of size ({shape.rows}, {shape.cols})"
  | invalidExtent xmin xmax ymin ymax =>
    "Invalid extent: " ++ box xmin xmax ymin ymax
  | unknownProjection xmin xmax ymin ymax xdim ydim =>
    "Unable to determine projection type from extent " ++ box xmin xmax ymin ymax
      ++ " (cell size " ++ Number.shortest xdim ++ " x " ++ Number.shortest ydim ++ ")"
  | mercatorWithGeographic =>
    "Mercator latitudes are invalid for data in geographic coordinates"
  | invalidLatitudes lat1 lat2 fault =>
    s!"Invalid Mercator latitudes {Number.shortest lat1}, {Number.shortest lat2}: {fault.reason}"
  | invalidParameter fault =>
    s!"Invalid parameter: {fault.name} = {fault.value} ({fault.reason})"
  | allocation cells =>
    s!"Insufficient memory for a {cells}-cell output raster"
  | tooManyWorkers => "Worker pool error: Resource temporarily unavailable (os error 11)"
  | shapeOverflow => "ShapeError/Overflow: arithmetic overflow"
  | capacityOverflow => "capacity overflow"
  | shortOutput => "output buffer too short"

end Error

end Relief
