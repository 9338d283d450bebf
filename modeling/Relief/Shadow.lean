import Relief.Analysis
import Relief.Shadow.March
import Relief.Shadow.Params
import Relief.Shadow.Sweep
import Relief.WorkerPool

namespace Relief

/-- The shade of a raster. An exact run writes 1 for a void, a sweep 0. -/
structure Shade where
  raster : Raster Float32
  software : String
  advisories : List (Advisory Float)

namespace Shadow

def shadeBlock (shape : Shape) (shade : Cell → Float) (block : RowBlock) (part : Array Float32) :
    Array Float32 :=
  part.mapIdx fun i _ => Sample.ofFloat (shade (block.cellAt shape i))

def shadeCells [Resources] (shape : Shape) (shade : Cell → Float) (workers : Nat) :
    Logged (Array Float32) := do
  let blank ← .ofExcept (Raster.buffer shape (0.0 : Float32))
  let pool ← .ofExcept (WorkerPool.ofWorkers workers)
  pool.run shape blank (shadeBlock shape shade)

def exactCells [Trig Float] [Resources] (terrain : Terrain Float) (sun : Sun Float)
    (highest : Option Float) (workers : Nat) : Logged (Array Float32) :=
  shadeCells terrain.shape (exactShade terrain sun.toMotion sun.z highest) workers

/-- A depth as a cell; a cell that no sweep reached is lit, and so is one whose depth is no
number. -/
def depthCell (depth : Option Float) : Float32 :=
  let v : Float32 := Sample.ofFloat (depth.getD 0.0)
  if v.isNaN then 0.0 else v

/-- The depths of all cells, swept within the budget of the sun. -/
def depthCells [Resources] (shape : Shape) (sun : Sun Float) (edges : Edges)
    (depths : Nat → Array (Option Float)) : Logged (Array Float32) := do
  let blank ← .ofExcept (Raster.buffer shape (0.0 : Float32))
  match budget? sun.toMotion shape edges with
  | none =>
    Logged.report [.sunOverhead]
    return blank
  | some budget =>
    let swept := depths budget
    Logged.report [.sweepsDone budget edges]
    return swept.map depthCell

def sweptCells [Resources] (terrain : Terrain Float) (sun : Sun Float) (highest : Option Float)
    (edges : Edges) : Logged (Array Float32) :=
  depthCells terrain.shape sun edges (sweptDepths terrain sun.toMotion sun.z highest edges)

def cast [Trig Float] [Resources] (dem : Raster Float32) (params : ShadowParams) :
    Logged Shade := do
  .ofExcept params.validate
  let geometry ← Geometry.resolve dem.extent dem.shape params.mercator
  let stats := dem.statistics
  let advisories ← Analysis.advise geometry stats.void
  let lowest := stats.lowest.map Sample.toFloat
  let highest := stats.highest.map Sample.toFloat
  let sun := Sun.ofPosition geometry.ground params.azimuth params.elevation
  Logged.report [.castingShadows dem.shape params.method params.azimuth params.elevation
    lowest highest stats.valid]
  let cells ←
    match params.method with
    | .exact => shadeCells dem.shape (dem.exactShade sun.toMotion sun.z highest) params.workers
    | .fastSweep edges =>
      depthCells dem.shape sun edges (dem.sweptDepths sun.toMotion sun.z highest edges)
  let raster ← .ofExcept (Raster.ofElevations cells dem.shape dem.extent)
  return ⟨raster, Analysis.software, advisories⟩

def analysis [Trig Float] [Resources] : Analysis ShadowParams Shade where
  name := "Shadow"
  description := "Cast terrain shadows for a sun position"
  standard := .standard
  execute := cast

end Shadow

end Relief
