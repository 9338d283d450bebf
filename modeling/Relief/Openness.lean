import Relief.Analysis
import Relief.Openness.Mean
import Relief.Openness.Params
import Relief.WorkerPool

namespace Relief

/-- The openness of a raster. Voids and cells none of whose horizons count are void. -/
structure SkyView where
  positive : Raster Float32
  negative : Raster Float32
  software : String
  advisories : List (Advisory Float)

namespace Openness

def sideCell (side : Option Float) : Float32 :=
  match side with
  | none => Sample.void
  | some v => Sample.ofFloat v

/-- Writes both sides of the openness of a cell of a block. The horizons of the cell before make
room for its own. -/
def writeSides [Trig Float] (shape : Shape)
    (profile : Array (Option (Horizon Float)) → Cell → Array (Option (Horizon Float)))
    (block : RowBlock)
    (state : Array (Option (Horizon Float)) × Array Float32 × Array Float32) (i : Nat) :
    Array (Option (Horizon Float)) × Array Float32 × Array Float32 :=
  let horizons := profile state.1 (block.cellAt shape i)
  let sides := ofHorizons horizons
  (horizons, state.2.1.setIfInBounds i (sideCell sides.positive),
    state.2.2.setIfInBounds i (sideCell sides.negative))

def sidesBlock [Trig Float] (shape : Shape)
    (profile : Array (Option (Horizon Float)) → Cell → Array (Option (Horizon Float)))
    (block : RowBlock) (part : Array Float32 × Array Float32) : Array Float32 × Array Float32 :=
  ((List.range (block.size * shape.cols)).foldl (writeSides shape profile block) (#[], part)).2

def sidesCells [Trig Float] [Resources] (shape : Shape)
    (profile : Array (Option (Horizon Float)) → Cell → Array (Option (Horizon Float)))
    (workers : Nat) : Logged (Array Float32 × Array Float32) := do
  let positive ← .ofExcept (Raster.buffer shape (Sample.void : Float32))
  let negative ← .ofExcept (Raster.buffer shape (Sample.void : Float32))
  let pool ← .ofExcept (WorkerPool.ofWorkers workers)
  pool.run shape (positive, negative) (sidesBlock shape profile)

def scan [Trig Float] [Resources] (dem : Raster Float32) (params : OpennessParams) :
    Logged SkyView := do
  .ofExcept params.validate
  let geometry ← Geometry.resolve dem.extent dem.shape params.mercator
  let advisories ← Analysis.advise geometry dem.statistics.void
  let directions ← .ofExcept (Direction.rose params.directions geometry.ground)
  Logged.report
    [.scanningHorizons dem.shape params.directions params.stride params.maxDistance params.workers]
  let (positive, negative) ← sidesCells dem.shape
    (fun buffer cell =>
      dem.profileInto buffer cell directions params.stride params.maxDistance)
    params.workers
  let positive ← .ofExcept (Raster.ofElevations positive dem.shape dem.extent)
  let negative ← .ofExcept (Raster.ofElevations negative dem.shape dem.extent)
  return ⟨positive, negative, Analysis.software, advisories⟩

def analysis [Trig Float] [Resources] : Analysis OpennessParams SkyView where
  name := "SkyViewFactor"
  description := "Positive and negative openness from multi-directional horizon scans"
  standard := .standard
  execute := scan

end Openness

end Relief
