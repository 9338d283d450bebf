import Relief.Geometry
import Relief.Raster

namespace Relief

structure Analysis (π ρ : Type) where
  name : String
  description : String
  standard : Nat → π
  execute : Raster Float32 → π → Logged ρ

namespace Analysis

def executeStandard {π ρ : Type} (a : Analysis π ρ) (workers : Nat) (dem : Raster Float32) :
    Logged ρ :=
  a.execute dem (a.standard workers)

def softwareName : String := "SkyShade"

def software : String := softwareName ++ " v0.1.0"

/-- The findings on a run, those of the geometry first; voids are reported here. -/
def advise (geometry : Geometry) (voids : Nat) : Logged (List (Advisory Float)) := do
  if voids = 0 then return geometry.advisories
  Logged.report [.advisory (.voidCells voids)]
  return geometry.advisories ++ [.voidCells voids]

end Analysis

end Relief
