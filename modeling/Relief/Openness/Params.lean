import Relief.Error
import Relief.LatitudeBand

namespace Relief

structure OpennessParams where
  directions : Nat
  /-- The distance between samples, in cells. -/
  stride : Nat
  /-- How far a profile reaches, in cells. -/
  maxDistance : Nat
  mercator : Option LatitudeBand
  workers : Nat
  deriving DecidableEq

namespace OpennessParams

def standard (workers : Nat) : OpennessParams :=
  ⟨8, 5, 45, none, workers⟩

def counts (p : OpennessParams) : List (String × Nat) :=
  [("directions", p.directions), ("stride", p.stride), ("max_distance", p.maxDistance),
    ("workers", p.workers)]

def validate (p : OpennessParams) : Except Error Unit :=
  match p.counts.find? (·.2 = 0) with
  | some (name, _) => .error (.invalidParameter (.notPositive name))
  | none =>
    if p.maxDistance < p.stride then
      .error (.invalidParameter (.strideTooLong p.stride p.maxDistance))
    else
      .ok ()

end OpennessParams

end Relief
