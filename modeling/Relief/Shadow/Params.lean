import Relief.Error
import Relief.LatitudeBand
import Relief.Shadow.Method

namespace Relief

structure ShadowParams where
  /-- The azimuth of the sun, in degrees clockwise from north. -/
  azimuth : Float
  /-- The elevation of the sun above the horizon, in degrees. -/
  elevation : Float
  method : ShadowMethod
  mercator : Option LatitudeBand
  workers : Nat
  deriving DecidableEq

namespace ShadowParams

def standard (workers : Nat) : ShadowParams :=
  ⟨315.0, 45.0, .exact, none, workers⟩

def validate (p : ShadowParams) : Except Error Unit :=
  if !p.azimuth.isFinite then
    .error (.invalidParameter (.azimuthNotFinite p.azimuth))
  else if ¬ (0.0 ≤ p.elevation ∧ p.elevation ≤ 90.0) then
    .error (.invalidParameter (.elevationOutOfRange p.elevation))
  else if p.workers = 0 then
    .error (.invalidParameter .noWorkers)
  else
    .ok ()

end ShadowParams

end Relief
