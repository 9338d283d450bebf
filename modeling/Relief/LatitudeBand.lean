import Relief.Error
import Relief.Binary

namespace Relief

structure LatitudeBand where
  south : Float
  north : Float
  pole_lt_south : -90.0 < south
  south_lt_north : south < north
  north_lt_pole : north < 90.0
  deriving DecidableEq

namespace LatitudeBand

/-- The band between two latitudes, given in either order. -/
def ofPair (lat1 lat2 : Float) : Except Error LatitudeBand :=
  if !lat1.isFinite || !lat2.isFinite then
    .error (.invalidLatitudes lat1 lat2 .notFinite)
  else if h : lat1 < lat2 then
    within lat1 lat2 h
  else if h : lat2 < lat1 then
    within lat2 lat1 h
  else
    .error (.invalidLatitudes lat1 lat2 .equal)
where
  within (south north : Float) (h : south < north) : Except Error LatitudeBand :=
    if hs : -90.0 < south then
      if hn : north < 90.0 then
        .ok ⟨south, north, hs, h, hn⟩
      else
        .error (.invalidLatitudes lat1 lat2 .outOfRange)
    else
      .error (.invalidLatitudes lat1 lat2 .outOfRange)

def middle (b : LatitudeBand) : Float :=
  0.5 * (b.south + b.north)

end LatitudeBand

end Relief
