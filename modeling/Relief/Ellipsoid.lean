import Relief.Scalar

namespace Relief.Ellipsoid

variable {α : Type} [Sub α] [Mul α] [Div α] [OfScientific α] [Trig α]

def semiMajor : α := 6378137.0

def eccentricity2 : α := 0.00669437999014

/-- The metres in a degree of longitude and in a degree of latitude, at a latitude in degrees: the
arcs of the prime vertical and meridional radii of curvature. -/
def degreeLengths (latitude : α) : α × α :=
  let φ := toRadians latitude
  let w := 1.0 - eccentricity2 * Trig.sin φ * Trig.sin φ
  let primeVertical := semiMajor / Trig.sqrt w
  let meridional := semiMajor * (1.0 - eccentricity2) / (w * Trig.sqrt w)
  let perDegree := Trig.pi / 180.0
  (primeVertical * Trig.cos φ * perDegree, meridional * perDegree)

def aspect (latitude : α) : α :=
  let lengths := degreeLengths latitude
  lengths.1 / lengths.2

end Relief.Ellipsoid
