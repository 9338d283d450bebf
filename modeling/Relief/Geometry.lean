import Relief.Logged

namespace Relief

structure Geometry where
  projection : Projection
  /-- The spacing in units of the extent. -/
  native : Spacing Float
  /-- The spacing in ground units. -/
  ground : Spacing Float
  advisories : List (Advisory Float)

namespace Geometry

def project (extent : Extent Float) (native : Spacing Float) (mercator : Option LatitudeBand) :
    Except Error Projection :=
  match Projection.classify extent native, mercator with
  | .unknown, _ =>
    .error (.unknownProjection extent.xmin extent.xmax extent.ymin extent.ymax native.x native.y)
  | .geographic, some _ => .error .mercatorWithGeographic
  | _, some band => .ok (.mercator band)
  | projection, none => .ok projection

/-- Degrees are measured at the centre latitude; a Mercator map is reduced by its scale at the
middle latitude. -/
def groundSpacing [Trig Float] (extent : Extent Float) (native : Spacing Float) :
    Projection → Spacing Float
  | .geographic =>
    let degree := Ellipsoid.degreeLengths extent.centerY
    ⟨native.x * degree.1, native.y * degree.2⟩
  | .mercator band =>
    let scale := Trig.cos (toRadians band.middle)
    ⟨native.x * scale, native.y * scale⟩
  | .projected => native
  | .unknown => native

/-- Resolves a grid from its box, shape and declared latitudes; reports the result and the
advisories. -/
def resolve [Trig Float] (extent : Extent Float) (shape : Shape)
    (mercator : Option LatitudeBand) : Logged Geometry := do
  if shape.isEmpty then Logged.fail (.invalidDimensions shape)
  let native := extent.spacing shape
  unless 0.0 < native.x ∧ 0.0 < native.y do
    Logged.fail (.invalidExtent extent.xmin extent.xmax extent.ymin extent.ymax)
  let projection ← .ofExcept (project extent native mercator)
  let ground := groundSpacing extent native projection
  let advisories := (Advisory.ofSize extent projection).toList
  Logged.report [.geometryResolved projection shape ground.aspect]
  Logged.report (advisories.map .advisory)
  return ⟨projection, native, ground, advisories⟩

end Geometry

end Relief
