import Relief.Document
import Relief.Extent
import Relief.Openness.Params
import Relief.Shadow.Params

namespace Relief

namespace Edges

def encode (e : Edges) : Document :=
  .text e.label

/-- A name, alone or as the key of a null. -/
def decode : Document → Except Refusal Edges
  | .text "Periodic" => .ok .periodic
  | .text "Bounded" => .ok .bounded
  | .record [("Periodic", .null)] => .ok .periodic
  | .record [("Bounded", .null)] => .ok .bounded
  | _ => .error .form

end Edges

namespace ShadowMethod

def encode : ShadowMethod → Document
  | exact => .text "Exact"
  | fastSweep edges => .record [("FastSweep", edges.encode)]

def decode : Document → Except Refusal ShadowMethod
  | .text "Exact" => .ok .exact
  | .record [("Exact", .null)] => .ok .exact
  | .record [("FastSweep", edges)] => fastSweep <$> Edges.decode edges
  | _ => .error .form

end ShadowMethod

namespace LatitudeBand

def encode (b : LatitudeBand) : Document :=
  .list [.real b.south, .real b.north]

def decode : Document → Except Refusal LatitudeBand
  | .list [lat1, lat2] => do
    let lat1 ← lat1.toReal
    let lat2 ← lat2.toReal
    match ofPair lat1 lat2 with
    | .ok band => .ok band
    | .error cause => .error (.content cause)
  | _ => .error .form

def encodeOption : Option LatitudeBand → Document
  | none => .null
  | some band => band.encode

end LatitudeBand

namespace Extent

def fields (e : Extent Float) : List (String × Document) :=
  [("xmin", .real e.xmin), ("xmax", .real e.xmax), ("ymin", .real e.ymin), ("ymax", .real e.ymax)]

def encode (e : Extent Float) : Document :=
  .record e.fields

def setField (name : String) (d : Document) (e : Extent (Option Float)) :
    Except Refusal (Extent (Option Float)) :=
  match name with
  | "xmin" => do return { e with xmin := some (← d.toReal) }
  | "xmax" => do return { e with xmax := some (← d.toReal) }
  | "ymin" => do return { e with ymin := some (← d.toReal) }
  | "ymax" => do return { e with ymax := some (← d.toReal) }
  | _ => .ok e

/-- All four bounds, which are not compared with each other. -/
def decode (d : Document) : Except Refusal (Extent Float) := do
  let blank : Extent (Option Float) := ⟨none, none, none, none⟩
  match ← d.override ["xmin", "xmax", "ymin", "ymax"] setField blank with
  | ⟨some xmin, some xmax, some ymin, some ymax⟩ => .ok ⟨xmin, xmax, ymin, ymax⟩
  | _ => .error .form

end Extent

namespace ShadowParams

def fields (p : ShadowParams) : List (String × Document) :=
  [("azimuth", .real p.azimuth), ("elevation", .real p.elevation), ("algorithm", p.method.encode),
    ("mercator", LatitudeBand.encodeOption p.mercator), ("workers", .whole p.workers)]

def encode (p : ShadowParams) : Document :=
  .record p.fields

def setField (name : String) (d : Document) (p : ShadowParams) : Except Refusal ShadowParams :=
  match name with
  | "azimuth" => do return { p with azimuth := ← d.toReal }
  | "elevation" => do return { p with elevation := ← d.toReal }
  | "algorithm" => do return { p with method := ← ShadowMethod.decode d }
  | "mercator" => do return { p with mercator := ← d.toOption LatitudeBand.decode }
  | "workers" => do return { p with workers := ← d.toCount }
  | _ => .ok p

def decode (workers : Nat) (d : Document) : Except Refusal ShadowParams :=
  d.override ["azimuth", "elevation", "algorithm", "mercator", "workers"] setField
    (standard workers)

end ShadowParams

namespace OpennessParams

def fields (p : OpennessParams) : List (String × Document) :=
  [("directions", .whole p.directions), ("stride", .whole p.stride),
    ("max_distance", .whole p.maxDistance), ("mercator", LatitudeBand.encodeOption p.mercator),
    ("workers", .whole p.workers)]

def encode (p : OpennessParams) : Document :=
  .record p.fields

def setField (name : String) (d : Document) (p : OpennessParams) : Except Refusal OpennessParams :=
  match name with
  | "directions" => do return { p with directions := ← d.toCount }
  | "stride" => do return { p with stride := ← d.toCount }
  | "max_distance" => do return { p with maxDistance := ← d.toCount }
  | "mercator" => do return { p with mercator := ← d.toOption LatitudeBand.decode }
  | "workers" => do return { p with workers := ← d.toCount }
  | _ => .ok p

def decode (workers : Nat) (d : Document) : Except Refusal OpennessParams :=
  d.override ["directions", "stride", "max_distance", "mercator", "workers"] setField
    (standard workers)

end OpennessParams

end Relief
