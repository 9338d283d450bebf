import Relief.Bearing
import Relief.Terrain
import Relief.Walk

namespace Relief

/-- The steepest angles of a profile, in radians: upward, and downward as a negative angle. -/
structure Horizon (α : Type) where
  upper : α
  lower : α
  deriving DecidableEq

namespace Horizon

section

variable {α : Type} [LT α] [LE α] [DecidableLT α] [DecidableLE α]

/-- The range of angles widened by one more; what is not a number is passed over. -/
@[inline]
def widen (range : Option (Horizon α)) (angle : α) : Option (Horizon α) :=
  match range with
  | none => if angle ≤ angle then some ⟨angle, angle⟩ else none
  | some h =>
    some ⟨if h.upper < angle then angle else h.upper, if angle < h.lower then angle else h.lower⟩

def clamp [OfScientific α] (h : Horizon α) : Horizon α :=
  ⟨if h.upper < 0.0 then 0.0 else h.upper, if 0.0 < h.lower then 0.0 else h.lower⟩

end

section

variable {α : Type} [Add α] [Sub α] [Mul α] [Div α] [LT α] [LE α] [DecidableLT α] [DecidableLE α]
  [NatCast α] [OfScientific α] [Whole α] [Trig α]

@[inline]
def placeAt (direction : Direction α) (base : Cell) (d : Nat) : Position α :=
  ⟨(base.col : α) + direction.dx * (d : α), (base.row : α) + direction.dy * (d : α)⟩

/-- The range of the angles seen from height `z` at the multiples of `stride` up to `maxDistance`,
as far as they lie in the grid; voids are skipped. -/
@[specialize]
def angles (terrain : Terrain α) (base : Cell) (z : α) (direction : Direction α)
    (stride maxDistance : Nat) : Option (Horizon α) :=
  (walk (fun d => terrain.shape.nearest (placeAt direction base d))
    (· + stride)
    (fun d c range =>
      match terrain.height c with
      | none => some range
      | some height =>
        some (widen range (Trig.atan ((height - z) / ((d : α) * direction.groundStep)))))
    (maxDistance / stride) stride none).1

@[specialize]
def along (terrain : Terrain α) (base : Cell) (z : α) (stride maxDistance : Nat)
    (direction : Direction α) : Option (Horizon α) :=
  (angles terrain base z direction stride maxDistance).map clamp

@[inline]
def overwrite (buffer : Array (Option (Horizon α))) (directions : List (Direction α))
    (horizon : Direction α → Option (Horizon α)) : Array (Option (Horizon α)) :=
  directions.foldl (fun b direction => b.push (horizon direction)) (buffer.shrink 0)

/-- The horizons of a cell along each direction, written over `buffer`. A stride of zero counts as
one; a void cell and a cell outside the grid have none. -/
@[specialize]
def profileInto (buffer : Array (Option (Horizon α))) (terrain : Terrain α) (base : Cell)
    (directions : List (Direction α)) (stride maxDistance : Nat) : Array (Option (Horizon α)) :=
  overwrite buffer directions <|
    match terrain.height base with
    | none => fun _ => none
    | some z => along terrain base z (max stride 1) maxDistance

def profile (terrain : Terrain α) (base : Cell) (directions : List (Direction α))
    (stride maxDistance : Nat) : Array (Option (Horizon α)) :=
  profileInto #[] terrain base directions stride maxDistance

end

end Horizon

namespace Raster

open Horizon

variable [Trig Float]

def angles (dem : Raster Float32) (base : Cell) (z : Float) (direction : Direction Float)
    (stride maxDistance : Nat) : Option (Horizon Float) :=
  (walk (fun d => dem.shape.nearest (placeAt direction base d))
    (· + stride)
    (fun d c range =>
      let v := dem.read c
      if Sample.isVoid v then some range
      else
        let angle := Trig.atan ((Sample.toFloat v - z) / ((d : Float) * direction.groundStep))
        some (widen range angle))
    (maxDistance / stride) stride none).1

def profileInto (dem : Raster Float32) (buffer : Array (Option (Horizon Float))) (base : Cell)
    (directions : List (Direction Float)) (stride maxDistance : Nat) :
    Array (Option (Horizon Float)) :=
  overwrite buffer directions <|
    match dem.get? base with
    | none => fun _ => none
    | some v =>
      if Sample.isVoid v then fun _ => none
      else fun direction =>
        (dem.angles base (Sample.toFloat v) direction (max stride 1) maxDistance).map clamp

end Raster

end Relief
