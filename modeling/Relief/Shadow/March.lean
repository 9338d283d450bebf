import Relief.Sun
import Relief.Terrain
import Relief.Walk

namespace Relief

structure Ray (α : Type) where
  height : α
  volume : α

namespace Ray

variable {α : Type} [Add α] [Sub α] [LT α] [DecidableLT α]

@[inline]
def pass (ray : Ray α) : Option α → Ray α
  | some z => if ray.height < z then { ray with volume := ray.volume + (z - ray.height) } else ray
  | none => ray

end Ray

namespace Shadow

@[inline]
def below {β : Type} [LE β] [DecidableLE β] (highest : Option β) (z : β) : Bool :=
  highest.any (z ≤ ·)

variable {α β : Type} [Add α] [LT α] [LE α] [DecidableLT α] [DecidableLE α] [NatCast α]
  [OfScientific α] [Whole α] [Add β] [Sub β] [LT β] [LE β] [DecidableLT β] [DecidableLE β]
  [OfScientific β]

/-- The march of a ray of height `z` from a cell. It goes on while `mayMeet` says that terrain may
still reach the height of the ray. -/
@[specialize]
def march (terrain : Terrain β) (motion : Motion α) (rise : β) (mayMeet : β → Bool) (steps : Nat)
    (cell : Cell) (z : β) : Ray β × Ending :=
  walk terrain.shape.nearest
    (fun p => ⟨p.x + motion.x, p.y + motion.y⟩)
    (fun _ c ray =>
      if mayMeet ray.height then
        let passed := ray.pass (terrain.height c)
        some { passed with height := ray.height + rise }
      else none)
    steps (cell.position : Position α) ⟨z, 0.0⟩

/-- The steps after which a march is given up. No march ends later, so that only those that never
end are cut short. -/
def marchSteps : Nat := 4611686018427387904

@[inline]
def volumeShade [BEq β] [Trig β] (volume : β) : β :=
  if volume == 0.0 then 0.0 else Trig.log volume

/-- The exact shade of a cell: 1 for a void, 0 where nothing rises above the ray, otherwise the
logarithm of what does. -/
@[specialize]
def exactShade [BEq β] [Trig β] (terrain : Terrain β) (motion : Motion α) (rise : β)
    (highest : Option β) (cell : Cell) : β :=
  match terrain.height cell with
  | none => 1.0
  | some z => volumeShade (march terrain motion rise (below highest) marchSteps cell z).1.volume

end Shadow

namespace Raster

open Shadow

/-- The march over the samples of a raster, each tested for a void when it is read. -/
def march (dem : Raster Float32) (motion : Motion Float) (rise : Float) (mayMeet : Float → Bool)
    (steps : Nat) (cell : Cell) (z : Float) : Ray Float × Ending :=
  walk dem.shape.nearest
    (fun p => ⟨p.x + motion.x, p.y + motion.y⟩)
    (fun _ c ray =>
      if mayMeet ray.height then
        let v := dem.read c
        let passed := if Sample.isVoid v then ray else ray.pass (some (Sample.toFloat v))
        some { passed with height := ray.height + rise }
      else none)
    steps (cell.position : Position Float) ⟨z, 0.0⟩

def exactShade [Trig Float] (dem : Raster Float32) (motion : Motion Float) (rise : Float)
    (highest : Option Float) (cell : Cell) : Float :=
  let v := dem.read cell
  if Sample.isVoid v then 1.0
  else
    volumeShade
      (dem.march motion rise (below highest) marchSteps cell (Sample.toFloat v)).1.volume

end Raster

end Relief
