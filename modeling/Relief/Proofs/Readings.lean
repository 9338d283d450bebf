import Relief.Openness
import Relief.Shadow
import Relief.Proofs.Raster

namespace Relief.Raster

/-- A sample that is not found void when it is read is the height of its cell. -/
theorem height_read (dem : Raster Float32) (cell : Cell) : dem.terrain.height cell =
    if Sample.isVoid (dem.read cell) then none else some (Sample.toFloat (dem.read cell)) := by
  have hvoid : Sample.isVoid (Sample.void : Float32) = true := by decide +kernel
  rw [height_eq, read]
  cases dem.get? cell with
  | none => exact (if_pos hvoid).symm
  | some v => rfl

theorem march_eq (dem : Raster Float32) (motion : Motion Float) (rise : Float)
    (mayMeet : Float → Bool) (steps : ℕ) (cell : Cell) (z : Float) :
    dem.march motion rise mayMeet steps cell z =
      Shadow.march dem.terrain motion rise mayMeet steps cell z := by
  have hpass (c : Cell) (ray : Ray Float) :
      (if Sample.isVoid (dem.read c) then ray
        else ray.pass (some (Sample.toFloat (dem.read c)))) =
        ray.pass (dem.terrain.height c) := by
    rw [height_read]
    split_ifs
    · rfl
    · rfl
  rw [march]
  simp only [hpass]
  rfl

theorem exactShade_eq [Trig Float] (dem : Raster Float32) (motion : Motion Float) (rise : Float)
    (highest : Option Float) :
    dem.exactShade motion rise highest = Shadow.exactShade dem.terrain motion rise highest := by
  funext cell
  rw [exactShade, Shadow.exactShade, height_read]
  simp only [march_eq]
  split_ifs
  · rfl
  · rfl

theorem sweepStep_eq (dem : Raster Float32) (fall : Float) (highest : Option Float) (c : Cell)
    (s : Sweep Float) :
    dem.sweepStep fall highest c s = Shadow.sweepStep dem.terrain fall highest c s := by
  have hcell : (if Sample.isVoid (dem.read c) then Shadow.sweepCell s (dem.shape.index c) none
      else Shadow.sweepCell s (dem.shape.index c) (some (Sample.toFloat (dem.read c)))) =
      Shadow.sweepCell s (dem.terrain.shape.index c) (dem.terrain.height c) := by
    rw [height_read]
    split_ifs
    · rfl
    · rfl
  rw [sweepStep, Shadow.sweepStep]
  simp only [hcell]

theorem sweptDepths_eq (dem : Raster Float32) (motion : Motion Float) (fall : Float)
    (highest : Option Float) (edges : Edges) :
    dem.sweptDepths motion fall highest edges =
      Shadow.sweptDepths dem.terrain motion fall highest edges := by
  funext budget
  rw [sweptDepths, Shadow.sweptDepths]
  simp only [sweep, sweepStep_eq]
  rfl

theorem angles_eq [Trig Float] (dem : Raster Float32) (base : Cell) (z : Float)
    (direction : Direction Float) (stride maxDistance : ℕ) :
    dem.angles base z direction stride maxDistance =
      Horizon.angles dem.terrain base z direction stride maxDistance := by
  rw [angles, Horizon.angles]
  refine congrArg (fun visit => (walk _ _ visit _ _ _).1) ?_
  funext d c range
  rw [height_read]
  dsimp only
  split_ifs
  · rfl
  · rfl

theorem profileInto_eq [Trig Float] (dem : Raster Float32)
    (buffer : Array (Option (Horizon Float))) (base : Cell) (directions : List (Direction Float))
    (stride maxDistance : ℕ) :
    dem.profileInto buffer base directions stride maxDistance =
      Horizon.profileInto buffer dem.terrain base directions stride maxDistance := by
  rw [profileInto, Horizon.profileInto, height_eq]
  simp only [angles_eq]
  cases dem.get? base with
  | none => rfl
  | some v =>
    rw [Option.bind_some]
    dsimp only
    split_ifs
    · rfl
    · rfl

end Relief.Raster
