import Relief.Machine
import Relief.Proofs.Readings

namespace Relief

/-- Both are voids, whatever marks them, or they are the same value. -/
def SameSample (v w : Float32) : Prop :=
  Sample.isVoid v = Sample.isVoid w ∧ (Sample.isVoid v = false → v = w)

/-- A sample that is tested for a void before it is used tells no more of a void than that it is
one. -/
theorem SameSample.guarded {γ : Type} {v w : Float32} (h : SameSample v w) (void : γ)
    (known : Float32 → γ) :
    (if Sample.isVoid v then void else known v) =
      if Sample.isVoid w then void else known w := by
  obtain ⟨hvoid, hsame⟩ := h
  cases hv : Sample.isVoid v with
  | true => rw [if_pos rfl, if_pos (hvoid.symm.trans hv)]
  | false => rw [← hsame hv, hv]

/-- Rasters with voids in the same cells that agree everywhere else. -/
structure Raster.AgreesOffVoids (r s : Raster Float32) : Prop where
  shape : r.shape = s.shape
  extent : r.extent = s.extent
  cells : ∀ cell, Option.Rel SameSample (r.get? cell) (s.get? cell)

namespace Raster.AgreesOffVoids

variable {r s : Raster Float32}

theorem forall₂_cells (h : r.AgreesOffVoids s) :
    List.Forall₂ SameSample r.cells.toList s.cells.toList := by
  have hsize : r.cells.size = s.cells.size := by
    rw [r.size_cells, s.size_cells, h.shape]
  rw [List.forall₂_iff_get]
  refine ⟨hsize, ?_⟩
  intro i hi hi'
  change i < r.cells.size at hi
  change i < s.cells.size at hi'
  have hcell := h.cells (r.shape.cellAt i)
  have hs : s.get? (r.shape.cellAt i) = s.cells[i]? := by
    rw [h.shape, getElem?_cells (hi'.trans_eq s.size_cells)]
  rw [hs, ← getElem?_cells (hi.trans_eq r.size_cells), Array.getElem?_eq_getElem hi,
    Array.getElem?_eq_getElem hi'] at hcell
  cases hcell with
  | some hvw => exact hvw

theorem statistics_eq (h : r.AgreesOffVoids s) : r.statistics = s.statistics := by
  have hstep : Relator.LiftFun Eq (Relator.LiftFun SameSample Eq)
      (fun (t : Statistics Float32) v => if Sample.isVoid v then t else t.add v)
      (fun t v => if Sample.isVoid v then t else t.add v) := by
    rintro t _ rfl v w hvw
    exact hvw.guarded t t.add
  have hfold := List.rel_foldl hstep (rfl : (⟨none, none, 0, 0⟩ : Statistics Float32) = _)
    h.forall₂_cells
  have hsize : r.cells.size = s.cells.size := h.forall₂_cells.length_eq
  rw [Array.foldl_toList, Array.foldl_toList] at hfold
  rw [statistics, statistics, hfold, hsize]

theorem read (h : r.AgreesOffVoids s) (cell : Cell) : SameSample (r.read cell) (s.read cell) := by
  have hcell := h.cells cell
  rw [Raster.read, Raster.read]
  generalize r.get? cell = a at hcell ⊢
  generalize s.get? cell = b at hcell ⊢
  cases hcell with
  | none => exact ⟨rfl, fun _ => rfl⟩
  | some hvw => exact hvw

theorem march_eq (h : r.AgreesOffVoids s) : r.march = s.march := by
  funext motion rise mayMeet steps cell z
  rw [march, march, h.shape]
  refine congrArg (fun visit => walk _ _ visit _ _ _) ?_
  funext p c ray
  dsimp only
  rw [(h.read c).guarded ray fun v => ray.pass (some (Sample.toFloat v))]

theorem exactShade_eq [Trig Float] (h : r.AgreesOffVoids s) : r.exactShade = s.exactShade := by
  funext motion rise highest cell
  rw [exactShade, exactShade, h.march_eq]
  exact (h.read cell).guarded 1.0 fun v => Shadow.volumeShade
    (s.march motion rise (Shadow.below highest) Shadow.marchSteps cell (Sample.toFloat v)).1.volume

theorem sweptDepths_eq (h : r.AgreesOffVoids s) : r.sweptDepths = s.sweptDepths := by
  have hstep : r.sweepStep = s.sweepStep := by
    funext fall highest c t
    rw [sweepStep, sweepStep, h.shape]
    dsimp only
    rw [(h.read c).guarded _ fun v => Shadow.sweepCell t _ (some (Sample.toFloat v))]
  have hsweep : r.sweep = s.sweep := by
    funext motion fall highest edges budget depths seed
    rw [sweep, sweep, h.shape, hstep]
  funext motion fall highest edges budget
  rw [sweptDepths, sweptDepths, h.shape, hsweep]

theorem profileInto_eq [Trig Float] (h : r.AgreesOffVoids s) : r.profileInto = s.profileInto := by
  have hangles : r.angles = s.angles := by
    funext base z direction stride maxDistance
    rw [angles, angles, h.shape]
    refine congrArg (fun visit => (walk _ _ visit _ _ _).1) ?_
    funext d c range
    exact (h.read c).guarded (some range) fun v => some (Horizon.widen range
      (Trig.atan ((Sample.toFloat v - z) / ((d : Float) * direction.groundStep))))
  funext buffer base directions stride maxDistance
  rw [profileInto, profileInto, hangles]
  refine congrArg (Horizon.overwrite buffer directions) ?_
  have hbase := h.cells base
  generalize r.get? base = a at hbase ⊢
  generalize s.get? base = b at hbase ⊢
  cases hbase with
  | none => rfl
  | some hvw =>
    exact hvw.guarded (fun _ => none) fun v direction =>
      (s.angles base (Sample.toFloat v) direction (max stride 1) maxDistance).map Horizon.clamp

end Raster.AgreesOffVoids

/-- What marks the voids of a raster leaves no trace. Whatever the parameters, either analysis
reports the same and comes to the same end: the same error, or the same rasters, bit for bit, with
the same advisories. -/
theorem analyses_ignore_void_payload [Trig Float] [Resources] {dem other : Raster Float32}
    (h : dem.AgreesOffVoids other) :
    (∀ params : ShadowParams, Shadow.cast dem params = Shadow.cast other params) ∧
      ∀ params : OpennessParams, Openness.scan dem params = Openness.scan other params := by
  constructor
  · intro params
    rw [Shadow.cast, Shadow.cast, h.shape, h.extent, h.statistics_eq, h.exactShade_eq,
      h.sweptDepths_eq]
  · intro params
    rw [Openness.scan, Openness.scan, h.shape, h.extent, h.statistics_eq, h.profileInto_eq]

/-- Voids marked by no number, negative infinity, the sentinel and the floor itself, and the same
voids marked otherwise. -/
theorem analyses_ignore_void_payload_floor :
    let extent : Extent Float := ⟨500000.0, 500005.0, 4000000.0, 4000001.0⟩
    let dem : Raster Float32 :=
      ⟨⟨1, 5⟩, #[0.0 / 0.0, -1.0 / 0.0, 7.0, Sample.void, -1.0e38], extent, rfl, by decide⟩
    let other : Raster Float32 :=
      ⟨⟨1, 5⟩, #[-1.0e38, Sample.void, 7.0, 0.0 / 0.0, -2.0e38], extent, rfl, by decide⟩
    let shadow : ShadowParams := ⟨270.0, 30.0, .fastSweep .periodic, none, 2⟩
    let openness : OpennessParams := ⟨8, 1, 4, none, 2⟩
    dem.AgreesOffVoids other ∧ dem.statistics.void = 4 ∧
      (∀ i ∈ [0, 1, 3, 4], dem.cells[i]? ≠ other.cells[i]?) ∧
      Shadow.cast dem shadow = Shadow.cast other shadow ∧
      Shadow.cast dem { shadow with method := .exact } =
        Shadow.cast other { shadow with method := .exact } ∧
      Openness.scan dem openness = Openness.scan other openness := by
  intro extent dem other shadow openness
  have hagrees : dem.AgreesOffVoids other := by
    refine ⟨rfl, rfl, ?_⟩
    intro cell
    by_cases hin : dem.shape.Contains cell
    · obtain ⟨row, col⟩ := cell
      obtain ⟨hrow, hcol⟩ := hin
      change row < 1 at hrow
      change col < 5 at hcol
      interval_cases row
      interval_cases col
      all_goals exact .some ⟨by decide +kernel, by decide +kernel⟩
    · have hdem : dem.get? cell = none := Raster.get?_of_not_contains hin
      have hother : other.get? cell = none := Raster.get?_of_not_contains hin
      rw [hdem, hother]
      exact .none
  obtain ⟨hcast, hscan⟩ := analyses_ignore_void_payload hagrees
  exact ⟨hagrees, by decide +kernel, by decide +kernel, hcast shadow, hcast _, hscan openness⟩

end Relief
