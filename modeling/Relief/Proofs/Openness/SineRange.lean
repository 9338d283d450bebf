import Relief.Proofs.Bearing
import Relief.Proofs.Finished
import Relief.Proofs.Openness.Inverted

namespace Relief.Openness

open Binary Real

section Sides

variable {α : Type} [Add α] [Mul α] [Div α] [Neg α] [LT α] [DecidableLT α] [NatCast α]
  [OfScientific α] [Trig α] {side : Horizon α → α} {entries before extra after :
  List (Option (Horizon α))} {angles others : List α}

def ofSide (side : Horizon α → α) (entries : List (Option (Horizon α))) : Option α :=
  meanSine ((entries.filterMap id).map side)

theorem ofHorizons_eq (horizons : Array (Option (Horizon α))) :
    ofHorizons horizons = ⟨ofSide (·.upper) horizons.toList, ofSide (·.lower) horizons.toList⟩ :=
  rfl

theorem meanSine_congr (h : angles.filter (Counts ·) = others.filter (Counts ·)) :
    meanSine angles = meanSine others := by
  change angles.filter (fun a => -outlierLimit < a ∧ a < outlierLimit) = _ at h
  rw [meanSine, h]
  rfl

theorem meanSine_eq_none_iff : meanSine angles = none ↔ ∀ a ∈ angles, ¬ Counts a := by
  rw [meanSine]
  split_ifs with h
  · rw [List.isEmpty_iff, List.filter_eq_nil_iff] at h
    exact iff_of_true rfl fun a ha hc => h a ha (decide_eq_true hc)
  · rw [List.isEmpty_iff, List.filter_eq_nil_iff] at h
    exact iff_of_false id fun hall => h fun a ha hc => hall a ha (of_decide_eq_true hc)

/-- A side is open to nothing exactly if no horizon to it counts. -/
theorem ofSide_eq_none_iff :
    ofSide side entries = none ↔ ¬ ∃ h, some h ∈ entries ∧ Counts (side h) := by
  rw [ofSide, meanSine_eq_none_iff]
  constructor
  · rintro hall ⟨h, hm, hc⟩
    exact hall _ (List.mem_map_of_mem (List.mem_filterMap.2 ⟨some h, hm, rfl⟩)) hc
  · rintro hnone a ha hc
    obtain ⟨h, hh, rfl⟩ := List.mem_map.1 ha
    obtain ⟨entry, hm, rfl⟩ := List.mem_filterMap.1 hh
    exact hnone ⟨h, hm, hc⟩

theorem ofSide_splice (h : ∀ x, some x ∈ extra → ¬ Counts (side x)) :
    ofSide side (before ++ extra ++ after) = ofSide side (before ++ after) := by
  apply meanSine_congr
  have hnone : ((extra.filterMap id).map side).filter (Counts ·) = [] := by
    rw [List.filter_eq_nil_iff]
    intro a ha hc
    obtain ⟨x, hx, rfl⟩ := List.mem_map.1 ha
    obtain ⟨entry, hm, rfl⟩ := List.mem_filterMap.1 hx
    exact h x hm (of_decide_eq_true hc)
  simp only [List.filterMap_append, List.map_append, List.filter_append, hnone, List.append_nil]

end Sides

section Cells

variable [Trig Float] {angles : List Float} {dem : Raster Float32}

theorem balanced_sines (h : ∀ a ∈ angles, -1.0 ≤ Trig.sin a ∧ Trig.sin a ≤ 1.0) {x : Float}
    (hx : Balanced x (-x)) :
    Balanced (angles.foldl (fun sum a => sum + Trig.sin a) x)
      (-(angles.foldl (fun sum a => sum + Trig.sin a) x)) := by
  induction angles generalizing x with
  | nil => exact hx
  | cons a angles ih =>
    obtain ⟨⟨hlo, hhi⟩, hall⟩ := List.forall_mem_cons.1 h
    rw [List.foldl_cons]
    exact ih hall ⟨opposite_neg _, (hx.add (opposite_neg _) hlo hhi).2⟩

theorem isVoid_sideCell_iff
    (hrange : ∀ x : Float, x.isFinite = true → -1.0 ≤ Trig.sin x ∧ Trig.sin x ≤ 1.0) :
    Sample.isVoid (sideCell (meanSine angles)) = true ↔ meanSine angles = none := by
  cases hmean : meanSine angles with
  | none => exact iff_of_true (by decide +kernel) rfl
  | some v =>
    refine iff_of_false (ne_true_of_eq_false ?_) (Option.some_ne_none v)
    rw [meanSine] at hmean
    split_ifs at hmean with hempty
    obtain rfl := Option.some.inj hmean
    have hmem : ∀ a ∈ angles.filter fun a => -outlierLimit < a ∧ a < outlierLimit,
        -1.0 ≤ Trig.sin a ∧ Trig.sin a ≤ 1.0 :=
      fun a ha => hrange a (Counts.isFinite (of_decide_eq_true (List.mem_filter.1 ha).2))
    have hzero : Balanced (0.0 : Float) (-0.0) := ⟨opposite_neg _, by decide +kernel⟩
    have hlen := List.length_pos_iff.2 fun h => hempty (List.isEmpty_iff.2 h)
    exact ((balanced_sines hmem hzero).mean hlen).isVoid_ofFloat

end Cells

section Exact

variable {angles xs : List ℝ} {v : ℝ}

/-- A mean lies in every convex set that its terms lie in. -/
theorem mean_mem {s : Set ℝ} (hs : Convex ℝ s) (hne : xs ≠ []) (h : ∀ x ∈ xs, x ∈ s) :
    xs.sum / xs.length ∈ s := by
  have hlen : (xs.length : ℝ) ≠ 0 := Nat.cast_ne_zero.2 (List.length_pos_of_ne_nil hne).ne'
  have hsum : xs.sum / xs.length = ∑ i : Fin xs.length, (1 / (xs.length : ℝ)) • xs[i] := by
    have htotal : ∑ i : Fin xs.length, xs[i] = xs.sum := by simp
    rw [← Finset.smul_sum, htotal, smul_eq_mul]
    ring
  rw [hsum]
  refine hs.sum_mem (fun _ _ => by positivity) ?_ fun i _ => h _ (List.getElem_mem i.2)
  rw [Finset.sum_const, Finset.card_univ, Fintype.card_fin, nsmul_eq_mul]
  field_simp

theorem foldl_sines_real (angles : List ℝ) :
    angles.foldl (fun sum a => sum + Trig.sin a) 0.0 = (angles.map Real.sin).sum := by
  rw [zero_scientific, List.sum_eq_foldl, List.foldl_map]
  rfl

theorem meanSine_mem {s : Set ℝ} (hs : Convex ℝ s)
    (h : ∀ a ∈ angles, Counts a → Real.sin a ∈ s) (hv : meanSine angles = some v) : v ∈ s := by
  rw [meanSine] at hv
  split_ifs at hv with hempty
  obtain rfl := Option.some.inj hv
  rw [foldl_sines_real, ← List.length_map (f := Real.sin)]
  refine mean_mem hs ?_ ?_
  · rw [Ne, List.map_eq_nil_iff]
    exact fun hnil => hempty (List.isEmpty_iff.2 hnil)
  · intro x hx
    obtain ⟨a, ha, rfl⟩ := List.mem_map.1 hx
    exact h a (List.mem_of_mem_filter ha) (of_decide_eq_true (List.mem_filter.1 ha).2)

theorem outlierLimit_real : (outlierLimit : ℝ) = 70 * (π / 180) := by
  rw [outlierLimit, toRadians_real]
  norm_num

theorem sin_mem_of_nonneg {a : ℝ} (h0 : 0 ≤ a) (hc : Counts a) :
    Real.sin a ∈ Set.Ico 0 (Real.sin (70 * (π / 180))) := by
  have hlt : a < 70 * (π / 180) := outlierLimit_real ▸ hc.2
  have hpi := Real.pi_pos
  constructor
  · exact Real.sin_nonneg_of_nonneg_of_le_pi h0 (by linarith)
  · exact Real.sin_lt_sin_of_lt_of_le_pi_div_two (by linarith) (by linarith) hlt

theorem sin_mem_of_nonpos {a : ℝ} (h0 : a ≤ 0) (hc : Counts a) :
    Real.sin a ∈ Set.Ioc (-Real.sin (70 * (π / 180))) 0 := by
  have hlt : -(70 * (π / 180)) < a := outlierLimit_real ▸ hc.1
  have hpi := Real.pi_pos
  constructor
  · rw [← Real.sin_neg]
    exact Real.sin_lt_sin_of_lt_of_le_pi_div_two (by linarith) (by linarith) hlt
  · exact Real.sin_nonpos_of_nonpos_of_neg_pi_le h0 (by linarith)

theorem bounds_of_mem_profile {terrain : Terrain ℝ} {base : Cell}
    {directions : List (Direction ℝ)} {stride maxDistance : ℕ} {h : Horizon ℝ}
    (hm : some h ∈ (Horizon.profile terrain base directions stride maxDistance).toList) :
    h.lower ≤ 0 ∧ 0 ≤ h.upper := by
  rw [Horizon.toList_profile] at hm
  obtain ⟨direction, -, hh⟩ := List.mem_map.1 hm
  obtain ⟨z, -, hh⟩ := Option.bind_eq_some_iff.1 hh
  obtain ⟨r, -, rfl⟩ := Option.map_eq_some_iff.1 hh
  rw [Horizon.clamp, zero_scientific]
  constructor
  · dsimp only
    split_ifs with h0
    · exact le_rfl
    · exact not_lt.1 h0
  · dsimp only
    split_ifs with h0
    · exact le_rfl
    · exact not_lt.1 h0

end Exact

section Range

/-- What does not count to a side of a cell may stand anywhere among its horizons or be left out, as
may a direction that tells nothing. -/
def IgnoresOutliers (α : Type) [Add α] [Mul α] [Div α] [Neg α] [LT α] [DecidableLT α] [NatCast α]
    [OfScientific α] [Trig α] : Prop :=
  ∀ before extra after : List (Option (Horizon α)),
    let whole := ofHorizons (before ++ extra ++ after).toArray
    let rest := ofHorizons (before ++ after).toArray
    ((∀ h, some h ∈ extra → ¬ Counts h.upper) → whole.positive = rest.positive) ∧
      ((∀ h, some h ∈ extra → ¬ Counts h.lower) → whole.negative = rest.negative)

theorem ignoresOutliers {α : Type} [Add α] [Mul α] [Div α] [Neg α] [LT α] [DecidableLT α]
    [NatCast α] [OfScientific α] [Trig α] : IgnoresOutliers α := by
  intro before extra after
  simp only [ofHorizons_eq]
  exact ⟨ofSide_splice, ofSide_splice⟩

theorem ofCell_mem_range (terrain : Terrain ℝ) (base : Cell) (directions : List (Direction ℝ))
    (stride maxDistance : ℕ) :
    let openness := ofHorizons (Horizon.profile terrain base directions stride maxDistance)
    (∀ v, openness.positive = some v → v ∈ Set.Ico 0 (Real.sin (70 * (π / 180)))) ∧
      (∀ v, openness.negative = some v → v ∈ Set.Ioc (-Real.sin (70 * (π / 180))) 0) := by
  intro openness
  have hside {side : Horizon ℝ → ℝ} {a : ℝ} {entries : List (Option (Horizon ℝ))}
      (ha : a ∈ (entries.filterMap id).map side) : ∃ h, some h ∈ entries ∧ side h = a := by
    obtain ⟨h, hh, ha⟩ := List.mem_map.1 ha
    obtain ⟨_, hm, rfl⟩ := List.mem_filterMap.1 hh
    exact ⟨h, hm, ha⟩
  constructor
  · intro v hv
    refine meanSine_mem (convex_Ico _ _) (fun a ha hc => ?_) hv
    obtain ⟨h, hm, rfl⟩ := hside ha
    exact sin_mem_of_nonneg (bounds_of_mem_profile hm).2 hc
  · intro v hv
    refine meanSine_mem (convex_Ioc _ _) (fun a ha hc => ?_) hv
    obtain ⟨h, hm, rfl⟩ := hside ha
    exact sin_mem_of_nonpos (bounds_of_mem_profile hm).1 hc

variable [Trig Float] {dem : Raster Float32} {cell : Cell} {v : Float32}

theorem not_isVoid_of_mem_profile {directions : List (Direction Float)} {stride maxDistance : ℕ}
    {h : Horizon Float}
    (hm : some h ∈ (Horizon.profile dem.terrain cell directions stride maxDistance).toList)
    (hv : dem.get? cell = some v) : Sample.isVoid v = false := by
  rw [Horizon.toList_profile] at hm
  obtain ⟨direction, -, hh⟩ := List.mem_map.1 hm
  obtain ⟨z, hz, -⟩ := Option.bind_eq_some_iff.1 hh
  rw [Raster.height_eq, hv, Option.bind_some] at hz
  split_ifs at hz with hvoid
  exact eq_false_of_ne_true hvoid

theorem isVoid_side_iff
    (hrange : ∀ x : Float, x.isFinite = true → -1.0 ≤ Trig.sin x ∧ Trig.sin x ≤ 1.0)
    {directions : List (Direction Float)} {stride maxDistance : ℕ} {side : Horizon Float → Float}
    (hv : dem.get? cell = some v) :
    let profile := (Horizon.profile dem.terrain cell directions stride maxDistance).toList
    Sample.isVoid (sideCell (ofSide side profile)) = true ↔
      Sample.isVoid v = true ∨ ¬ ∃ h, some h ∈ profile ∧ Counts (side h) := by
  intro profile
  rw [ofSide, isVoid_sideCell_iff hrange, ← ofSide, ofSide_eq_none_iff]
  refine ⟨Or.inr, fun h => h.elim (fun hvoid => ?_) id⟩
  rintro ⟨h, hm, -⟩
  rw [not_isVoid_of_mem_profile hm hv] at hvoid
  cases hvoid

/-- Whatever the other side is, a side of a cell is void exactly if the cell is, or if no direction
has a horizon on that side that counts. -/
def VoidUnlessOpen (dem : Raster Float32) (directions : List (Direction Float))
    (params : OpennessParams) (sky : SkyView) : Prop :=
  ∀ cell v, dem.get? cell = some v →
    let profile := Horizon.profile dem.terrain cell directions params.stride params.maxDistance
    ∃ above below, sky.positive.get? cell = some above ∧ sky.negative.get? cell = some below ∧
      (Sample.isVoid above = true ↔
        Sample.isVoid v = true ∨ ¬ ∃ h, some h ∈ profile.toList ∧ Counts h.upper) ∧
      (Sample.isVoid below = true ↔
        Sample.isVoid v = true ∨ ¬ ∃ h, some h ∈ profile.toList ∧ Counts h.lower)

variable [Resources]

/-- Openness is void where it must be. In real numbers all other cells lie within the sine of the
limit, above or below, and neither side depends on what does not count to it. -/
theorem void_iff_and_sine_range
    (hrange : ∀ x : Float, x.isFinite = true → -1.0 ≤ Trig.sin x ∧ Trig.sin x ≤ 1.0)
    (dem : Raster Float32) :
    (∀ params sky, (scan dem params).outcome = .ok sky → ∃ geometry directions,
      (Geometry.resolve dem.extent dem.shape params.mercator).outcome = .ok geometry ∧
        Direction.rose params.directions geometry.ground = .ok directions ∧
        VoidUnlessOpen dem directions params sky) ∧
      (∀ (terrain : Terrain ℝ) base (directions : List (Direction ℝ)) stride maxDistance,
        let openness := ofHorizons (Horizon.profile terrain base directions stride maxDistance)
        (∀ v, openness.positive = some v → v ∈ Set.Ico 0 (Real.sin (70 * (π / 180)))) ∧
          (∀ v, openness.negative = some v → v ∈ Set.Ioc (-Real.sin (70 * (π / 180))) 0)) ∧
      IgnoresOutliers ℝ ∧ IgnoresOutliers Float := by
  refine ⟨?_, ofCell_mem_range, ignoresOutliers, ignoresOutliers⟩
  intro params sky hrun
  obtain ⟨-, geometry, directions, hgeometry, hrose, hcells⟩ := scan_eq_ok hrun
  refine ⟨geometry, directions, hgeometry, hrose, fun cell v hv => ?_⟩
  have hcell : dem.shape.Contains cell := by
    by_contra hc
    rw [Raster.get?_of_not_contains hc] at hv
    cases hv
  obtain ⟨habove, hbelow⟩ := hcells cell hcell
  exact ⟨_, _, habove, hbelow, isVoid_side_iff hrange hv, isVoid_side_iff hrange hv⟩

end Range

theorem tableTrig_sin_range (x : Float) : -1.0 ≤ tableTrig.sin x ∧ tableTrig.sin x ≤ 1.0 := by
  have hlisted : ∀ e ∈ sines, -1.0 ≤ e.2 ∧ e.2 ≤ 1.0 := by decide +kernel
  exact tabled_cases (P := fun w => -1.0 ≤ w ∧ w ≤ 1.0) (fun e he _ => hlisted e he)
    (by decide +kernel)

/-- A spike, a hollow, a step and a bluff, from north to south, each of which looks north. Nothing
lies before the spike. The hollow sees the spike alone, which is an outlier above it; so does the
step, but it also looks down into the hollow. What lies before the bluff is an outlier below it. -/
theorem void_iff_and_sine_range_spike :
    let dem : Raster Float32 := ⟨⟨4, 1⟩, #[10.0, 0.0, 1.0, 4.0],
      ⟨500000.0, 500001.0, 4000000.0, 4000004.0⟩, rfl, by decide⟩
    let params : OpennessParams := ⟨1, 1, 2, none, 1⟩
    (∀ x : Float, x.isFinite = true → -1.0 ≤ tableTrig.sin x ∧ tableTrig.sin x ≤ 1.0) ∧
      ∃ sky directions, (@scan tableTrig _ dem params).outcome = .ok sky ∧
        @VoidUnlessOpen tableTrig dem directions params sky ∧
        sky.positive.cells = #[Sample.void, Sample.void, Sample.void, 0.0] ∧
        sky.negative.cells = #[Sample.void, 0.0, -0.70710677, Sample.void] := by
  let : Trig Float := tableTrig
  intro dem params
  have hrange (x : Float) (_ : x.isFinite = true) :
      -1.0 ≤ tableTrig.sin x ∧ tableTrig.sin x ≤ 1.0 :=
    tableTrig_sin_range x
  have hcells : ((scan dem params).outcome.toOption.map fun s =>
      (s.positive.cells, s.negative.cells)) =
      some (#[Sample.void, Sample.void, Sample.void, 0.0],
        #[Sample.void, 0.0, -0.70710677, Sample.void]) := by
    decide +kernel
  cases hrun : (scan dem params).outcome with
  | error e =>
    rw [hrun] at hcells
    cases hcells
  | ok sky =>
    rw [hrun] at hcells
    obtain ⟨hpositive, hnegative⟩ := Prod.mk.inj (Option.some.inj hcells)
    obtain ⟨geometry, directions, -, -, hvoid⟩ :=
      (void_iff_and_sine_range hrange dem).1 params sky hrun
    exact ⟨hrange, sky, directions, rfl, hvoid, hpositive, hnegative⟩

end Relief.Openness
