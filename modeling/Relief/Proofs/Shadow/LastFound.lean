import Relief.Machine
import Relief.Proofs.Shadow.Visits

namespace Relief.Shadow

open Binary

namespace Outlook

/-- A visit finds terrain of height `z` below its horizon. -/
def Finds (o : Outlook) (z : Float) : Prop :=
  ∃ h ∈ o.horizon, z < h

instance (o : Outlook) (z : Float) : Decidable (o.Finds z) :=
  inferInstanceAs (Decidable (∃ h ∈ o.horizon, z < h))

/-- It does so for the second time in a row at least, at a depth that does not round to zero. -/
def FindsDeep (o : Outlook) (z : Float) : Prop :=
  0 < o.below ∧ ∃ h ∈ o.horizon, z < h ∧ 0.0 < (Sample.ofFloat (h - z) : Float32)

instance (o : Outlook) (z : Float) : Decidable (o.FindsDeep z) :=
  inferInstanceAs (Decidable (_ ∧ ∃ h ∈ o.horizon, _ ∧ _))

/-- The depth below the horizon, which counts from the second time on. -/
def depth (o : Outlook) (z : Float) : Float :=
  if 0 < o.below then o.horizon.getD z - z else 0.0

variable {o : Outlook} {z fall : Float} {highest : Option Float}

theorem Sound.mark_eq (h : o.Sound fall highest) (hz : z.isNaN = false) :
    o.mark (some z) = if o.Finds z then some (o.depth z) else none := by
  cases ho : o.horizon with
  | none =>
    rw [mark, ho, if_neg]
    · rfl
    · rintro ⟨t, ht, -⟩
      rw [ho] at ht
      cases ht
  | some t =>
    have hiff : o.Finds z ↔ ¬ t ≤ z := by
      rw [Finds, ho, le_iff_of_number (h t ho).isNaN hz, not_le,
        ← lt_iff_of_number hz (h t ho).isNaN]
      simp
    rw [mark, ho, depth, ho]
    by_cases hle : t ≤ z
    · rw [if_neg fun hf => hiff.1 hf hle, Option.bind_some, if_pos hle]
    · rw [if_pos (hiff.2 hle), Option.bind_some, if_neg hle]
      rfl

end Outlook

variable {terrain : Terrain Float} {cell : Cell} {z fall : Float} {highest : Option Float}
  {o : Outlook}

def finders (cell : Cell) (z : Float) (visits : List Visit) : List Visit :=
  visits.filter fun v => v.cell = cell ∧ v.outlook.Finds z

theorem marksIn_eq {visits : List Visit} (hz : terrain.height cell = some z) (hn : z.isNaN = false)
    (hsound : ∀ v ∈ visits, v.outlook.Sound fall highest) :
    marksIn terrain cell visits = (finders cell z visits).map fun v => v.outlook.depth z := by
  induction visits with
  | nil => rfl
  | cons v visits ih =>
    have ih := ih fun w hw => hsound w (List.mem_cons_of_mem _ hw)
    have hmark := (hsound v List.mem_cons_self).mark_eq hn
    rw [marksIn, List.filterMap_cons, ← marksIn, ih, Visit.markIn, hz, hmark, finders, finders,
      List.filter_cons]
    by_cases hcell : v.cell = cell
    · by_cases hf : v.outlook.Finds z
      · simp [hcell, hf]
      · simp [hcell, hf]
    · simp [hcell]

theorem Outlook.Finds.depthCell (h : o.Finds z) (hz : value z ≠ ⊥) :
    0.0 ≤ Shadow.depthCell (some (o.depth z)) ∧
      (0.0 < Shadow.depthCell (some (o.depth z)) ↔ o.FindsDeep z) := by
  obtain ⟨t, ht, hlt⟩ := h
  rw [Outlook.FindsDeep, Option.mem_def.1 ht, Outlook.depth, Option.mem_def.1 ht]
  by_cases hbelow : 0 < o.below
  · obtain ⟨hn, hpos⟩ := value_sub_pos hlt hz
    have hnn := (singleValue_narrow hn).1
    have hshown : Shadow.depthCell (some (t - z)) = Sample.ofFloat (t - z) :=
      if_neg (ne_true_of_eq_false hnn)
    rw [if_pos hbelow, Option.getD_some, hshown, and_iff_right hbelow]
    exact ⟨narrow_nonneg hn hpos.le, by simp [hlt]⟩
  · rw [if_neg hbelow, depthCell_zero.1]
    exact ⟨by decide +kernel, iff_of_false (by decide +kernel) fun h => hbelow h.1⟩

/-- A cell is shaded in the end exactly if the last visit that found it below its horizon found it
so for the second time in a row at least; what other visits found before does not matter. -/
theorem sweptShade_pos_iff [Resources] (dem : Raster Float32) (sun : Sun Float) (edges : Edges)
    (hrise : 0.0 ≤ sun.z)
    (hfinite : ∀ c h, dem.terrain.height c = some h → h.isFinite = true)
    (hroom : dem.shape.size * Sample.width Float32 ≤ Resources.block)
    (hz : dem.terrain.height cell = some z) :
    let highest := dem.statistics.highest.map Sample.toFloat
    let visits := visitsUnder dem.terrain sun edges
    ∃ cells shade, (sweptCells dem.terrain sun highest edges).outcome = .ok cells ∧
      cells[dem.shape.index cell]? = some shade ∧ 0.0 ≤ shade ∧
      (0.0 < shade ↔ ∃ v, (finders cell z visits).getLast? = some v ∧ v.outlook.FindsDeep z) := by
  intro highest visits
  have hc : Castable dem.terrain sun.z highest := castable_of_dem hrise (.inr hfinite)
  obtain ⟨hn, hbot⟩ := Raster.value_height hz
  have hmarks : marksIn dem.terrain cell visits = _ :=
    marksIn_eq hz hn fun v hv => hc.sound_of_mem hv
  obtain ⟨cells, hrun⟩ : ∃ cells, (sweptCells dem.terrain sun highest edges).outcome = .ok cells :=
    sweptCells_outcome hroom dem.size_lt_wordValues
  have hcell := hc.getElem?_sweptCells hrun (Raster.contains_of_height hz)
  refine ⟨cells, _, hrun, hcell, ?_⟩
  rw [hmarks, List.getLast?_map]
  cases hlast : (finders cell z visits).getLast? with
  | none =>
    rw [Option.map_none, depthCell_zero.2]
    refine ⟨by decide +kernel, iff_of_false (by decide +kernel) ?_⟩
    rintro ⟨v, hv, -⟩
    cases hv
  | some v =>
    have hfinds : v.outlook.Finds z :=
      (of_decide_eq_true (List.mem_filter.1 (List.mem_of_getLast? hlast)).2).2
    obtain ⟨hnonneg, hpos⟩ := hfinds.depthCell hbot
    exact ⟨hnonneg, by simpa using hpos⟩

/-- On a row with a wall in the west, whose shadow no ray takes away. -/
theorem sweptShade_pos_iff_wall :
    let dem : Raster Float32 := ⟨⟨1, 3⟩, #[20.0, 0.0, 0.0], .unit ⟨1, 3⟩, rfl, by decide⟩
    let sun : Sun Float := ⟨⟨-1.0, 0.0⟩, 1.0⟩
    let highest := dem.statistics.highest.map Sample.toFloat
    0.0 ≤ sun.z ∧ (∀ c h, dem.terrain.height c = some h → h.isFinite = true) ∧
      dem.terrain.height ⟨0, 2⟩ = some 0.0 ∧
      ∃ cells, ∃ shade : Float32,
        (sweptCells dem.terrain sun highest .bounded).outcome = .ok cells ∧
        cells[2]? = some shade ∧ 0.0 < shade := by
  intro dem sun highest
  have hrise : 0.0 ≤ sun.z := by decide +kernel
  have hz : dem.terrain.height ⟨0, 2⟩ = some 0.0 := by decide +kernel
  have hfinite : ∀ c h, dem.terrain.height c = some h → h.isFinite = true := by
    intro c h hh
    obtain ⟨v, hv, -, rfl⟩ := Raster.exists_of_height hh
    have hall : ∀ v ∈ dem.cells, (widen v).isFinite = true := by decide +kernel
    exact hall v hv
  obtain ⟨cells, shade, hrun, hshade, -, hiff⟩ :=
    sweptShade_pos_iff dem sun .bounded hrise hfinite (by decide) hz
  have hlast : ((finders ⟨0, 2⟩ 0.0 (visitsUnder dem.terrain sun .bounded)).getLast?.any fun v =>
      v.outlook.FindsDeep 0.0) = true := by
    decide +kernel
  obtain ⟨v, hv, hdeep⟩ := (Option.any_eq_true _ _).1 hlast
  exact ⟨hrise, hfinite, hz, cells, shade, hrun, hshade, hiff.2 ⟨v, hv, of_decide_eq_true hdeep⟩⟩

/-- A wall in the middle, under a sun in the west: the ray that starts on the wall finds the eastern
cell at its second step, and the one that starts in the west then finds it at its first. -/
theorem sweptShade_taken_away :
    let dem : Raster Float32 := ⟨⟨1, 3⟩, #[0.0, 20.0, 0.0],
      ⟨500000.0, 500003.0, 4000000.0, 4000001.0⟩, rfl, by decide⟩
    let sun : Sun Float := ⟨⟨-0.7044160264027587, 0.061628416716219415⟩, 0.7071067811865475⟩
    let highest := dem.statistics.highest.map Sample.toFloat
    (∀ v ∈ dem.cells, Sample.isVoid v = false ∧ v.isFinite = true) ∧ 0.0 ≤ sun.z ∧
      dem.terrain.height ⟨0, 2⟩ = some 0.0 ∧
      (∃ v ∈ visitsUnder dem.terrain sun .bounded, v.cell = ⟨0, 2⟩ ∧ v.outlook.FindsDeep 0.0) ∧
      (sweptCells dem.terrain sun highest .bounded).outcome.toOption = some #[0.0, 0.0, 0.0] := by
  intro dem sun highest
  refine ⟨by decide +kernel, by decide +kernel, by decide +kernel, ?_, by decide +kernel⟩
  have hany : ((visitsUnder dem.terrain sun .bounded).any fun v =>
      v.cell = ⟨0, 2⟩ ∧ v.outlook.FindsDeep 0.0) = true := by
    decide +kernel
  obtain ⟨v, hv, hfound⟩ := List.any_eq_true.1 hany
  exact ⟨v, hv, of_decide_eq_true hfound⟩

end Relief.Shadow
