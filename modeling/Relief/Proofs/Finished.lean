import Relief.Proofs.Courses

namespace Relief

variable {dem : Raster Float32} {cell : Cell}

theorem Raster.get?_ofElevations {cells : Array Float32} {raster : Raster Float32}
    (h : ofElevations cells dem.shape dem.extent = .ok raster) (hcell : dem.shape.Contains cell) :
    raster.get? cell = cells[dem.shape.index cell]? := by
  obtain ⟨-, hshape, hcells, -⟩ := ofElevations_eq_ok h
  rw [get?, hshape, hcells, if_pos hcell]

section

variable {ρ : Type} [Trig Float] {validated : Except Error Unit} {mercator : Option LatitudeBand}
  {rest : Geometry → List (Advisory Float) → Logged ρ} {result : ρ}

/-- What comes to a result has passed its checks and gone on with its grid resolved. -/
theorem Analysis.opened_eq_ok (h : (opened validated dem mercator rest).outcome = .ok result) :
    validated = .ok () ∧ ∃ geometry advisories,
      (Geometry.resolve dem.extent dem.shape mercator).outcome = .ok geometry ∧
        (rest geometry advisories).outcome = .ok result := by
  obtain ⟨_, hvalid, h⟩ := Logged.exists_of_bind_ok h
  obtain ⟨geometry, hgeometry, h⟩ := Logged.exists_of_bind_ok h
  obtain ⟨advisories, -, h⟩ := Logged.exists_of_bind_ok h
  exact ⟨hvalid, geometry, advisories, hgeometry, h⟩

end

theorem Course.exists_result [Trig Float] {ρ : Type} {checks : List Check} {afforded : Prop}
    {start : Event} {Good : List (Advisory Float) → ρ → List Event → Prop} {run : Logged ρ}
    (h : Course checks dem afforded start Good run) (hpassed : firstViolated checks = none)
    (hafford : afforded) : ∃ result, run.outcome = .ok result := by
  cases h with
  | refused hviolated =>
    rw [hpassed] at hviolated
    cases hviolated
  | ended _ _ hrun => exact ⟨_, congrArg Logged.outcome hrun⟩
  | lacking _ hlacks => exact absurd hafford hlacks

variable [Trig Float] [Resources]

theorem Shadow.cast_eq_ok {params : ShadowParams} {shade : Shade}
    (h : (cast dem params).outcome = .ok shade) :
    params.validate = .ok () ∧ ∃ geometry cells,
      (Geometry.resolve dem.extent dem.shape params.mercator).outcome = .ok geometry ∧
        (castCells dem params geometry).outcome = .ok cells ∧
        ∀ cell, dem.shape.Contains cell →
          shade.raster.get? cell = cells[dem.shape.index cell]? := by
  rw [cast_eq_opened] at h
  obtain ⟨hvalid, geometry, advisories, hgeometry, hrest⟩ := Analysis.opened_eq_ok h
  obtain ⟨_, -, hrest⟩ := Logged.exists_of_bind_ok hrest
  obtain ⟨cells, hcells, hrest⟩ := Logged.exists_of_bind_ok hrest
  obtain ⟨raster, hraster, hrest⟩ := Logged.exists_of_bind_ok hrest
  obtain rfl := Except.ok.inj hrest
  exact ⟨hvalid, geometry, cells, hgeometry, hcells,
    fun cell hcell => Raster.get?_ofElevations hraster hcell⟩

theorem Openness.getElem?_sidesCells {shape : Shape} {workers : ℕ}
    {profile : Array (Option (Horizon Float)) → Cell → Array (Option (Horizon Float))}
    {horizons : Cell → Array (Option (Horizon Float))} {positive negative : Array Float32}
    (hprofile : ∀ buffer cell, profile buffer cell = horizons cell)
    (hrun : (sidesCells shape profile workers).outcome = .ok (positive, negative))
    (hword : shape.size < wordValues) (hcell : shape.Contains cell) :
    let openness := ofHorizons (horizons cell)
    positive[shape.index cell]? = some (sideCell openness.positive) ∧
      negative[shape.index cell]? = some (sideCell openness.negative) := by
  by_cases h : Suffices shape workers
  · rw [(sidesCells_eq h hword hprofile).1] at hrun
    obtain ⟨rfl, rfl⟩ := Prod.mk.inj (Except.ok.inj hrun)
    exact ⟨Shape.getElem?_table hcell, Shape.getElem?_table hcell⟩
  · obtain ⟨e, he, -⟩ := sidesCells_refused h hword profile
    rw [he] at hrun
    cases hrun

theorem Openness.scan_eq_ok {params : OpennessParams} {sky : SkyView}
    (h : (scan dem params).outcome = .ok sky) :
    params.validate = .ok () ∧ ∃ geometry directions,
      (Geometry.resolve dem.extent dem.shape params.mercator).outcome = .ok geometry ∧
        Direction.rose params.directions geometry.ground = .ok directions ∧
        ∀ cell, dem.shape.Contains cell →
          let openness := ofCell dem.terrain directions params.stride params.maxDistance cell
          sky.positive.get? cell = some (sideCell openness.positive) ∧
            sky.negative.get? cell = some (sideCell openness.negative) := by
  rw [scan_eq_opened] at h
  obtain ⟨hvalid, geometry, advisories, hgeometry, hrest⟩ := Analysis.opened_eq_ok h
  obtain ⟨directions, hrose, hrest⟩ := Logged.exists_of_bind_ok hrest
  obtain ⟨_, -, hrest⟩ := Logged.exists_of_bind_ok hrest
  obtain ⟨⟨above, below⟩, hcells, hrest⟩ := Logged.exists_of_bind_ok hrest
  obtain ⟨positive, hpositive, hrest⟩ := Logged.exists_of_bind_ok hrest
  obtain ⟨negative, hnegative, hrest⟩ := Logged.exists_of_bind_ok hrest
  obtain rfl := Except.ok.inj hrest
  refine ⟨hvalid, geometry, directions, hgeometry, hrose, ?_⟩
  intro cell hcell openness
  obtain ⟨habove, hbelow⟩ := getElem?_sidesCells
    (dem.profileInto_eq_profile directions params.stride params.maxDistance) hcells
    dem.size_lt_wordValues hcell
  exact ⟨(Raster.get?_ofElevations hpositive hcell).trans habove,
    (Raster.get?_ofElevations hnegative hcell).trans hbelow⟩

end Relief
