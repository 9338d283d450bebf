import Relief.Proofs.Courses

namespace Relief

theorem Advisory.ofSize_ne_voidCells [Trig Float] (extent : Extent Float) (projection : Projection)
    (count : ℕ) : ofSize extent projection ≠ some (.voidCells count) := by
  cases projection with
  | geographic =>
    rw [ofSize]
    split_ifs <;> simp
  | projected =>
    rw [ofSize]
    split_ifs <;> simp
  | mercator band => exact (Option.some_ne_none _).symm
  | unknown => exact (Option.some_ne_none _).symm

theorem voidCells_mem_findings [Trig Float] {dem : Raster Float32} {projection : Projection}
    {count : ℕ} : .voidCells count ∈ Analysis.findings dem projection ↔
      0 < count ∧ count = dem.cells.countP Sample.isVoid := by
  have hsize := Advisory.ofSize_ne_voidCells dem.extent projection count
  rw [Analysis.findings, List.mem_append, Option.mem_toList, Option.mem_toList, or_iff_right hsize,
    Analysis.voidFinding]
  split_ifs with hvoids
  · rw [hvoids]
    exact iff_of_false (fun h => by cases h) fun h => h.1.ne' h.2
  · rw [Option.some.injEq, Advisory.voidCells.injEq]
    constructor
    · rintro rfl
      exact ⟨Nat.pos_of_ne_zero hvoids, rfl⟩
    · exact fun h => h.2.symm

/-- The reports of a run: none if it is refused, and otherwise its geometry, the findings of its
result as warnings, its start and then the details, in this order. -/
structure Reports {ρ : Type} [Trig Float] (dem : Raster Float32) (start : Event)
    (Details : List Event → Prop) (advisories : ρ → List (Advisory Float)) (run : Logged ρ) :
    Prop where
  silent : ∀ e, run.outcome = .error e → e.ofMachine = false → run.events = []
  ordered : ∀ result, run.outcome = .ok result → ∃ projection aspect details,
    run.events = .geometryResolved projection dem.shape aspect ::
      ((advisories result).map .advisory ++ start :: details) ∧
    advisories result = Analysis.findings dem projection ∧ Details details ∧
    start.level = .info ∧ ∀ event ∈ details, event.level = .debug
  warned : ∀ result, run.outcome = .ok result →
    (run.events.filter (·.level = .warn)).map (·.message) = (advisories result).map (·.message)
  voids : ∀ result, run.outcome = .ok result → ∀ count,
    .voidCells count ∈ advisories result ↔ 0 < count ∧ count = dem.cells.countP Sample.isVoid

section Reported

variable {details : List Event} {start : Event}

theorem BlocksDone.level {rows : ℕ} (h : BlocksDone rows details) :
    ∀ event ∈ details, event.level = .debug := by
  obtain ⟨blocks, rfl, -⟩ := h
  intro event hevent
  obtain ⟨block, -, rfl⟩ := List.mem_map.1 hevent
  rfl

theorem Shadow.Details.level {rows : ℕ} {method : ShadowMethod} (h : Details rows details method) :
    ∀ event ∈ details, event.level = .debug := by
  cases method with
  | exact => exact BlocksDone.level h
  | fastSweep edges =>
    obtain ⟨event, rfl, hevent⟩ := h
    rw [List.forall_mem_singleton]
    rcases hevent with rfl | ⟨budget, rfl⟩
    · rfl
    · rfl

theorem filter_warn {projection : Projection} {shape : Shape} {aspect : Float}
    {found : List (Advisory Float)} (hstart : start.level = .info)
    (hdetails : ∀ event ∈ details, event.level = .debug) :
    (.geometryResolved projection shape aspect :: (found.map .advisory ++ start :: details) :
      List Event).filter (·.level = .warn) = found.map .advisory := by
  have hfound : (found.map Event.advisory).filter (·.level = .warn) = found.map .advisory := by
    rw [List.filter_eq_self]
    intro event hevent
    obtain ⟨finding, -, rfl⟩ := List.mem_map.1 hevent
    rfl
  have hrest : (start :: details).filter (·.level = .warn) = [] := by
    rw [List.filter_eq_nil_iff, List.forall_mem_cons]
    refine ⟨by simp [hstart], fun event hevent => ?_⟩
    simp [hdetails event hevent]
  rw [List.filter_cons_of_neg (by simp [Event.level]), List.filter_append, hfound, hrest,
    List.append_nil]

variable [Trig Float] {ρ : Type} {dem : Raster Float32} {Details : List Event → Prop}
  {advisories : ρ → List (Advisory Float)} {run : Logged ρ}

theorem Reports.of_error {e : Error} (hrun : run.outcome = .error e)
    (hsilent : e.ofMachine = false → run.events = []) :
    Reports dem start Details advisories run := by
  have hnone (result : ρ) : run.outcome ≠ .ok result := by
    rw [hrun]
    exact fun h => by cases h
  refine ⟨fun e' he' hmachine => ?_, fun r hr => absurd hr (hnone r),
    fun r hr => absurd hr (hnone r), fun r hr => absurd hr (hnone r)⟩
  obtain rfl := Except.error.inj (hrun.symm.trans he')
  exact hsilent hmachine

theorem Reports.of_ok {projection : Projection} {aspect : Float} {result : ρ}
    (hrun : run = ⟨.geometryResolved projection dem.shape aspect ::
      ((advisories result).map .advisory ++ start :: details), .ok result⟩)
    (hfound : advisories result = Analysis.findings dem projection) (hdetails : Details details)
    (hstart : start.level = .info) (hlevel : ∀ event ∈ details, event.level = .debug) :
    Reports dem start Details advisories run := by
  subst hrun
  constructor
  · intro e he
    cases he
  · rintro _ ⟨⟩
    exact ⟨projection, aspect, details, rfl, hfound, hdetails, hstart, hlevel⟩
  · rintro _ ⟨⟩
    dsimp only
    rw [filter_warn hstart hlevel, List.map_map]
    rfl
  · rintro _ ⟨⟩ count
    rw [hfound]
    exact voidCells_mem_findings

theorem Course.reports {checks : List Check} {afforded : Prop}
    {Ends : List (Advisory Float) → ρ → List Event → Prop}
    (h : Course checks dem afforded start Ends run)
    (hends : ∀ {found result details}, Ends found result details →
      advisories result = found ∧ Details details)
    (hstart : start.level = .info)
    (hlevel : ∀ {details}, Details details → ∀ event ∈ details, event.level = .debug) :
    Reports dem start Details advisories run := by
  cases h with
  | refused _ hrun =>
    rw [hrun]
    exact .of_error rfl fun _ => rfl
  | ended _ _ hrun hresult =>
    obtain ⟨hfound, hdetails⟩ := hends hresult
    rw [← hfound] at hrun
    exact .of_ok hrun hfound hdetails hstart (hlevel hdetails)
  | lacking _ _ he hmachine =>
    refine .of_error he fun hnot => ?_
    rw [hmachine] at hnot
    cases hnot

/-- The reports of an analysis match its result. A run refused for what it was given reports
nothing. One that comes to a result reports the geometry first, then a warning for each of the
result's findings, in their order and with their wording, then its start, and only then the sweeps
or the blocks of rows. The findings are at most one on the size of the map and then one on the
voids, with their number, if there are any. -/
theorem analyses_report_results [Resources] (dem : Raster Float32) :
    (∀ params : ShadowParams,
      Reports dem (Shadow.startEvent dem params)
        (fun details => Shadow.Details dem.shape.rows details params.method) (·.advisories)
        (Shadow.cast dem params)) ∧
    ∀ params : OpennessParams,
      Reports dem (Openness.startEvent dem params) (BlocksDone dem.shape.rows) (·.advisories)
        (Openness.scan dem params) := by
  constructor
  · intro params
    exact (Shadow.cast_course dem params).reports And.right rfl Shadow.Details.level
  · intro params
    exact (Openness.scan_course dem params).reports And.right rfl BlocksDone.level

end Reported

theorem analyses_report_results_void :
    let dem : Raster Float32 := ⟨⟨2, 1⟩, #[Sample.void, 5.0],
      ⟨500000.0, 500001.0, 4000000.0, 4000002.0⟩, rfl, by decide⟩
    let params : ShadowParams := ⟨315.0, 45.0, .exact, none, 3⟩
    (∃ shade, (Shadow.cast dem params).outcome = .ok shade ∧ .voidCells 1 ∈ shade.advisories ∧
      ((Shadow.cast dem params).events.filter (·.level = .warn)).map (·.message) =
        shade.advisories.map (·.message)) ∧
      (Shadow.cast dem { params with azimuth := 1.0 / 0.0 }).events = [] := by
  intro dem params
  obtain ⟨hreports, -⟩ := analyses_report_results dem
  constructor
  · have hpassed : firstViolated
        (params.checks ++ Geometry.checks dem.extent dem.shape params.mercator) = none := by
      decide +kernel
    obtain ⟨shade, hshade⟩ : ∃ shade, (Shadow.cast dem params).outcome = .ok shade := by
      cases Shadow.cast_course dem params with
      | refused hviolated =>
        rw [hpassed] at hviolated
        cases hviolated
      | ended _ _ hrun => exact ⟨_, congrArg Logged.outcome hrun⟩
      | lacking _ hlacks =>
        exact absurd ⟨by decide, fun _ => ⟨by decide, by decide⟩⟩ hlacks
    have hvoids : dem.cells.countP Sample.isVoid = 1 := by decide +kernel
    refine ⟨shade, hshade, ?_, (hreports params).warned shade hshade⟩
    rw [(hreports params).voids shade hshade, hvoids]
    exact ⟨Nat.one_pos, rfl⟩
  · have hvalid : { params with azimuth := 1.0 / 0.0 }.validate =
        .error (.invalidParameter (.azimuthNotFinite (1.0 / 0.0))) := by
      decide +kernel
    refine (hreports _).silent (.invalidParameter (.azimuthNotFinite (1.0 / 0.0))) ?_ rfl
    rw [Shadow.cast, hvalid]
    rfl

end Relief
