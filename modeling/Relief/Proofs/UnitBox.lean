import Relief.Proofs.Failures
import Relief.Proofs.Finished

namespace Relief

open Binary

inductive Raster.Unplaced {τ : Type} [Sample τ] (raster : Raster τ) : Prop where
  | ofCells {cells : Array τ} {shape : Shape} (made : ofCells cells shape = .ok raster)
  | filled {shape : Shape} {v : τ} (made : filled shape v = .ok raster)
  | zeros {shape : Shape} (made : zeros shape = .ok raster)

namespace Raster

theorem Unplaced.extent_eq {τ : Type} [Sample τ] {raster : Raster τ} (h : raster.Unplaced) :
    raster.extent = .unit raster.shape := by
  cases h with
  | ofCells made =>
    obtain ⟨-, hshape, -, hextent⟩ := ofCells_eq_ok made
    rw [hextent, hshape]
  | filled made => exact extent_filled made
  | zeros made => exact extent_filled made

end Raster

/-- Unit cells in this shape do not reach beyond the globe both ways. -/
def Shape.Ambiguous (shape : Shape) : Prop :=
  shape.cols ≤ 181 ∨ shape.rows ≤ 91

instance (shape : Shape) : Decidable shape.Ambiguous :=
  inferInstanceAs (Decidable (_ ∨ _))

def Error.unplaced (shape : Shape) : Error :=
  .unknownProjection 0.0 shape.cols 0.0 shape.rows 1.0 1.0

section Box

variable {shape : Shape}

theorem unit_side {n : ℕ} (h : 0 < n) (hn : n < wordValues) : ((n : Float) - 0.0) / n = 1.0 := by
  have hword : n ≤ 2 ^ 64 := hn.le
  have hbetween := between_natCast h hword
  have hfinite := hbetween.isFinite
  have hpos : 0 < number (n : Float) := lt_of_lt_of_le (by norm_num) hbetween.lo_le
  -- The count itself may be rounded, but nothing is lost when the origin is taken from it.
  obtain ⟨hnan, hvalue⟩ := value_sub_number hfinite isFinite_zero
  rw [number_zero, sub_zero, ← value_of_isFinite hfinite, delivered_value,
    value_of_isFinite hfinite] at hvalue
  obtain ⟨hfinite', hnumber⟩ := isFinite_of_value_eq hnan hvalue
  exact div_eq_one_of_number hfinite' hfinite hnumber hpos.ne'

variable (hrows : 0 < shape.rows) (hcols : 0 < shape.cols) (hsize : shape.size < wordValues)

include hrows hcols hsize in
theorem Extent.spacing_unit : (unit shape : Extent Float).spacing shape = ⟨1.0, 1.0⟩ := by
  have hwidth := unit_side hcols ((Nat.le_mul_of_pos_left _ hrows).trans_lt hsize)
  have hheight := unit_side hrows ((Nat.le_mul_of_pos_right _ hcols).trans_lt hsize)
  exact congrArg₂ Spacing.mk hwidth hheight

theorem Projection.classify_unit (shape : Shape) :
    classify (.unit shape : Extent Float) ⟨1.0, 1.0⟩ =
      if shape.Ambiguous then .unknown else .projected := by
  have hcoarse : ¬ (magnitude (1.0 : Float) < 0.02 ∧ magnitude (1.0 : Float) < 0.02) := by
    decide +kernel
  have hwest : ¬ (0.0 : Float) < -181.0 := by decide +kernel
  have hsouth : ¬ (0.0 : Float) < -91.0 := by decide +kernel
  have heast : (181.0 : Float) < shape.cols ↔ 181 < shape.cols :=
    lt_natCast_iff (by decide +kernel) (by decide +kernel)
  have hnorth : (91.0 : Float) < shape.rows ↔ 91 < shape.rows :=
    lt_natCast_iff (by decide +kernel) (by decide +kernel)
  have hbeyond : ((0.0 : Float) < -181.0 ∨ (181.0 : Float) < shape.cols) ∧
      ((0.0 : Float) < -91.0 ∨ (91.0 : Float) < shape.rows) ↔ ¬ shape.Ambiguous := by
    rw [or_iff_right hwest, or_iff_right hsouth, heast, hnorth, Shape.Ambiguous, not_or, not_le,
      not_le]
  rw [classify, if_neg fun h => hcoarse h.1]
  by_cases h : shape.Ambiguous
  · rw [if_pos h]
    exact if_neg fun hcoords => hbeyond.1 hcoords h
  · rw [if_neg h]
    exact if_pos (hbeyond.2 h)

include hrows hcols hsize in
/-- Of all checks of a grid, a box of unit cells can only violate that it tells what it is. -/
theorem Geometry.firstViolated_checks_unit : firstViolated (checks (.unit shape) shape none) =
    if shape.Ambiguous then some (.unplaced shape) else none := by
  have hnonempty : shape.isEmpty = false := Shape.isEmpty_eq_false.2 ⟨hrows, hcols⟩
  have hpositive : (0.0 : Float) < 1.0 := by decide +kernel
  rw [checks, Extent.spacing_unit hrows hcols hsize, readingChecks, Projection.classify_unit,
    hnonempty, firstViolated_append]
  simp only [firstViolated_cons, hpositive, and_self, not_true_eq_false, decide_false,
    Bool.false_eq_true, if_false]
  by_cases h : shape.Ambiguous
  · simp only [if_pos h]
    rfl
  · simp only [if_neg h]
    rfl

include hrows hcols hsize in
theorem Geometry.resolve_unit_eq_ok [Trig Float] {geometry : Geometry}
    (h : (resolve (.unit shape) shape none).outcome = .ok geometry) :
    geometry.projection = .projected ∧ geometry.ground.aspect = 1.0 := by
  obtain ⟨hnative, -, hproject, hground, -⟩ := resolve_eq_ok h
  rw [Extent.spacing_unit hrows hcols hsize] at hnative
  unfold project at hproject
  rw [hnative, Projection.classify_unit] at hproject
  have hprojected : geometry.projection = .projected := by
    by_cases hreach : shape.Ambiguous
    · rw [if_pos hreach] at hproject
      cases hproject
    · rw [if_neg hreach] at hproject
      exact (Except.ok.inj hproject).symm
  rw [hprojected, groundSpacing, hnative] at hground
  rw [hground]
  exact ⟨hprojected, by decide +kernel⟩

end Box

/-- How a run on a raster without a box ends. If it is ambiguous it is refused and nothing is
reported. If not it is taken for projected, in square cells, and only the machine can fail it. -/
structure JudgedByReach {ρ : Type} (shape : Shape) (afforded finishes : Prop) (Good : ρ → Prop)
    (run : Logged ρ) : Prop where
  unknown_iff : run.outcome = .error (.unplaced shape) ↔ shape.Ambiguous
  silent : shape.Ambiguous → run.events = []
  projected : ¬ shape.Ambiguous →
    ∃ details, run.events = .geometryResolved .projected shape 1.0 :: details
  ends : ¬ shape.Ambiguous → afforded → finishes →
    ∃ result, run.outcome = .ok result ∧ Good result
  machine : ¬ shape.Ambiguous → ∀ e, run.outcome = .error e → e.ofMachine = true

section Runs

variable {ρ : Type} [Trig Float] {dem : Raster Float32} {checks : List Check}
  {afforded finishes : Prop} {start : Event} {Good : ρ → Prop}
  {Ends : List (Advisory Float) → ρ → List Event → Prop}
  {rest : Geometry → List (Advisory Float) → Logged ρ}

theorem Analysis.events_opened_unit (hunit : dem.extent = .unit dem.shape)
    (hrows : 0 < dem.shape.rows) (hcols : 0 < dem.shape.cols)
    (hpassed : firstViolated (checks ++ Geometry.checks dem.extent dem.shape none) = none) :
    ∃ details, (opened (refuse (firstViolated checks)) dem none rest).events =
      .geometryResolved .projected dem.shape 1.0 :: details := by
  rcases opened_cases checks dem none rest with ⟨e, he, -⟩ | ⟨-, geometry, hresolve, hrun⟩
  · rw [hpassed] at he
    cases he
  · rw [hunit] at hresolve
    obtain ⟨hprojected, haspect⟩ :=
      Geometry.resolve_unit_eq_ok hrows hcols dem.size_lt_wordValues hresolve
    rw [hrun, hprojected, haspect]
    exact ⟨_, rfl⟩

theorem JudgedByReach.of_course (hunit : dem.extent = .unit dem.shape)
    (hrows : 0 < dem.shape.rows) (hcols : 0 < dem.shape.cols)
    (hchecks : firstViolated checks = none)
    (hcourse : Course (checks ++ Geometry.checks dem.extent dem.shape none) dem afforded start Ends
      (Analysis.opened (refuse (firstViolated checks)) dem none rest))
    (hgood : ∀ {found result details}, Ends found result details → Good result) :
    JudgedByReach dem.shape afforded finishes Good
      (Analysis.opened (refuse (firstViolated checks)) dem none rest) := by
  have hviolated : firstViolated (checks ++ Geometry.checks dem.extent dem.shape none) =
      if dem.shape.Ambiguous then some (.unplaced dem.shape) else none := by
    rw [firstViolated_append, hchecks, hunit,
      Geometry.firstViolated_checks_unit hrows hcols dem.size_lt_wordValues]
    rfl
  have hfails : FailsOn _ afforded finishes Good _ := hcourse.failsOn hgood
  by_cases hreach : dem.shape.Ambiguous
  · rw [if_pos hreach] at hviolated
    rw [hfails.refused _ hviolated]
    exact
      { unknown_iff := iff_of_true rfl hreach
        silent := fun _ => rfl
        projected := fun h => absurd hreach h
        ends := fun h => absurd hreach h
        machine := fun h => absurd hreach h }
  · rw [if_neg hreach] at hviolated
    have hmachine := hcourse.error_ofMachine hviolated
    exact
      { unknown_iff := iff_of_false (fun h => by cases hmachine _ h) hreach
        silent := fun h => absurd h hreach
        projected := fun _ => Analysis.events_opened_unit hunit hrows hcols hviolated
        ends := fun _ hafford hends =>
          hfails.ends hafford hends (firstViolated_eq_none.1 hviolated)
        machine := fun _ => hmachine }

variable [Resources]

/-- A raster that was never given a box is refused by both analyses exactly if it is ambiguous, with
at most 181 columns or at most 91 rows. A larger one is analysed as if it were projected, and comes
to a result unless the march of an exact run never ends. -/
theorem unplaced_judged_by_reach (hdem : dem.Unplaced) (hrows : 0 < dem.shape.rows)
    (hcols : 0 < dem.shape.cols) :
    (∀ params : ShadowParams, params.validate = .ok () → params.mercator = none →
      JudgedByReach dem.shape (Shadow.Affords dem.shape params) (Shadow.MarchesEnd dem params)
        (fun shade => shade.raster.Spans dem) (Shadow.cast dem params)) ∧
    ∀ params : OpennessParams, params.validate = .ok () → params.mercator = none →
      JudgedByReach dem.shape (Openness.Affords dem.shape params) True
        (fun sky => sky.positive.Spans dem ∧ sky.negative.Spans dem)
        (Openness.scan dem params) := by
  have hunit := hdem.extent_eq
  constructor
  · intro params hvalid hmercator
    have hcourse := Shadow.cast_course dem params
    rw [ShadowParams.validate_eq] at hvalid
    rw [Shadow.cast_eq_opened, ShadowParams.validate_eq, hmercator] at hcourse ⊢
    exact .of_course hunit hrows hcols (refuse_eq_ok hvalid) hcourse And.left
  · intro params hvalid hmercator
    have hcourse := Openness.scan_course dem params
    rw [OpennessParams.validate_eq] at hvalid
    rw [Openness.scan_eq_opened, OpennessParams.validate_eq, hmercator] at hcourse ⊢
    exact .of_course hunit hrows hcols (refuse_eq_ok hvalid) hcourse And.left

end Runs

/-- Of 92 rows, 181 columns are refused by both analyses; with one column more both come to a
result. -/
theorem unplaced_judged_by_reach_columns :
    letI := tableTrig
    let sun : ShadowParams := ⟨90.0, 90.0, .exact, none, 1⟩
    let rose : OpennessParams := .standard 1
    ∃ narrow wide : Raster Float32,
      Raster.filled ⟨92, 181⟩ 5.0 = .ok narrow ∧ Raster.filled ⟨92, 182⟩ 5.0 = .ok wide ∧
      sun.validate = .ok () ∧ sun.mercator = none ∧ rose.validate = .ok () ∧ rose.mercator = none ∧
      (Shadow.cast narrow sun).outcome = .error (.unplaced ⟨92, 181⟩) ∧
      (Openness.scan narrow rose).outcome = .error (.unplaced ⟨92, 181⟩) ∧
      (∃ shade, (Shadow.cast wide sun).outcome = .ok shade ∧ shade.raster.Spans wide) ∧
      ∃ sky, (Openness.scan wide rose).outcome = .ok sky ∧ sky.positive.Spans wide := by
  let : Trig Float := tableTrig
  intro sun rose
  have hsun : sun.validate = .ok () := by decide +kernel
  have hrose : rose.validate = .ok () := by decide +kernel
  obtain ⟨narrow, hnarrow, hshape⟩ : ∃ raster : Raster Float32,
      Raster.filled ⟨92, 181⟩ 5.0 = .ok raster ∧ raster.shape = ⟨92, 181⟩ :=
    Raster.exists_filled (by decide)
  obtain ⟨wide, hwide, hshape'⟩ : ∃ raster : Raster Float32,
      Raster.filled ⟨92, 182⟩ 5.0 = .ok raster ∧ raster.shape = ⟨92, 182⟩ :=
    Raster.exists_filled (by decide)
  obtain ⟨hcast, hscan⟩ := unplaced_judged_by_reach (.filled hnarrow) (by rw [hshape]; decide)
    (by rw [hshape]; decide)
  obtain ⟨hcast', hscan'⟩ := unplaced_judged_by_reach (.filled hwide) (by rw [hshape']; decide)
    (by rw [hshape']; decide)
  have hends : Shadow.MarchesEnd wide sun := by
    intro _ geometry hgeometry light highest cell _
    rw [Raster.extent_filled hwide, hshape'] at hgeometry
    have hground : geometry.ground = ⟨1.0, 1.0⟩ :=
      Geometry.ground_of_resolved (by decide +kernel) hgeometry
    refine Shadow.exists_gives_of_low (fun v hv w hw => ?_) cell
    rw [Raster.cells_filled hwide v hv, Raster.cells_filled hwide w hw]
    change ¬ widen 5.0 + (Sun.ofPosition _ 90.0 90.0).z ≤ widen 5.0
    rw [hground]
    decide +kernel
  have hshadow := hcast sun hsun rfl
  have hopenness := hscan rose hrose rfl
  have hshadow' := hcast' sun hsun rfl
  have hopenness' := hscan' rose hrose rfl
  rw [hshape] at hshadow hopenness
  rw [hshape'] at hshadow' hopenness'
  have hnear : Shape.Ambiguous ⟨92, 181⟩ := .inl le_rfl
  have hfar : ¬ Shape.Ambiguous ⟨92, 182⟩ := by decide
  obtain ⟨shade, hshade, hspans⟩ := hshadow'.ends hfar
    ⟨by decide, fun _ => ⟨by decide, by decide⟩⟩ hends
  obtain ⟨sky, hsky, hspans', -⟩ := hopenness'.ends hfar
    ⟨by decide, by decide, by decide, by decide⟩ trivial
  exact ⟨narrow, wide, hnarrow, hwide, hsun, rfl, hrose, rfl, hshadow.unknown_iff.2 hnear,
    hopenness.unknown_iff.2 hnear, ⟨shade, hshade, hspans⟩, sky, hsky, hspans'⟩

theorem filled_without_box_analysed :
    let sun : ShadowParams := ⟨315.0, 45.0, .fastSweep .periodic, none, 1⟩
    let rose : OpennessParams := .standard 1
    ∃ dem : Raster Float32, Raster.filled ⟨92, 182⟩ 0.0 = .ok dem ∧
      sun.validate = .ok () ∧ sun.mercator = none ∧ rose.validate = .ok () ∧ rose.mercator = none ∧
      (∃ shade, (Shadow.cast dem sun).outcome = .ok shade) ∧
      ∃ sky, (Openness.scan dem rose).outcome = .ok sky := by
  intro sun rose
  have hsun : firstViolated sun.checks = none := by decide +kernel
  have hrose : firstViolated rose.checks = none := by decide +kernel
  have hgrid : firstViolated (Geometry.checks (.unit ⟨92, 182⟩) ⟨92, 182⟩ none) = none :=
    Geometry.firstViolated_checks_unit (by decide) (by decide) (by decide)
  obtain ⟨dem, hdem, hshape⟩ : ∃ raster : Raster Float32,
      Raster.filled ⟨92, 182⟩ 0.0 = .ok raster ∧ raster.shape = ⟨92, 182⟩ :=
    Raster.exists_filled (by decide)
  have hcast := Shadow.cast_course dem sun
  have hscan := Openness.scan_course dem rose
  rw [Raster.extent_filled hdem, hshape] at hcast hscan
  refine ⟨dem, hdem, by decide +kernel, rfl, by decide +kernel, rfl, ?_, ?_⟩
  · refine hcast.exists_result ?_ ⟨by decide, fun h => by cases h⟩
    rw [firstViolated_append, hsun]
    exact hgrid
  · refine hscan.exists_result ?_ ⟨by decide, by decide, by decide, by decide⟩
    rw [firstViolated_append, hrose]
    exact hgrid

end Relief
