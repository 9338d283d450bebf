import Relief.Proofs.Courses

namespace Relief

/-- A run that fails on checks and on nothing else. The first one violated gives the error, before
anything is reported; with none violated, a machine that affords the run brings it to a good
result, if all that is to be worked out comes to an end. -/
structure FailsOn {ρ : Type} (checks : List Check) (afforded finishes : Prop) (Good : ρ → Prop)
    (run : Logged ρ) : Prop where
  refused : ∀ e, firstViolated checks = some e → run = Logged.fail e
  error_iff : afforded → ∀ e, run.outcome = .error e ↔ firstViolated checks = some e
  fails_iff : afforded → ((∃ e, run.outcome = .error e) ↔ ∃ c ∈ checks, c.violated = true)
  ends : afforded → finishes → (∀ c ∈ checks, c.violated = false) →
    ∃ result, run.outcome = .ok result ∧ Good result

/-- Every march that a run makes comes to an end. -/
def Shadow.MarchesEnd [Trig Float] (dem : Raster Float32) (params : ShadowParams) : Prop :=
  params.method = .exact → ∀ geometry,
    (Geometry.resolve dem.extent dem.shape params.mercator).outcome = .ok geometry →
    let sun := Sun.ofPosition geometry.ground params.azimuth params.elevation
    let highest := dem.statistics.highest.map Sample.toFloat
    ∀ cell, dem.shape.Contains cell →
      ∃ shade, Gives dem.terrain sun.toMotion sun.z highest cell shade

section Failures

variable {ρ : Type} {checks : List Check} {run : Logged ρ} {afforded finishes : Prop}
  {Good : ρ → Prop}

theorem FailsOn.of_error_iff (hrefused : ∀ e, firstViolated checks = some e → run = Logged.fail e)
    (herror : afforded → ∀ e, run.outcome = .error e ↔ firstViolated checks = some e)
    (hends : afforded → firstViolated checks = none →
      ∃ result, run.outcome = .ok result ∧ Good result) :
    FailsOn checks afforded finishes Good run where
  refused := hrefused
  error_iff := herror
  fails_iff hafford := (exists_congr (herror hafford)).trans exists_firstViolated_iff
  ends hafford _ hnone := hends hafford (firstViolated_eq_none.2 hnone)

theorem Course.failsOn [Trig Float] {dem : Raster Float32} {start : Event}
    {Ends : List (Advisory Float) → ρ → List Event → Prop}
    (h : Course checks dem afforded start Ends run)
    (hgood : ∀ {found result details}, Ends found result details → Good result) :
    FailsOn checks afforded finishes Good run := by
  cases h with
  | @refused e hviolated hrun =>
    refine .of_error_iff ?_ (fun _ e' => ?_) fun _ hpassed => ?_
    · intro e' he'
      obtain rfl := Option.some.inj (hviolated.symm.trans he')
      exact hrun
    · rw [hrun, hviolated, Option.some.injEq]
      exact ⟨Except.error.inj, congrArg Except.error⟩
    · rw [hviolated] at hpassed
      cases hpassed
  | ended hpassed _ hrun hends =>
    refine .of_error_iff ?_ (fun _ e => ?_) fun _ _ => ?_
    · intro e he
      rw [hpassed] at he
      cases he
    · rw [hrun, hpassed]
      exact iff_of_false (fun h => by cases h) fun h => by cases h
    · rw [hrun]
      exact ⟨_, rfl, hgood hends⟩
  | lacking hpassed hlacks =>
    refine .of_error_iff ?_ (fun h => absurd h hlacks) fun h => absurd h hlacks
    intro e he
    rw [hpassed] at he
    cases he

theorem Course.error_ofMachine [Trig Float] {dem : Raster Float32} {start : Event}
    {Ends : List (Advisory Float) → ρ → List Event → Prop}
    (h : Course checks dem afforded start Ends run) (hpassed : firstViolated checks = none)
    (e : Error) (he : run.outcome = .error e) : e.ofMachine = true := by
  cases h with
  | refused hviolated =>
    rw [hpassed] at hviolated
    cases hviolated
  | ended _ _ hrun =>
    rw [hrun] at he
    cases he
  | lacking _ _ hrun hmachine =>
    rw [hrun] at he
    exact Except.error.inj he ▸ hmachine

/-- The analyses fail on what they check, in the order of the checks, and on nothing else. On a
machine that affords the run, every other input comes to rasters over its own grid, unless the march
of an exact run never ends. -/
theorem analyses_fail_on_checks [Trig Float] [Resources] (dem : Raster Float32) :
    (∀ params : ShadowParams,
      FailsOn (params.checks ++ Geometry.checks dem.extent dem.shape params.mercator)
        (Shadow.Affords dem.shape params) (Shadow.MarchesEnd dem params)
        (fun shade => shade.raster.Spans dem) (Shadow.cast dem params)) ∧
    ∀ params : OpennessParams,
      FailsOn (params.checks ++ Geometry.checks dem.extent dem.shape params.mercator)
        (Openness.Affords dem.shape params) True
        (fun sky => sky.positive.Spans dem ∧ sky.negative.Spans dem)
        (Openness.scan dem params) := by
  constructor
  · intro params
    exact (Shadow.cast_course dem params).failsOn And.left
  · intro params
    exact (Openness.scan_course dem params).failsOn And.left

end Failures

/-- Two cells on which both analyses come to a result. Of two violated checks the first tells the
error: the elevation before the workers, and no rows before edges that are no numbers. -/
theorem analyses_fail_on_checks_first :
    let dem : Raster Float32 := ⟨⟨1, 2⟩, #[Sample.void, 5.0],
      ⟨500000.0, 500002.0, 4000000.0, 4000001.0⟩, rfl, by decide⟩
    let rowless : Raster Float32 := ⟨⟨0, 2⟩, #[], ⟨0.0 / 0.0, 0.0 / 0.0, 0.0, 1.0 / 0.0⟩, rfl,
      by decide⟩
    let shadow : ShadowParams := ⟨315.0, 45.0, .fastSweep .bounded, none, 1⟩
    let openness : OpennessParams := ⟨8, 1, 4, none, 2⟩
    (∃ shade, (Shadow.cast dem shadow).outcome = .ok shade ∧ shade.raster.Spans dem) ∧
      (∃ sky, (Openness.scan dem openness).outcome = .ok sky ∧ sky.positive.Spans dem) ∧
      Shadow.cast dem { shadow with elevation := 91.0, workers := 0 } =
        Logged.fail (.invalidParameter (.elevationOutOfRange 91.0)) ∧
      Shadow.cast rowless shadow = Logged.fail (.invalidDimensions ⟨0, 2⟩) ∧
      Openness.scan dem { openness with stride := 9 } =
        Logged.fail (.invalidParameter (.strideTooLong 9 4)) := by
  intro dem rowless shadow openness
  obtain ⟨hcast, hscan⟩ := analyses_fail_on_checks dem
  obtain ⟨hrowless, -⟩ := analyses_fail_on_checks rowless
  have hsweep : Shadow.Affords dem.shape shadow := ⟨by decide, fun h => by cases h⟩
  have hpool : Openness.Affords dem.shape openness :=
    ⟨by decide, by decide, by decide, by decide⟩
  have hends : Shadow.MarchesEnd dem shadow := fun hmethod => by cases hmethod
  obtain ⟨shade, hshade, hspans⟩ := (hcast shadow).ends hsweep hends (by decide +kernel)
  obtain ⟨sky, hsky, hspans', -⟩ := (hscan openness).ends hpool trivial (by decide +kernel)
  exact ⟨⟨shade, hshade, hspans⟩, ⟨sky, hsky, hspans'⟩, (hcast _).refused _ (by decide +kernel),
    (hrowless shadow).refused _ (by decide +kernel), (hscan _).refused _ (by decide +kernel)⟩

end Relief
