import Relief.Analysis
import Relief.Openness.Params
import Relief.Shadow.Params
import Relief.Proofs.Resolution
import Relief.Proofs.Statistics

namespace Relief

structure Check where
  violated : Bool
  error : Error

def firstViolated (checks : List Check) : Option Error :=
  (checks.find? (·.violated)).map (·.error)

def refuse : Option Error → Except Error Unit
  | some e => .error e
  | none => .ok ()

theorem refuse_eq_ok {e : Option Error} (h : refuse e = .ok ()) : e = none := by
  cases e with
  | none => rfl
  | some e => cases h

section

variable {checks others : List Check} {c : Check}

theorem firstViolated_cons :
    firstViolated (c :: checks) = if c.violated then some c.error else firstViolated checks := by
  rw [firstViolated, List.find?_cons]
  cases c.violated with
  | true => rfl
  | false => rfl

theorem firstViolated_append :
    firstViolated (checks ++ others) = (firstViolated checks).or (firstViolated others) := by
  rw [firstViolated, List.find?_append, Option.map_or]
  rfl

theorem firstViolated_eq_none :
    firstViolated checks = none ↔ ∀ c ∈ checks, c.violated = false := by
  rw [firstViolated, Option.map_eq_none_iff, List.find?_eq_none]
  simp only [Bool.not_eq_true]

theorem exists_firstViolated_iff :
    (∃ e, firstViolated checks = some e) ↔ ∃ c ∈ checks, c.violated = true := by
  rw [← Option.isSome_iff_exists, firstViolated, Option.isSome_map, List.find?_isSome]

end

namespace ShadowParams

def checks (p : ShadowParams) : List Check :=
  [⟨!p.azimuth.isFinite, .invalidParameter (.azimuthNotFinite p.azimuth)⟩,
    ⟨¬ (0.0 ≤ p.elevation ∧ p.elevation ≤ 90.0),
      .invalidParameter (.elevationOutOfRange p.elevation)⟩,
    ⟨p.workers = 0, .invalidParameter .noWorkers⟩]

theorem validate_eq (p : ShadowParams) : p.validate = refuse (firstViolated p.checks) := by
  rw [validate, checks, firstViolated_cons, firstViolated_cons, firstViolated_cons]
  simp only [decide_eq_true_eq]
  split_ifs <;> rfl

theorem workers_pos (p : ShadowParams) (h : firstViolated p.checks = none) : 0 < p.workers := by
  have hnone := firstViolated_eq_none.1 h ⟨p.workers = 0, .invalidParameter .noWorkers⟩
    (by simp [checks])
  exact Nat.pos_of_ne_zero (of_decide_eq_false hnone)

end ShadowParams

namespace OpennessParams

def checks (p : OpennessParams) : List Check :=
  p.counts.map (fun count => ⟨count.2 = 0, .invalidParameter (.notPositive count.1)⟩) ++
    [⟨p.maxDistance < p.stride, .invalidParameter (.strideTooLong p.stride p.maxDistance)⟩]

theorem validate_eq (p : OpennessParams) : p.validate = refuse (firstViolated p.checks) := by
  have hcounts : firstViolated
      (p.counts.map fun count => ⟨count.2 = 0, .invalidParameter (.notPositive count.1)⟩) =
      (p.counts.find? (·.2 = 0)).map fun count => .invalidParameter (.notPositive count.1) := by
    rw [firstViolated, List.find?_map, Option.map_map]
    rfl
  rw [validate, checks, firstViolated_append, hcounts, firstViolated_cons]
  cases p.counts.find? (·.2 = 0) with
  | some count => rfl
  | none =>
    simp only [decide_eq_true_eq]
    split_ifs <;> rfl

theorem workers_pos (p : OpennessParams) (h : firstViolated p.checks = none) : 0 < p.workers := by
  have hnone := firstViolated_eq_none.1 h
    ⟨p.workers = 0, .invalidParameter (.notPositive "workers")⟩ (by simp [checks, counts])
  exact Nat.pos_of_ne_zero (of_decide_eq_false hnone)

end OpennessParams

namespace Geometry

def readingChecks (extent : Extent Float) (native : Spacing Float)
    (mercator : Option LatitudeBand) : List Check :=
  let reading := Projection.classify extent native
  [⟨reading = .unknown, .unknownProjection extent.xmin extent.xmax extent.ymin extent.ymax
      native.x native.y⟩,
    ⟨reading = .geographic ∧ mercator.isSome, .mercatorWithGeographic⟩]

def checks (extent : Extent Float) (shape : Shape) (mercator : Option LatitudeBand) : List Check :=
  let native := extent.spacing shape
  [⟨shape.isEmpty, .invalidDimensions shape⟩,
    ⟨¬ (0.0 < native.x ∧ 0.0 < native.y),
      .invalidExtent extent.xmin extent.xmax extent.ymin extent.ymax⟩] ++
    readingChecks extent native mercator

theorem project_cases (extent : Extent Float) (native : Spacing Float)
    (mercator : Option LatitudeBand) :
    (∃ e, firstViolated (readingChecks extent native mercator) = some e ∧
      project extent native mercator = .error e) ∨
    firstViolated (readingChecks extent native mercator) = none ∧
      ∃ projection, project extent native mercator = .ok projection := by
  unfold project readingChecks
  simp only [firstViolated_cons, decide_eq_true_eq]
  generalize Projection.classify extent native = reading
  cases reading with
  | unknown => exact .inl ⟨_, rfl, rfl⟩
  | geographic =>
    cases mercator with
    | some band => exact .inl ⟨_, rfl, rfl⟩
    | none => exact .inr ⟨rfl, _, rfl⟩
  | projected =>
    cases mercator with
    | some band => exact .inr ⟨rfl, _, rfl⟩
    | none => exact .inr ⟨rfl, _, rfl⟩
  | mercator read =>
    cases mercator with
    | some band => exact .inr ⟨rfl, _, rfl⟩
    | none => exact .inr ⟨rfl, _, rfl⟩

/-- A grid is refused with the error of the first check that it violates. One that violates none is
resolved, and reported with all its findings. -/
theorem resolve_cases [Trig Float] (extent : Extent Float) (shape : Shape)
    (mercator : Option LatitudeBand) :
    (∃ e, firstViolated (checks extent shape mercator) = some e ∧
      resolve extent shape mercator = Logged.fail e) ∨
    firstViolated (checks extent shape mercator) = none ∧ ∃ geometry : Geometry,
      resolve extent shape mercator =
        ⟨.geometryResolved geometry.projection shape geometry.ground.aspect ::
          geometry.advisories.map .advisory, .ok geometry⟩ := by
  rw [resolve, checks, firstViolated_append]
  simp only [firstViolated_cons, decide_eq_true_eq]
  cases shape.isEmpty with
  | true => exact .inl ⟨_, rfl, rfl⟩
  | false =>
    by_cases hpos : 0.0 < (extent.spacing shape).x ∧ 0.0 < (extent.spacing shape).y
    · rw [if_pos hpos, if_neg (not_not.2 hpos)]
      rcases project_cases extent (extent.spacing shape) mercator with
        ⟨e, hviolated, hproject⟩ | ⟨hpassed, projection, hproject⟩
      · rw [hviolated, hproject]
        exact .inl ⟨e, rfl, rfl⟩
      · rw [hpassed, hproject]
        let native := extent.spacing shape
        let geometry : Geometry := ⟨projection, native, groundSpacing extent native projection,
          (Advisory.ofSize extent projection).toList⟩
        refine .inr ⟨rfl, geometry, ?_⟩
        exact congrArg₂ Logged.mk (congrArg (List.cons _) (List.append_nil _)) rfl
    · rw [if_neg hpos, if_pos hpos]
      exact .inl ⟨_, rfl, rfl⟩

end Geometry

namespace Analysis

def voidFinding (voids : ℕ) : Option (Advisory Float) :=
  if voids = 0 then none else some (.voidCells voids)

theorem advise_eq (geometry : Geometry) (voids : ℕ) :
    advise geometry voids = ⟨(voidFinding voids).toList.map .advisory,
      .ok (geometry.advisories ++ (voidFinding voids).toList)⟩ := by
  rw [advise, voidFinding]
  by_cases hvoids : voids = 0
  · rw [if_pos hvoids, if_pos hvoids, Option.toList_none, List.append_nil]
    rfl
  · rw [if_neg hvoids, if_neg hvoids]
    rfl

/-- What there is to find in a raster of some projection: on the size of the map at most once, and
then on its voids if it has any. -/
def findings [Trig Float] (dem : Raster Float32) (projection : Projection) :
    List (Advisory Float) :=
  (Advisory.ofSize dem.extent projection).toList ++
    (voidFinding (dem.cells.countP Sample.isVoid)).toList

variable {ρ : Type} [Trig Float]

/-- A run that opens as every analysis does: its parameters are checked, its grid is resolved and
its findings are collected before `rest` goes on. -/
def opened (validated : Except Error Unit) (dem : Raster Float32) (mercator : Option LatitudeBand)
    (rest : Geometry → List (Advisory Float) → Logged ρ) : Logged ρ := do
  .ofExcept validated
  let geometry ← Geometry.resolve dem.extent dem.shape mercator
  let advisories ← advise geometry dem.statistics.void
  rest geometry advisories

/-- A run is refused with the error of the first check that it violates, and then nothing is
reported. One that violates none reports its geometry and every finding before it goes on. -/
theorem opened_cases (checks : List Check) (dem : Raster Float32) (mercator : Option LatitudeBand)
    (rest : Geometry → List (Advisory Float) → Logged ρ) :
    (∃ e, firstViolated (checks ++ Geometry.checks dem.extent dem.shape mercator) = some e ∧
      opened (refuse (firstViolated checks)) dem mercator rest = Logged.fail e) ∨
    firstViolated (checks ++ Geometry.checks dem.extent dem.shape mercator) = none ∧
      ∃ geometry : Geometry,
        let found := findings dem geometry.projection
        (Geometry.resolve dem.extent dem.shape mercator).outcome = .ok geometry ∧
        opened (refuse (firstViolated checks)) dem mercator rest =
          ⟨.geometryResolved geometry.projection dem.shape geometry.ground.aspect ::
              (found.map .advisory ++ (rest geometry found).events),
            (rest geometry found).outcome⟩ := by
  rw [firstViolated_append, opened]
  cases firstViolated checks with
  | some e => exact .inl ⟨e, rfl, rfl⟩
  | none =>
    rcases Geometry.resolve_cases dem.extent dem.shape mercator with
      ⟨e, hviolated, hresolve⟩ | ⟨hpassed, geometry, hresolve⟩
    · rw [hviolated, hresolve]
      exact .inl ⟨e, rfl, rfl⟩
    · have hgeometry : (Geometry.resolve dem.extent dem.shape mercator).outcome = .ok geometry :=
        congrArg Logged.outcome hresolve
      have hfound : findings dem geometry.projection =
          geometry.advisories ++ (voidFinding dem.statistics.void).toList := by
        rw [findings, ← dem.void_statistics, (Geometry.resolve_eq_ok hgeometry).2.2.2.2]
      rw [hpassed]
      refine .inr ⟨rfl, geometry, hgeometry, ?_⟩
      rw [refuse, Logged.ofExcept_ok_bind, hresolve, Logged.ok_bind, advise_eq, Logged.ok_bind,
        hfound, List.map_append, List.append_assoc]
      rfl

end Analysis

end Relief
