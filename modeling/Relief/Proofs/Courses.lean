import Relief.Proofs.Analyses
import Relief.Proofs.Checks
import Relief.Proofs.Shadow.Visits

namespace Relief

section Conclusion

variable {ρ ω : Type} {afforded : Prop} {start : Event} {Good : ρ → List Event → Prop}

/-- How a run ends that nothing is wrong with. If the machine affords it, it reports its start and
then details, and comes to a good result; if not, its error tells what the machine lacks. -/
structure Concludes (afforded : Prop) (start : Event) (Good : ρ → List Event → Prop)
    (run : Logged ρ) : Prop where
  ends : afforded → ∃ result details, run = ⟨start :: details, .ok result⟩ ∧ Good result details
  lacks : ¬ afforded → ∃ e, run.outcome = .error e ∧ e.ofMachine = true

theorem Concludes.of_cells {cells : Logged ω} {finish : ω → Logged ρ}
    (hends : afforded → ∃ table details result, cells = ⟨details, .ok table⟩ ∧
      finish table = pure result ∧ Good result details)
    (hlacks : ¬ afforded → ∃ e, cells.outcome = .error e ∧ e.ofMachine = true) :
    Concludes afforded start Good (Logged.report [start] >>= fun _ => cells >>= finish) where
  ends h := by
    obtain ⟨table, details, result, hcells, hfinish, hgood⟩ := hends h
    refine ⟨result, details, ?_, hgood⟩
    rw [hcells, Logged.ok_bind, hfinish]
    exact congrArg₂ Logged.mk (congrArg (List.cons start) (List.append_nil _)) rfl
  lacks h := by
    obtain ⟨e, hcells, he⟩ := hlacks h
    refine ⟨e, ?_, he⟩
    rw [Logged.outcome_report_bind, Logged.outcome_bind, hcells]
    rfl

end Conclusion

/-- A raster over the grid of an input, which has rows and columns. -/
structure Raster.Spans (raster dem : Raster Float32) : Prop where
  shape : raster.shape = dem.shape
  extent : raster.extent = dem.extent
  rows_pos : 0 < raster.shape.rows
  cols_pos : 0 < raster.shape.cols

theorem Raster.exists_spans {dem : Raster Float32} (hempty : dem.shape.isEmpty = false)
    {cells : Array Float32} (hsize : cells.size = dem.shape.size) :
    ∃ raster : Raster Float32, ofElevations cells dem.shape dem.extent = .ok raster ∧
      raster.Spans dem := by
  obtain ⟨hrows, hcols⟩ := Shape.isEmpty_eq_false.1 hempty
  exact ⟨_, ofElevations_eq hempty hsize, rfl, rfl, hrows, hcols⟩

/-- Details that report one block after another. In whatever order they are done, the blocks deal
out all rows. -/
def BlocksDone (rows : ℕ) (details : List Event) : Prop :=
  ∃ blocks : List RowBlock, details = blocks.map .blockDone ∧
    ∀ order, order.Perm blocks → RowBlock.Deals rows order

theorem blocksDone_ofWorker {rows workers : ℕ} (h : 0 < workers) :
    BlocksDone rows ((((List.range workers).map (RowBlock.ofWorker rows workers)).filter
      (!·.isEmpty)).map .blockDone) :=
  ⟨_, rfl, fun _ hperm => (RowBlock.consecutive_ofWorker h).deals.perm hperm⟩

namespace Shadow

variable [Trig Float] [Resources] {dem : Raster Float32} {params : ShadowParams}

/-- The machine has what a run asks for: room for the output, and for exact shades the workers and
room for their blocks. -/
structure Affords (shape : Shape) (params : ShadowParams) : Prop where
  cells : shape.size * Sample.width Float32 ≤ Resources.block
  pool : params.method = .exact →
    params.workers ≤ Resources.workers ∧ params.workers * RowBlock.width ≤ addressLimit

def startEvent (dem : Raster Float32) (params : ShadowParams) : Event :=
  let stats := dem.statistics
  .castingShadows dem.shape params.method params.azimuth params.elevation
    (stats.lowest.map Sample.toFloat) (stats.highest.map Sample.toFloat) stats.valid

def castCells (dem : Raster Float32) (params : ShadowParams) (geometry : Geometry) :
    Logged (Array Float32) :=
  let highest := dem.statistics.highest.map Sample.toFloat
  let sun := Sun.ofPosition geometry.ground params.azimuth params.elevation
  match params.method with
  | .exact => shadeCells dem.shape (dem.exactShade sun.toMotion sun.z highest) params.workers
  | .fastSweep edges =>
    depthCells dem.shape sun edges (dem.sweptDepths sun.toMotion sun.z highest edges)

theorem castCells_eq (dem : Raster Float32) (params : ShadowParams) (geometry : Geometry) :
    castCells dem params geometry =
      let highest := dem.statistics.highest.map Sample.toFloat
      let sun := Sun.ofPosition geometry.ground params.azimuth params.elevation
      match params.method with
      | .exact => exactCells dem.terrain sun highest params.workers
      | .fastSweep edges => sweptCells dem.terrain sun highest edges := by
  rw [castCells]
  cases params.method with
  | exact =>
    dsimp only
    rw [dem.exactShade_eq]
    rfl
  | fastSweep edges =>
    dsimp only
    rw [dem.sweptDepths_eq]
    rfl

def castOn (dem : Raster Float32) (params : ShadowParams) (geometry : Geometry)
    (advisories : List (Advisory Float)) : Logged Shade := do
  Logged.report [startEvent dem params]
  let cells ← castCells dem params geometry
  let raster ← .ofExcept (Raster.ofElevations cells dem.shape dem.extent)
  return ⟨raster, Analysis.software, advisories⟩

theorem cast_eq_opened (dem : Raster Float32) (params : ShadowParams) :
    cast dem params =
      Analysis.opened params.validate dem params.mercator (castOn dem params) := by
  obtain ⟨azimuth, elevation, method, mercator, workers⟩ := params
  cases method with
  | exact => rfl
  | fastSweep edges => rfl

def Details (rows : ℕ) (details : List Event) : ShadowMethod → Prop
  | .exact => BlocksDone rows details
  | .fastSweep edges => ∃ event, details = [event] ∧
    (event = .sunOverhead ∨ ∃ budget, event = .sweepsDone budget edges)

theorem castCells_of_affords (h : Affords dem.shape params) (hworkers : 0 < params.workers)
    (geometry : Geometry) :
    ∃ table details, castCells dem params geometry = ⟨details, .ok table⟩ ∧
      table.size = dem.shape.size ∧ Details dem.shape.rows details params.method := by
  have hword : dem.terrain.shape.size < wordValues := dem.size_lt_wordValues
  rw [castCells_eq]
  cases hmethod : params.method with
  | exact =>
    obtain ⟨hpool, hblocks⟩ := h.pool hmethod
    have hsuffices : Suffices dem.terrain.shape params.workers :=
      ⟨hworkers, hpool, hblocks, h.cells⟩
    exact ⟨_, _, (shadeCells_eq hsuffices hword _).1, Shape.size_table,
      blocksDone_ofWorker hworkers⟩
  | fastSweep edges =>
    obtain ⟨table, event, hcells, hsize, hevent⟩ := sweptCells_eq h.cells hword
      (Sun.ofPosition geometry.ground params.azimuth params.elevation)
      (dem.statistics.highest.map Sample.toFloat) edges
    exact ⟨table, [event], hcells, hsize, event, rfl, hevent⟩

theorem castCells_of_lacks (h : ¬ Affords dem.shape params) (hworkers : 0 < params.workers)
    (geometry : Geometry) :
    ∃ e, (castCells dem params geometry).outcome = .error e ∧ e.ofMachine = true := by
  have hword : dem.terrain.shape.size < wordValues := dem.size_lt_wordValues
  rw [castCells_eq]
  cases hmethod : params.method with
  | exact =>
    have hsuffices : ¬ Suffices dem.terrain.shape params.workers :=
      fun hs => h ⟨hs.cells, fun _ => ⟨hs.available, hs.blocks⟩⟩
    obtain ⟨e, he, hmachine⟩ := shadeCells_refused hsuffices hword _
    exact ⟨e, he, hmachine hworkers⟩
  | fastSweep edges =>
    have hcells : Resources.block < dem.terrain.shape.size * Sample.width Float32 :=
      not_le.1 fun hle => h ⟨hle, fun he => by rw [hmethod] at he; cases he⟩
    refine ⟨.allocation dem.terrain.shape.size, ?_, rfl⟩
    dsimp only
    rw [sweptCells, depthCells, Raster.buffer, if_neg (not_le.2 hword), if_pos hcells]
    rfl

theorem castOn_concludes (hempty : dem.shape.isEmpty = false) (hworkers : 0 < params.workers)
    (geometry : Geometry) (advisories : List (Advisory Float)) :
    Concludes (Affords dem.shape params) (startEvent dem params)
      (fun shade details => shade.raster.Spans dem ∧ shade.advisories = advisories ∧
        Details dem.shape.rows details params.method)
      (castOn dem params geometry advisories) := by
  rw [castOn]
  refine .of_cells ?_ fun h => castCells_of_lacks h hworkers geometry
  intro h
  obtain ⟨table, details, hcells, hsize, hdetails⟩ := castCells_of_affords h hworkers geometry
  obtain ⟨raster, hraster, hspans⟩ := Raster.exists_spans hempty hsize
  refine ⟨table, details, ⟨raster, Analysis.software, advisories⟩, hcells, ?_, hspans, rfl,
    hdetails⟩
  rw [hraster]
  rfl

end Shadow

namespace Openness

variable [Trig Float] [Resources] {dem : Raster Float32} {params : OpennessParams}

structure Affords (shape : Shape) (params : OpennessParams) : Prop where
  cells : shape.size * Sample.width Float32 ≤ Resources.block
  directions : params.directions * Direction.width ≤ addressLimit
  available : params.workers ≤ Resources.workers
  blocks : params.workers * RowBlock.width ≤ addressLimit

def startEvent (dem : Raster Float32) (params : OpennessParams) : Event :=
  .scanningHorizons dem.shape params.directions params.stride params.maxDistance params.workers

def scanOn (dem : Raster Float32) (params : OpennessParams) (geometry : Geometry)
    (advisories : List (Advisory Float)) : Logged SkyView := do
  let directions ← .ofExcept (Direction.rose params.directions geometry.ground)
  Logged.report [startEvent dem params]
  let (positive, negative) ← sidesCells dem.shape
    (fun buffer cell =>
      dem.profileInto buffer cell directions params.stride params.maxDistance)
    params.workers
  let positive ← .ofExcept (Raster.ofElevations positive dem.shape dem.extent)
  let negative ← .ofExcept (Raster.ofElevations negative dem.shape dem.extent)
  return ⟨positive, negative, Analysis.software, advisories⟩

theorem scan_eq_opened (dem : Raster Float32) (params : OpennessParams) :
    scan dem params =
      Analysis.opened params.validate dem params.mercator (scanOn dem params) :=
  rfl

theorem sidesCells_of_affords (h : Affords dem.shape params) (hworkers : 0 < params.workers)
    (directions : List (Direction Float)) :
    ∃ positive negative details,
      sidesCells dem.shape (fun buffer cell =>
        dem.profileInto buffer cell directions params.stride params.maxDistance) params.workers =
        ⟨details, .ok (positive, negative)⟩ ∧
      positive.size = dem.shape.size ∧ negative.size = dem.shape.size ∧
      BlocksDone dem.shape.rows details := by
  have hsuffices : Suffices dem.shape params.workers :=
    ⟨hworkers, h.available, h.blocks, h.cells⟩
  have hprofile := dem.profileInto_eq_profile directions params.stride params.maxDistance
  exact ⟨_, _, _, (sidesCells_eq hsuffices dem.size_lt_wordValues hprofile).1, Shape.size_table,
    Shape.size_table, blocksDone_ofWorker hworkers⟩

theorem scanOn_concludes (hempty : dem.shape.isEmpty = false) (hworkers : 0 < params.workers)
    (geometry : Geometry) (advisories : List (Advisory Float)) :
    Concludes (Affords dem.shape params) (startEvent dem params)
      (fun sky details => (sky.positive.Spans dem ∧ sky.negative.Spans dem) ∧
        sky.advisories = advisories ∧ BlocksDone dem.shape.rows details)
      (scanOn dem params geometry advisories) := by
  rw [scanOn, Direction.rose, tabulate]
  by_cases hrose : params.directions * Direction.width ≤ addressLimit
  · rw [if_pos hrose, Logged.ofExcept_ok_bind]
    apply Concludes.of_cells
    · intro h
      obtain ⟨above, below, details, hcells, habove, hbelow, hdetails⟩ :=
        sidesCells_of_affords h hworkers _
      obtain ⟨positive, hpositive, hspans⟩ := Raster.exists_spans hempty habove
      obtain ⟨negative, hnegative, hspans'⟩ := Raster.exists_spans hempty hbelow
      refine ⟨_, details, ⟨positive, negative, Analysis.software, advisories⟩, hcells, ?_,
        ⟨hspans, hspans'⟩, rfl, hdetails⟩
      dsimp only
      rw [hpositive, Logged.ofExcept_ok_bind, hnegative]
      rfl
    · intro h
      have hsuffices : ¬ Suffices dem.shape params.workers :=
        fun hs => h ⟨hs.cells, hrose, hs.available, hs.blocks⟩
      obtain ⟨e, he, hmachine⟩ := sidesCells_refused hsuffices dem.size_lt_wordValues _
      exact ⟨e, he, hmachine hworkers⟩
  · rw [if_neg hrose]
    exact ⟨fun h => absurd h.directions hrose, fun _ => ⟨.capacityOverflow, rfl, rfl⟩⟩

end Openness

section Course

variable {ρ : Type} [Trig Float]

/-- The courses that a run can take. The first check that it violates refuses it; or it comes to its
end, after it has reported its geometry, its findings, its start and details; or the machine does
not afford it. -/
inductive Course (checks : List Check) (dem : Raster Float32) (afforded : Prop) (start : Event)
    (Good : List (Advisory Float) → ρ → List Event → Prop) (run : Logged ρ) : Prop where
  | refused {e : Error} (violated : firstViolated checks = some e) (eq : run = Logged.fail e)
  | ended {projection : Projection} {aspect : Float} {result : ρ} {details : List Event}
      (passed : firstViolated checks = none) (affords : afforded)
      (eq : run = ⟨.geometryResolved projection dem.shape aspect ::
        ((Analysis.findings dem projection).map .advisory ++ start :: details), .ok result⟩)
      (good : Good (Analysis.findings dem projection) result details)
  | lacking {e : Error} (passed : firstViolated checks = none) (lacks : ¬ afforded)
      (eq : run.outcome = .error e) (machine : e.ofMachine = true)

theorem Course.opened {checks : List Check} {dem : Raster Float32}
    {mercator : Option LatitudeBand} {rest : Geometry → List (Advisory Float) → Logged ρ}
    {afforded : Prop} {start : Event} {Good : List (Advisory Float) → ρ → List Event → Prop}
    (hrest : firstViolated checks = none → dem.shape.isEmpty = false → ∀ geometry found,
      Concludes afforded start (Good found) (rest geometry found)) :
    Course (checks ++ Geometry.checks dem.extent dem.shape mercator) dem afforded start Good
      (Analysis.opened (refuse (firstViolated checks)) dem mercator rest) := by
  rcases Analysis.opened_cases checks dem mercator rest with
    ⟨e, hviolated, hrun⟩ | ⟨hpassed, geometry, hgeometry, hrun⟩
  · exact .refused hviolated hrun
  · obtain ⟨hchecks, -⟩ := Option.or_eq_none_iff.1 (firstViolated_append ▸ hpassed)
    have hconcludes := hrest hchecks (isEmpty_of_resolve hgeometry) geometry
      (Analysis.findings dem geometry.projection)
    by_cases hafford : afforded
    · obtain ⟨result, details, hrest, hgood⟩ := hconcludes.ends hafford
      rw [hrest] at hrun
      exact .ended hpassed hafford hrun hgood
    · obtain ⟨e, he, hmachine⟩ := hconcludes.lacks hafford
      exact .lacking hpassed hafford (hrun ▸ he) hmachine

variable [Resources]

theorem Shadow.cast_course (dem : Raster Float32) (params : ShadowParams) :
    Course (params.checks ++ Geometry.checks dem.extent dem.shape params.mercator) dem
      (Affords dem.shape params) (startEvent dem params)
      (fun found shade details => shade.raster.Spans dem ∧ shade.advisories = found ∧
        Details dem.shape.rows details params.method)
      (cast dem params) := by
  rw [cast_eq_opened, ShadowParams.validate_eq]
  apply Course.opened
  intro hpassed hempty geometry found
  exact castOn_concludes hempty (params.workers_pos hpassed) geometry found

theorem Openness.scan_course (dem : Raster Float32) (params : OpennessParams) :
    Course (params.checks ++ Geometry.checks dem.extent dem.shape params.mercator) dem
      (Affords dem.shape params) (startEvent dem params)
      (fun found sky details => (sky.positive.Spans dem ∧ sky.negative.Spans dem) ∧
        sky.advisories = found ∧ BlocksDone dem.shape.rows details)
      (scan dem params) := by
  rw [scan_eq_opened, OpennessParams.validate_eq]
  apply Course.opened
  intro hpassed hempty geometry found
  exact scanOn_concludes hempty (params.workers_pos hpassed) geometry found

end Course

end Relief
