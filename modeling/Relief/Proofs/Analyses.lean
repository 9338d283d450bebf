import Relief.Machine
import Relief.Proofs.Readings
import Relief.Proofs.Resolution
import Relief.Proofs.Shadow.Endless
import Relief.Proofs.Tables
import Relief.Proofs.Workers.Cellwise

namespace Relief

open WorkerPool LawfulBuffers

section Fill

variable {τ : Type} {f : ℕ → τ} {a : Array τ} {n k : ℕ}

def fill (f : ℕ → τ) (a : Array τ) (n : ℕ) : Array τ :=
  (List.range n).foldl (fun a i => a.setIfInBounds i (f i)) a

theorem fill_succ : fill f a (n + 1) = (fill f a n).setIfInBounds n (f n) := by
  rw [fill, List.range_succ, List.foldl_append]
  rfl

theorem size_fill : (fill f a n).size = a.size := by
  induction n with
  | zero => rfl
  | succ n ih => rw [fill_succ, Array.size_setIfInBounds, ih]

theorem getElem?_fill (hn : n ≤ a.size) :
    (fill f a n)[k]? = if k < n then some (f k) else a[k]? := by
  induction n with
  | zero => rfl
  | succ n ih =>
    rw [fill_succ, Array.getElem?_setIfInBounds, size_fill, ih (Nat.le_of_succ_le hn)]
    rcases lt_trichotomy n k with hlt | rfl | hgt
    · rw [if_neg hlt.ne, if_neg (by omega), if_neg (by omega)]
    · rw [if_pos rfl, if_pos (Nat.lt_of_succ_le hn), if_pos n.lt_succ_self]
    · rw [if_neg hgt.ne', if_pos hgt, if_pos (by omega)]

theorem fill_eq_ofFn (h : a.size = n) : fill f a n = Array.ofFn fun i : Fin n => f i := by
  apply Array.ext_getElem?
  intro k
  rw [getElem?_fill h.ge, Array.getElem?_ofFn]
  split_ifs with hk
  · rfl
  · rw [Array.getElem?_eq_none (h.trans_le (not_lt.1 hk))]

end Fill

section Blocks

variable [Trig Float]

def Shadow.exactCell (terrain : Terrain Float) (sun : Sun Float) (highest : Option Float)
    (cell : Cell) : Float32 :=
  Sample.ofFloat (exactShade terrain sun.toMotion sun.z highest cell)

omit [Trig Float] in
theorem Shadow.shadeBlock_tabulates (shape : Shape) (shade : Cell → Float) :
    Tabulates shape (shadeBlock shape shade) fun _ cell =>
      (Sample.ofFloat (shade cell) : Float32) := by
  intro block part hfits l
  apply Array.ext_getElem?
  intro i
  have hsize : part.size = block.size * shape.cols := hfits l
  change (part.mapIdx _)[i]? = _
  rw [Array.getElem?_mapIdx, Array.getElem?_ofFn]
  split_ifs with hi
  · rw [Array.getElem?_eq_getElem (hi.trans_eq hsize.symm)]
    rfl
  · rw [Array.getElem?_eq_none (hsize.trans_le (not_lt.1 hi))]
    rfl

theorem Horizon.profileInto_eq (buffer : Array (Option (Horizon Float))) (terrain : Terrain Float)
    (base : Cell) (directions : List (Direction Float)) (stride maxDistance : ℕ) :
    profileInto buffer terrain base directions stride maxDistance =
      profile terrain base directions stride maxDistance := by
  have hempty : buffer.shrink 0 = (#[] : Array (Option (Horizon Float))).shrink 0 := by simp
  rw [profile, profileInto, profileInto, overwrite, overwrite, hempty]

theorem Raster.profileInto_eq_profile (dem : Raster Float32)
    (directions : List (Direction Float)) (stride maxDistance : ℕ)
    (buffer : Array (Option (Horizon Float))) (cell : Cell) :
    dem.profileInto buffer cell directions stride maxDistance =
      Horizon.profile dem.terrain cell directions stride maxDistance :=
  (dem.profileInto_eq buffer cell directions stride maxDistance).trans
    (Horizon.profileInto_eq buffer dem.terrain cell directions stride maxDistance)

omit [Trig Float] in
theorem Horizon.toList_profile {α : Type} [Add α] [Sub α] [Mul α] [Div α] [LT α] [LE α]
    [DecidableLT α] [DecidableLE α] [NatCast α] [OfScientific α] [Whole α] [Trig α]
    (terrain : Terrain α) (base : Cell) (directions : List (Direction α))
    (stride maxDistance : ℕ) :
    (profile terrain base directions stride maxDistance).toList =
      directions.map fun direction => (terrain.height base).bind fun z =>
        along terrain base z (max stride 1) maxDistance direction := by
  rw [profile, profileInto, overwrite, List.foldl_push_eq_append]
  cases terrain.height base with
  | none => simp
  | some z => simp

namespace Openness

def ofCell (terrain : Terrain Float) (directions : List (Direction Float))
    (stride maxDistance : ℕ) (cell : Cell) : Openness Float :=
  ofHorizons (Horizon.profile terrain cell directions stride maxDistance)

variable {shape : Shape} {block : RowBlock}
  {profile : Array (Option (Horizon Float)) → Cell → Array (Option (Horizon Float))}
  {horizons : Cell → Array (Option (Horizon Float))}

theorem foldl_writeSides (hprofile : ∀ buffer cell, profile buffer cell = horizons cell)
    (positions : List ℕ)
    (state : Array (Option (Horizon Float)) × Array Float32 × Array Float32) :
    let openness := fun i => ofHorizons (horizons (block.cellAt shape i))
    (positions.foldl (writeSides shape profile block) state).2 =
      (positions.foldl (fun a i => a.setIfInBounds i (sideCell (openness i).positive)) state.2.1,
        positions.foldl (fun a i => a.setIfInBounds i (sideCell (openness i).negative))
          state.2.2) := by
  -- the room that the horizons take goes along with the outputs, but nothing is read from it
  induction positions generalizing state with
  | nil => rfl
  | cons i positions ih =>
    rw [List.foldl_cons, ih, writeSides, hprofile]
    rfl

def sideCells (openness : Cell → Openness Float) :
    (l : Leaf (Array Float32 × Array Float32)) → Cell → Item l
  | .inl _ => fun cell => sideCell (openness cell).positive
  | .inr _ => fun cell => sideCell (openness cell).negative

theorem sidesBlock_tabulates (hprofile : ∀ buffer cell, profile buffer cell = horizons cell) :
    Tabulates shape (sidesBlock shape profile)
      (sideCells fun cell => ofHorizons (horizons cell)) := by
  intro block part hfits l
  rw [sidesBlock, foldl_writeSides hprofile]
  cases l with
  | inl l => exact fill_eq_ofFn (hfits (.inl l))
  | inr l => exact fill_eq_ofFn (hfits (.inr l))

end Openness

end Blocks

def Error.ofMachine : Error → Bool
  | .allocation _ => true
  | .tooManyWorkers => true
  | .capacityOverflow => true
  | _ => false

section Machine

variable {shape : Shape}

/-- The machine has so many workers, and room for their blocks and for an output of a shape. -/
structure Suffices [Resources] (shape : Shape) (workers : ℕ) : Prop where
  pos : 0 < workers
  available : workers ≤ Resources.workers
  blocks : workers * RowBlock.width ≤ addressLimit
  cells : shape.size * Sample.width Float32 ≤ Resources.block

variable [Resources] {workers : ℕ}

theorem Suffices.ofWorkers (h : Suffices shape workers) :
    WorkerPool.ofWorkers workers = .ok ⟨workers, h.pos⟩ := by
  rw [WorkerPool.ofWorkers, dif_pos h.pos, if_pos h.available]

theorem pool_refused {ω : Type} [Buffers ω]
    (h : ¬ (0 < workers ∧ workers ≤ Resources.workers ∧ workers * RowBlock.width ≤ addressLimit))
    (shape : Shape) (outputs : ω) (work : RowBlock → ω → ω) :
    ∃ e, (Logged.ofExcept (WorkerPool.ofWorkers workers) >>= fun pool =>
      pool.run shape outputs work).outcome = .error e ∧ (0 < workers → e.ofMachine = true) := by
  by_cases hpos : 0 < workers
  · by_cases havailable : workers ≤ Resources.workers
    · have hblocks : addressLimit < workers * RowBlock.width :=
        not_le.1 fun hb => h ⟨hpos, havailable, hb⟩
      have hp := partition_of_not_addressable ⟨workers, hpos⟩ hblocks shape.rows
      refine ⟨.capacityOverflow, ?_, fun _ => rfl⟩
      rw [WorkerPool.ofWorkers, dif_pos hpos, if_pos havailable, Logged.ofExcept_ok_bind,
        WorkerPool.run, hp]
      rfl
    · refine ⟨.tooManyWorkers, ?_, fun _ => rfl⟩
      rw [WorkerPool.ofWorkers, dif_pos hpos, if_neg havailable]
      rfl
  · refine ⟨.invalidParameter .noWorkers, ?_, fun h => absurd h hpos⟩
    rw [WorkerPool.ofWorkers, dif_neg hpos]
    rfl

theorem refused_of_not_suffices (h : ¬ Suffices shape workers) (hword : shape.size < wordValues) :
    (∀ v : Float32, Raster.buffer shape v = .error (.allocation shape.size)) ∨
      (∀ v : Float32, Raster.buffer shape v = .ok (Array.replicate shape.size v)) ∧
        ¬ (0 < workers ∧ workers ≤ Resources.workers ∧
          workers * RowBlock.width ≤ addressLimit) := by
  by_cases hcells : shape.size * Sample.width Float32 ≤ Resources.block
  · exact .inr ⟨Raster.buffer_of_le hcells hword, fun hp => h ⟨hp.1, hp.2.1, hp.2.2, hcells⟩⟩
  · left
    intro v
    rw [Raster.buffer, if_neg (not_le.2 hword), if_pos (not_le.1 hcells)]

end Machine

section Accepted

theorem ShadowParams.validate_workers {params : ShadowParams} (h : params.validate = .ok ())
    (workers : ℕ) : { params with workers }.validate =
      if workers = 0 then .error (.invalidParameter .noWorkers) else .ok () := by
  rw [validate] at h
  split_ifs at h with h₁ h₂
  rw [validate, if_neg h₁, if_neg (not_not.2 h₂)]

theorem OpennessParams.validate_workers {params : OpennessParams} (h : params.validate = .ok ())
    (workers : ℕ) : { params with workers }.validate =
      if workers = 0 then .error (.invalidParameter (.notPositive "workers")) else .ok () := by
  rw [validate] at h
  cases hf : params.counts.find? (·.2 = 0) with
  | some p =>
    rw [hf] at h
    cases h
  | none =>
    rw [hf] at h
    split_ifs at h with hstride
    have hcount (c : String × ℕ) (hc : c ∈ params.counts) : c.2 ≠ 0 :=
      of_decide_eq_false (eq_false_of_ne_true (List.find?_eq_none.1 hf c hc))
    have h₁ : params.directions ≠ 0 := hcount ("directions", _) (by simp [counts])
    have h₂ : params.stride ≠ 0 := hcount ("stride", _) (by simp [counts])
    have h₃ : params.maxDistance ≠ 0 := hcount ("max_distance", _) (by simp [counts])
    have hfind : { params with workers }.counts.find? (·.2 = 0) =
        if workers = 0 then some ("workers", workers) else none := by
      by_cases hw : workers = 0
      · simp [counts, h₁, h₂, h₃, hw]
      · simp [counts, h₁, h₂, h₃, hw]
    rw [validate, hfind]
    split_ifs
    · rfl
    · rfl

theorem Analysis.advise_outcome (geometry : Geometry) (voids : ℕ) :
    ∃ advisories, (advise geometry voids).outcome = .ok advisories := by
  rw [advise]
  split_ifs
  · exact ⟨_, rfl⟩
  · exact ⟨_, rfl⟩

end Accepted

section Workers

variable {ω ρ : Type} [Buffers ω] [LawfulBuffers ω] [Resources]

/-- Who does the work does not matter. If all that is to be worked out comes to an end, then with as
many workers as the machine has for it a run ends with `result`, and in whatever order they write
they leave `table`. Any other number is refused. -/
structure WorkerFree (shape : Shape) (finishes : Prop) (work : RowBlock → ω → ω) (blank table : ω)
    (run : ℕ → Logged ρ) (result : ρ) : Prop where
  ends : finishes → ∀ workers, Suffices shape workers → (run workers).outcome = .ok result
  ordered : finishes → ∀ workers, Suffices shape workers → ∀ writes, Interleaves shape.cols
    ((List.range workers).map (RowBlock.ofWorker shape.rows workers)) work writes →
    perform shape.cols writes blank = some table
  refused : ∀ workers, ¬ Suffices shape workers → ∃ e, (run workers).outcome = .error e

theorem WorkerFree.of_cells {shape : Shape} {finishes : Prop} {work : RowBlock → ω → ω}
    {blank table : ω} {run : ℕ → Logged ρ} {result : ρ} {cells : ℕ → Logged ω}
    {finish : ω → Except Error ρ} {e : Error}
    (hzero : (run 0).outcome = .error e)
    (hrun : ∀ workers, 0 < workers → (run workers).outcome = (cells workers).outcome.bind finish)
    (hcells : ∀ workers, Suffices shape workers → (cells workers).outcome = .ok table ∧
      ∀ writes, Interleaves shape.cols
        ((List.range workers).map (RowBlock.ofWorker shape.rows workers)) work writes →
        perform shape.cols writes blank = some table)
    (hrefused : ∀ workers, ¬ Suffices shape workers →
      ∃ e, (cells workers).outcome = .error e ∧ (0 < workers → e.ofMachine = true))
    (hfinish : finish table = .ok result) :
    WorkerFree shape finishes work blank table run result where
  ends _ workers h := by
    rw [hrun workers h.pos, (hcells workers h).1]
    exact hfinish
  ordered _ workers h := (hcells workers h).2
  refused workers h := by
    rcases Nat.eq_zero_or_pos workers with rfl | hpos
    · exact ⟨e, hzero⟩
    · obtain ⟨e, he, -⟩ := hrefused workers h
      refine ⟨e, ?_⟩
      rw [hrun workers hpos, he]
      rfl

end Workers

section Runs

variable [Trig Float] [Resources] {shape : Shape} {workers : ℕ}

omit [Trig Float] in
theorem Shadow.shadeCells_eq (h : Suffices shape workers) (hword : shape.size < wordValues)
    (shade : Cell → Float) :
    let blocks := (List.range workers).map (RowBlock.ofWorker shape.rows workers)
    let table := shape.table fun cell => (Sample.ofFloat (shade cell) : Float32)
    shadeCells shape shade workers =
        ⟨(blocks.filter (!·.isEmpty)).map .blockDone, .ok table⟩ ∧
      ∀ writes, Interleaves shape.cols blocks (shadeBlock shape shade) writes →
        perform shape.cols writes (Array.replicate shape.size 0.0) = some table := by
  intro blocks table
  rw [shadeCells, Raster.buffer_of_le h.cells hword, h.ofWorkers]
  exact run_of_tabulates ⟨workers, h.pos⟩ (shadeBlock_tabulates shape shade)
    hword (fun _ => Array.size_replicate) (fun _ => rfl) h.blocks

omit [Trig Float] in
theorem Shadow.shadeCells_refused (h : ¬ Suffices shape workers) (hword : shape.size < wordValues)
    (shade : Cell → Float) :
    ∃ e, (shadeCells shape shade workers).outcome = .error e ∧
      (0 < workers → e.ofMachine = true) := by
  rcases refused_of_not_suffices h hword with hb | ⟨hb, hp⟩
  · rw [shadeCells, hb]
    exact ⟨_, rfl, fun _ => rfl⟩
  · rw [shadeCells, hb]
    exact pool_refused hp _ _ _

theorem Shadow.getElem?_exactCells {terrain : Terrain Float} {sun : Sun Float}
    {highest : Option Float} {cell : Cell} {cells : Array Float32}
    (hrun : (exactCells terrain sun highest workers).outcome = .ok cells)
    (hword : terrain.shape.size < wordValues) (hcell : terrain.shape.Contains cell) :
    cells[terrain.shape.index cell]? = some (exactCell terrain sun highest cell) := by
  rw [exactCells] at hrun
  by_cases h : Suffices terrain.shape workers
  · rw [(shadeCells_eq h hword _).1] at hrun
    obtain rfl := Except.ok.inj hrun
    exact Shape.getElem?_table hcell
  · obtain ⟨e, he, -⟩ := shadeCells_refused h hword
      (exactShade terrain sun.toMotion sun.z highest)
    rw [he] at hrun
    cases hrun

theorem Openness.sidesCells_eq (h : Suffices shape workers) (hword : shape.size < wordValues)
    {profile : Array (Option (Horizon Float)) → Cell → Array (Option (Horizon Float))}
    {horizons : Cell → Array (Option (Horizon Float))}
    (hprofile : ∀ buffer cell, profile buffer cell = horizons cell) :
    let blocks := (List.range workers).map (RowBlock.ofWorker shape.rows workers)
    let openness := fun cell => ofHorizons (horizons cell)
    let table := (shape.table fun cell => sideCell (openness cell).positive,
      shape.table fun cell => sideCell (openness cell).negative)
    let blank := Array.replicate shape.size (Sample.void : Float32)
    sidesCells shape profile workers =
        ⟨(blocks.filter (!·.isEmpty)).map .blockDone, .ok table⟩ ∧
      ∀ writes, Interleaves shape.cols blocks (sidesBlock shape profile) writes →
        perform shape.cols writes (blank, blank) = some table := by
  intro blocks openness table blank
  rw [sidesCells, Raster.buffer_of_le h.cells hword, h.ofWorkers]
  refine run_of_tabulates ⟨workers, h.pos⟩ (sidesBlock_tabulates hprofile) hword ?_ ?_ h.blocks
  · rintro (l | l)
    · exact Array.size_replicate
    · exact Array.size_replicate
  · rintro (l | l)
    · rfl
    · rfl

theorem Openness.sidesCells_refused (h : ¬ Suffices shape workers)
    (hword : shape.size < wordValues)
    (profile : Array (Option (Horizon Float)) → Cell → Array (Option (Horizon Float))) :
    ∃ e, (sidesCells shape profile workers).outcome = .error e ∧
      (0 < workers → e.ofMachine = true) := by
  rcases refused_of_not_suffices h hword with hb | ⟨hb, hp⟩
  · rw [sidesCells, hb]
    exact ⟨_, rfl, fun _ => rfl⟩
  · rw [sidesCells, hb]
    exact pool_refused hp _ _ _

theorem Shadow.cast_outcome {dem : Raster Float32} (params : ShadowParams) {geometry : Geometry}
    (hmethod : params.method = .exact) (hvalid : params.validate = .ok ())
    (hgeometry : (Geometry.resolve dem.extent dem.shape params.mercator).outcome = .ok geometry)
    {advisories : List (Advisory Float)}
    (hadvise : (Analysis.advise geometry dem.statistics.void).outcome = .ok advisories) :
    let sun := Sun.ofPosition geometry.ground params.azimuth params.elevation
    let highest := dem.statistics.highest.map Sample.toFloat
    (cast dem params).outcome =
      (shadeCells dem.shape (dem.exactShade sun.toMotion sun.z highest)
          params.workers).outcome.bind fun cells =>
        (Raster.ofElevations cells dem.shape dem.extent).map fun raster =>
          ⟨raster, Analysis.software, advisories⟩ := by
  intro sun highest
  rw [cast, hvalid, Logged.ofExcept_ok_bind, Logged.outcome_bind_ok hgeometry,
    Logged.outcome_bind_ok hadvise, Logged.outcome_report_bind, hmethod, Logged.outcome_bind]
  exact congrArg _ (funext fun cells => Logged.outcome_ofExcept_bind_pure _ _)

theorem Openness.scan_outcome {dem : Raster Float32} (params : OpennessParams) {geometry : Geometry}
    {directions : List (Direction Float)} (hvalid : params.validate = .ok ())
    (hgeometry : (Geometry.resolve dem.extent dem.shape params.mercator).outcome = .ok geometry)
    (hrose : Direction.rose params.directions geometry.ground = .ok directions)
    {advisories : List (Advisory Float)}
    (hadvise : (Analysis.advise geometry dem.statistics.void).outcome = .ok advisories) :
    (scan dem params).outcome =
      (sidesCells dem.shape (fun buffer cell => dem.profileInto buffer cell directions
        params.stride params.maxDistance) params.workers).outcome.bind fun cells =>
      (Raster.ofElevations cells.1 dem.shape dem.extent).bind fun positive =>
        (Raster.ofElevations cells.2 dem.shape dem.extent).map fun negative =>
          ⟨positive, negative, Analysis.software, advisories⟩ := by
  rw [scan, hvalid, Logged.ofExcept_ok_bind, Logged.outcome_bind_ok hgeometry,
    Logged.outcome_bind_ok hadvise, hrose, Logged.ofExcept_ok_bind, Logged.outcome_report_bind,
    Logged.outcome_bind]
  refine congrArg _ (funext fun cells => (Logged.outcome_bind _ _).trans ?_)
  exact congrArg _ (funext fun positive => Logged.outcome_ofExcept_bind_pure _ _)

/-- However many workers share the rows, and in whatever order they write, an analysis gives each
cell what its definition gives it alone: the exact shade, or both sides of the openness. An exact
run comes to its end if the march from every cell does, and gives a cell what its march comes to. -/
theorem analyses_cellwise (dem : Raster Float32) :
    (∀ (params : ShadowParams) (geometry : Geometry), params.method = .exact →
      params.validate = .ok () →
      (Geometry.resolve dem.extent dem.shape params.mercator).outcome = .ok geometry →
      let sun := Sun.ofPosition geometry.ground params.azimuth params.elevation
      let highest := dem.statistics.highest.map Sample.toFloat
      let gives := Shadow.Gives dem.terrain sun.toMotion sun.z highest
      ∃ result : Shade, result.raster.shape = dem.shape ∧ result.raster.extent = dem.extent ∧
        (∀ cell shade, dem.shape.Contains cell → gives cell shade →
          result.raster.get? cell = some (Sample.ofFloat shade)) ∧
        WorkerFree dem.shape (∀ cell, dem.shape.Contains cell → ∃ shade, gives cell shade)
          (Shadow.shadeBlock dem.shape (dem.exactShade sun.toMotion sun.z highest))
          (Array.replicate dem.shape.size 0.0) result.raster.cells
          (fun workers => Shadow.cast dem { params with workers }) result) ∧
    (∀ (params : OpennessParams) (geometry : Geometry) (directions : List (Direction Float)),
      params.validate = .ok () →
      (Geometry.resolve dem.extent dem.shape params.mercator).outcome = .ok geometry →
      Direction.rose params.directions geometry.ground = .ok directions →
      let openness := fun cell => Openness.ofHorizons
        (Horizon.profile dem.terrain cell directions params.stride params.maxDistance)
      let blank := Array.replicate dem.shape.size (Sample.void : Float32)
      ∃ result : SkyView, result.positive.shape = dem.shape ∧
        result.positive.extent = dem.extent ∧ result.negative.shape = dem.shape ∧
        result.negative.extent = dem.extent ∧
        (∀ cell, dem.shape.Contains cell →
          result.positive.get? cell = some (Openness.sideCell (openness cell).positive) ∧
          result.negative.get? cell = some (Openness.sideCell (openness cell).negative)) ∧
        WorkerFree dem.shape True
          (Openness.sidesBlock dem.shape fun buffer cell =>
            dem.profileInto buffer cell directions params.stride params.maxDistance)
          (blank, blank) (result.positive.cells, result.negative.cells)
          (fun workers => Openness.scan dem { params with workers }) result) := by
  have hword := dem.size_lt_wordValues
  constructor
  · intro params geometry hmethod hvalid hgeometry sun highest gives
    obtain ⟨advisories, hadvise⟩ := Analysis.advise_outcome geometry dem.statistics.void
    let shade := dem.exactShade sun.toMotion sun.z highest
    let cellOf : Cell → Float32 := fun cell => Sample.ofFloat (shade cell)
    have htable := Raster.ofElevations_table (isEmpty_of_resolve hgeometry) cellOf
    have hvalid' := ShadowParams.validate_workers hvalid
    have hzero : (Shadow.cast dem { params with workers := 0 }).outcome =
        .error (.invalidParameter .noWorkers) := by
      rw [Shadow.cast, hvalid']
      rfl
    refine ⟨⟨dem.tabulated cellOf, Analysis.software, advisories⟩, rfl, rfl, ?_, .of_cells hzero
      (fun workers hpos => Shadow.cast_outcome { params with workers } hmethod
        ((hvalid' workers).trans (if_neg hpos.ne')) hgeometry hadvise)
      (fun workers h => (Shadow.shadeCells_eq h hword shade).imp_left (congrArg Logged.outcome))
      (fun workers h => Shadow.shadeCells_refused h hword shade) ?_⟩
    · intro cell v hcell hgives
      have hshade : shade cell = v :=
        (congrFun (dem.exactShade_eq sun.toMotion sun.z highest) cell).trans hgives.exactShade_eq
      exact (Raster.get?_tabulated hcell).trans (congrArg (some ∘ Sample.ofFloat) hshade)
    · change Except.map _ (Raster.ofElevations (dem.shape.table _) dem.shape dem.extent) = _
      rw [htable]
      rfl
  · intro params geometry directions hvalid hgeometry hrose openness blank
    obtain ⟨advisories, hadvise⟩ := Analysis.advise_outcome geometry dem.statistics.void
    have htable := Raster.ofElevations_table (isEmpty_of_resolve hgeometry)
    have hvalid' := OpennessParams.validate_workers hvalid
    have hzero : (Openness.scan dem { params with workers := 0 }).outcome =
        .error (.invalidParameter (.notPositive "workers")) := by
      rw [Openness.scan, hvalid']
      rfl
    have hprofile := dem.profileInto_eq_profile directions params.stride params.maxDistance
    refine ⟨⟨dem.tabulated fun cell => Openness.sideCell (openness cell).positive,
      dem.tabulated fun cell => Openness.sideCell (openness cell).negative, Analysis.software,
      advisories⟩, rfl, rfl, rfl, rfl,
      fun cell hcell => ⟨Raster.get?_tabulated hcell, Raster.get?_tabulated hcell⟩,
      .of_cells hzero (fun workers hpos => Openness.scan_outcome
        { params with workers } ((hvalid' workers).trans (if_neg hpos.ne')) hgeometry
        hrose hadvise)
      (fun workers h =>
        (Openness.sidesCells_eq h hword hprofile).imp_left (congrArg Logged.outcome))
      (fun workers h => Openness.sidesCells_refused h hword _) ?_⟩
    change Except.bind (Raster.ofElevations (dem.shape.table _) dem.shape dem.extent) _ = _
    rw [htable]
    change Except.map _ (Raster.ofElevations (dem.shape.table _) dem.shape dem.extent) = _
    rw [htable]
    rfl

end Runs

/-- A void above a cell of height 5, with one worker and with three. -/
theorem analyses_cellwise_void :
    letI := tableTrig
    let dem : Raster Float32 := ⟨⟨2, 1⟩, #[Sample.void, 5.0],
      ⟨500000.0, 500001.0, 4000000.0, 4000002.0⟩, rfl, by decide⟩
    let shadow : ShadowParams := ⟨90.0, 90.0, .exact, none, 1⟩
    let openness : OpennessParams := ⟨1, 1, 2, none, 1⟩
    (∃ shade, (Shadow.cast dem shadow).outcome = .ok shade ∧
      (Shadow.cast dem { shadow with workers := 3 }).outcome = .ok shade ∧
      shade.raster.get? ⟨0, 0⟩ = some 1.0) ∧
    ∃ sky, (Openness.scan dem openness).outcome = .ok sky ∧
      (Openness.scan dem { openness with workers := 3 }).outcome = .ok sky ∧
      sky.positive.get? ⟨0, 0⟩ = some Sample.void := by
  let : Trig Float := tableTrig
  intro dem shadow openness
  have hone : Suffices dem.shape 1 := ⟨by decide, by decide, by decide, by decide⟩
  have hthree : Suffices dem.shape 3 := ⟨by decide, by decide, by decide, by decide⟩
  obtain ⟨geometry, hgeometry, hground⟩ :
      ∃ geometry, (Geometry.resolve dem.extent dem.shape none).outcome = .ok geometry ∧
        geometry.ground = ⟨1.0, 1.0⟩ :=
    Geometry.exists_of_ground (by decide +kernel)
  have hvoid : dem.terrain.height ⟨0, 0⟩ = none := by decide +kernel
  obtain ⟨hexact, hscan⟩ := analyses_cellwise dem
  constructor
  · obtain ⟨shade, -, -, hcells, hfree⟩ :=
      hexact shadow geometry rfl (by decide +kernel) hgeometry
    rw [hground] at hcells hfree
    have hends : ∀ cell, dem.shape.Contains cell → ∃ shade, Shadow.Gives dem.terrain
        (Sun.ofPosition ⟨1.0, 1.0⟩ 90.0 90.0).toMotion (Sun.ofPosition ⟨1.0, 1.0⟩ 90.0 90.0).z
        (dem.statistics.highest.map Sample.toFloat) cell shade := by
      rintro ⟨row, col⟩ ⟨hrow, hcol⟩
      change row < 2 at hrow
      change col < 1 at hcol
      interval_cases col
      interval_cases row
      · exact ⟨_, .void hvoid⟩
      · exact Shadow.exists_gives_of_above (z := 5.0) (k := 1) (by decide +kernel)
          (by decide +kernel)
    refine ⟨shade, hfree.ends hends 1 hone, hfree.ends hends 3 hthree, ?_⟩
    have hlit : (Sample.ofFloat (1.0 : Float) : Float32) = 1.0 := by decide +kernel
    exact (hcells ⟨0, 0⟩ 1.0 (by decide) (.void hvoid)).trans (congrArg some hlit)
  · obtain ⟨directions, hrose⟩ : ∃ directions, Direction.rose 1 geometry.ground = .ok directions :=
      ⟨(List.range 1).map _, rfl⟩
    obtain ⟨sky, -, -, -, -, hcells, hfree⟩ :=
      hscan openness geometry directions (by decide +kernel) hgeometry hrose
    refine ⟨sky, hfree.ends trivial 1 hone, hfree.ends trivial 3 hthree, ?_⟩
    obtain rfl := Except.ok.inj hrose
    refine (hcells ⟨0, 0⟩ (by decide)).1.trans ?_
    dsimp only [Horizon.profile, Horizon.profileInto]
    rw [hvoid]
    rfl

end Relief
