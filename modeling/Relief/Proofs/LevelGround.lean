import Relief.Machine
import Relief.Proofs.Openness.Profile
import Relief.Proofs.Shadow.HighestGround

namespace Relief

open Binary

/-- What is relied on of the elementary functions: the angle of no slope and its sine are zero, and
what is no number has no angle. -/
structure LevelTrig [Trig Float] : Prop where
  atan_zero : ∀ t : Float, (t == 0.0) = true → (Trig.atan t == 0.0) = true
  atan_isNaN : ∀ t : Float, t.isNaN = true → (Trig.atan t).isNaN = true
  sin_zero : ∀ φ : Float, (φ == 0.0) = true → (Trig.sin φ == 0.0) = true

/-- All cells that are not void have one height. -/
def Terrain.Level (terrain : Terrain Float) (e : Float) : Prop :=
  ∀ c h, terrain.height c = some h → (h == e) = true

variable {terrain : Terrain Float} {cell : Cell} {e z : Float}

theorem Terrain.Level.beq (h : terrain.Level e) {c d : Cell} {y z : Float}
    (hy : terrain.height c = some y) (hz : terrain.height d = some z) : (y == z) = true := by
  obtain ⟨⟨hny, -⟩, hvy⟩ := beq_iff.1 (h c y hy)
  obtain ⟨⟨hnz, -⟩, hvz⟩ := beq_iff.1 (h d z hz)
  exact beq_iff.2 ⟨⟨hny, hnz⟩, hvy.trans hvz.symm⟩

theorem Terrain.Level.isFinite (h : terrain.Level e) (he : e.isFinite = true) {c : Cell}
    (hz : terrain.height c = some z) : z.isFinite = true := by
  obtain ⟨⟨hn, -⟩, hv⟩ := beq_iff.1 (h c z hz)
  exact (isFinite_of_value_eq hn (hv.trans (value_of_isFinite he))).1

namespace Horizon

theorem Tells.level {entry : Option (Horizon Float)} {angles : Set Float} (h : Tells entry angles)
    (hzero : ∀ a ∈ angles, a.isNaN = false → (a == 0.0) = true) {r : Horizon Float}
    (hr : entry = some r) : (r.upper == 0.0) = true ∧ (r.lower == 0.0) = true := by
  have hall {a : Float} (ha : a ∈ insert 0.0 angles) (hn : a.isNaN = false) :
      (a == 0.0) = true := by
    rcases ha with rfl | ha
    · decide
    · exact hzero a ha hn
  exact ⟨hall (h.upper r hr).mem (h.upper r hr).isNaN, hall (h.lower r hr).mem (h.lower r hr).isNaN⟩

variable [Trig Float] {direction : Direction Float} {distances : Set ℕ} {a : Float}

theorem seen_level (ht : LevelTrig) (he : e.isFinite = true) (hlevel : terrain.Level e)
    (hz : terrain.height cell = some z) (ha : a ∈ seen terrain cell z direction distances)
    (hn : a.isNaN = false) : (a == 0.0) = true := by
  obtain ⟨d, -, c, h, -, hh, rfl⟩ := ha
  have hrise := sub_beq_zero (hlevel.isFinite he hh) (hlevel.beq hh hz)
  apply ht.atan_zero
  apply div_beq_zero hrise
  by_contra hnan
  have hatan := ht.atan_isNaN _ (eq_true_of_ne_false hnan)
  rw [hn] at hatan
  cases hatan

end Horizon

namespace Openness

variable [Trig Float] {directions : List (Direction Float)} {stride maxDistance : ℕ}

theorem foldl_sines_of_zeros (ht : LevelTrig) {angles : List Float}
    (h : ∀ a ∈ angles, (a == 0.0) = true) :
    angles.foldl (fun sum a => sum + Trig.sin a) 0.0 = 0.0 := by
  induction angles with
  | nil => rfl
  | cons a angles ih =>
    rw [List.foldl_cons, zero_add_of_beq_zero (ht.sin_zero a (h a List.mem_cons_self))]
    exact ih fun b hb => h b (List.mem_cons_of_mem a hb)

theorem within_limit (ht : SunTrig) {a : Float} (h : (a == 0.0) = true) :
    -outlierLimit < a ∧ a < outlierLimit := by
  obtain ⟨hn, hv⟩ := beq_iff.1 h
  have hlimit : -outlierLimit < (0.0 : Float) ∧ (0.0 : Float) < outlierLimit := by
    rw [outlierLimit, toRadians, ht.pi_eq]
    decide
  exact ⟨trans_lt_le hlimit.1 (le_iff.2 ⟨hn.symm, hv.ge⟩),
    trans_le_lt (le_iff.2 ⟨hn, hv.le⟩) hlimit.2⟩

theorem meanSine_of_zeros (hs : SunTrig) (ht : LevelTrig) {angles : List Float}
    (h : ∀ a ∈ angles, (a == 0.0) = true) (hne : angles ≠ []) : meanSine angles = some 0.0 := by
  have hkept : angles.filter (fun a => -outlierLimit < a ∧ a < outlierLimit) = angles := by
    rw [List.filter_eq_self]
    intro a ha
    exact decide_eq_true (within_limit hs (h a ha))
  rw [meanSine, hkept, foldl_sines_of_zeros ht h, zero_div_natCast (List.length_pos_of_ne_nil hne)]
  exact if_neg fun hempty => hne (List.isEmpty_iff.1 hempty)

/-- Some direction comes to a sample whose angle is a number. -/
def Usable (terrain : Terrain Float) (directions : List (Direction Float))
    (stride maxDistance : ℕ) (cell : Cell) : Prop :=
  ∃ z, terrain.height cell = some z ∧ ∃ direction ∈ directions,
    ∃ a ∈ Horizon.seen terrain cell z direction
      (Horizon.unbroken terrain.shape cell direction (max stride 1) maxDistance), a.isNaN = false

/-- The horizons that are told of a cell. -/
def known (terrain : Terrain Float) (directions : List (Direction Float))
    (stride maxDistance : ℕ) (cell : Cell) : List (Horizon Float) :=
  directions.filterMap fun direction => (terrain.height cell).bind fun z =>
    Horizon.along terrain cell z (max stride 1) maxDistance direction

theorem ofCell_eq (terrain : Terrain Float) (directions : List (Direction Float))
    (stride maxDistance : ℕ) (cell : Cell) :
    ofCell terrain directions stride maxDistance cell =
      ⟨meanSine ((known terrain directions stride maxDistance cell).map (·.upper)),
        meanSine ((known terrain directions stride maxDistance cell).map (·.lower))⟩ := by
  rw [ofCell, ofHorizons, Horizon.toList_profile, List.filterMap_map]
  rfl

theorem known_eq_nil_iff : known terrain directions stride maxDistance cell = [] ↔
    ¬ Usable terrain directions stride maxDistance cell := by
  rw [known, List.filterMap_eq_nil_iff, Usable]
  cases terrain.height cell with
  | none => simp
  | some z =>
    have hpos : 0 < max stride 1 := by omega
    simp only [Option.bind_some, (Horizon.tells_along hpos).none_iff]
    simp

theorem known_level (ht : LevelTrig) (he : e.isFinite = true) (hlevel : terrain.Level e)
    {r : Horizon Float} (hr : r ∈ known terrain directions stride maxDistance cell) :
    (r.upper == 0.0) = true ∧ (r.lower == 0.0) = true := by
  obtain ⟨direction, -, hr⟩ := List.mem_filterMap.1 hr
  obtain ⟨z, hz, hr⟩ := Option.bind_eq_some_iff.1 hr
  have hpos : 0 < max stride 1 := by omega
  exact (Horizon.tells_along hpos).level (fun a ha => Horizon.seen_level ht he hlevel hz ha) hr

theorem ofCell_level (hs : SunTrig) (ht : LevelTrig) (he : e.isFinite = true)
    (hlevel : terrain.Level e) (hu : Usable terrain directions stride maxDistance cell) :
    ofCell terrain directions stride maxDistance cell = ⟨some 0.0, some 0.0⟩ := by
  have hne : known terrain directions stride maxDistance cell ≠ [] :=
    fun h => known_eq_nil_iff.1 h hu
  rw [ofCell_eq]
  congr 1
  · refine meanSine_of_zeros hs ht ?_ fun h => hne (List.map_eq_nil_iff.1 h)
    intro a ha
    obtain ⟨r, hr, rfl⟩ := List.mem_map.1 ha
    exact (known_level ht he hlevel hr).1
  · refine meanSine_of_zeros hs ht ?_ fun h => hne (List.map_eq_nil_iff.1 h)
    intro a ha
    obtain ⟨r, hr, rfl⟩ := List.mem_map.1 ha
    exact (known_level ht he hlevel hr).2

theorem ofCell_unusable (hu : ¬ Usable terrain directions stride maxDistance cell) :
    ofCell terrain directions stride maxDistance cell = ⟨none, none⟩ := by
  rw [ofCell_eq, known_eq_nil_iff.2 hu]
  rfl

end Openness

/-- Whatever the shape, the voids, the sun and the method, a cell that no other overtops is given 0,
and its march finds nothing however long it is. Where all cells that are not void have one height,
they are all given 0, and each cell is open just to the horizontal to both sides, or void where no
direction comes to a sample that can be used. -/
theorem highest_and_level_ground [Trig Float] [Resources] (hs : SunTrig) (ht : LevelTrig)
    (dem : Raster Float32) :
    (∀ params shade, (Shadow.cast dem params).outcome = .ok shade → ∀ cell z,
      dem.terrain.height cell = some z →
      (∀ c h, dem.terrain.height c = some h → h ≤ z) →
      shade.raster.get? cell = some 0.0 ∧ ∃ geometry,
        (Geometry.resolve dem.extent dem.shape params.mercator).outcome = .ok geometry ∧
        let sun := Sun.ofPosition geometry.ground params.azimuth params.elevation
        let highest := dem.statistics.highest.map Sample.toFloat
        ∀ n, (Shadow.march dem.terrain sun.toMotion sun.z (Shadow.below highest) n
          cell z).1.volume = 0.0) ∧
    ∀ e : Float, e.isFinite = true → dem.terrain.Level e →
      (∀ params shade, (Shadow.cast dem params).outcome = .ok shade → ∀ cell z,
        dem.terrain.height cell = some z → shade.raster.get? cell = some 0.0) ∧
      ∀ params sky, (Openness.scan dem params).outcome = .ok sky → ∃ geometry directions,
        (Geometry.resolve dem.extent dem.shape params.mercator).outcome = .ok geometry ∧
        Direction.rose params.directions geometry.ground = .ok directions ∧
        ∀ cell, dem.shape.Contains cell →
          let usable := Openness.Usable dem.terrain directions params.stride params.maxDistance cell
          (usable → sky.positive.get? cell = some 0.0 ∧ sky.negative.get? cell = some 0.0) ∧
            (¬ usable → sky.positive.get? cell = some Sample.void ∧
              sky.negative.get? cell = some Sample.void) := by
  refine ⟨?_, ?_⟩
  · intro params shade hrun cell z hz htop
    have hsummit := Shadow.summit_of_le hz htop
    obtain ⟨hvalid, geometry, -, hgeometry, -⟩ := Shadow.cast_eq_ok hrun
    have hrise := ShadowParams.not_sinking hs hvalid geometry.ground
    exact ⟨hsummit.cast_eq hs hrun, geometry, hgeometry, fun n => hsummit.march_volume hrise⟩
  · intro e he hlevel
    constructor
    · intro params shade hrun cell z hz
      refine (Shadow.summit_of_le hz ?_).cast_eq hs hrun
      intro c h hh
      obtain ⟨hn, hv⟩ := beq_iff.1 (hlevel.beq hh hz)
      exact le_iff.2 ⟨hn, hv.le⟩
    · intro params sky hrun
      obtain ⟨-, geometry, directions, hgeometry, hrose, hcells⟩ := Openness.scan_eq_ok hrun
      refine ⟨geometry, directions, hgeometry, hrose, ?_⟩
      intro cell hcell usable
      obtain ⟨hpositive, hnegative⟩ := hcells cell hcell
      have hzero : Openness.sideCell (some 0.0) = 0.0 := by decide +kernel
      rw [hpositive, hnegative]
      constructor
      · intro hu
        rw [Openness.ofCell_level hs ht he hlevel hu]
        exact ⟨congrArg some hzero, congrArg some hzero⟩
      · intro hu
        rw [Openness.ofCell_unusable hu]
        exact ⟨rfl, rfl⟩

theorem levelTrig_tables : @LevelTrig tableTrig := by
  have hzero {entries : List (Float × Float)} {rest x : Float} (hx : (x == 0.0) = true)
      (h : ∀ e ∈ entries, (e.1 == 0.0) = false) (hrest : (rest == 0.0) = true) :
      (tabled entries rest x == 0.0) = true := by
    refine tabled_cases (P := fun w => (w == 0.0) = true) (fun e he hkey => ?_) hrest
    have hne := h e he
    obtain ⟨⟨hn, -⟩, hvalue⟩ := beq_iff.1 hkey
    obtain ⟨⟨-, hn'⟩, hvalue'⟩ := beq_iff.1 hx
    rw [beq_iff.2 ⟨⟨hn, hn'⟩, hvalue.trans hvalue'⟩] at hne
    cases hne
  refine @LevelTrig.mk tableTrig ?_ ?_ ?_
  · intro t ht
    refine hzero ht (by decide +kernel) ?_
    rw [if_neg (ne_true_of_eq_false (beq_iff.1 ht).1.1)]
    decide
  · intro t ht
    refine tabled_cases (P := fun w => w.isNaN = true) (fun e _ hkey => ?_) (by rwa [if_pos ht])
    rw [(beq_iff.1 hkey).1.2] at ht
    cases ht
  · exact fun φ hφ => hzero hφ (by decide +kernel) (by decide)

theorem rose_north :
    letI := tableTrig
    Direction.rose 1 ⟨1.0, 1.0⟩ = .ok [(⟨0.0, -1.0, 1.0⟩ : Direction Float)] := by
  let : Trig Float := tableTrig
  have hnorth : Direction.ofBearing (⟨1.0, 1.0⟩ : Spacing Float)
      (360.0 * ((0 : ℕ) : Float) / (1 : ℕ)) = ⟨0.0, -1.0, 1.0⟩ := by
    decide +kernel
  rw [Direction.rose, tabulate, if_pos (by decide), List.range_one, List.map_singleton, hnorth]

theorem highest_and_level_ground_column :
    letI := tableTrig
    let dem : Raster Float32 := ⟨⟨3, 1⟩, #[7.0, 7.0, Sample.void],
      ⟨500000.0, 500001.0, 4000000.0, 4000003.0⟩, rfl, by decide⟩
    let shadow : ShadowParams := ⟨315.0, 45.0, .fastSweep .periodic, none, 1⟩
    let openness : OpennessParams := ⟨1, 1, 2, none, 1⟩
    dem.terrain.Level 7.0 ∧
      (∃ shade, (Shadow.cast dem shadow).outcome = .ok shade ∧
        shade.raster.get? ⟨0, 0⟩ = some 0.0 ∧ shade.raster.get? ⟨1, 0⟩ = some 0.0) ∧
      ∃ sky, (Openness.scan dem openness).outcome = .ok sky ∧
        sky.positive.get? ⟨0, 0⟩ = some Sample.void ∧ sky.positive.get? ⟨1, 0⟩ = some 0.0 := by
  let : Trig Float := tableTrig
  intro dem shadow openness
  have hlevel : dem.terrain.Level 7.0 := by
    intro c h hh
    obtain ⟨v, hv, hvoid, rfl⟩ := Raster.exists_of_height hh
    have hall : ∀ v ∈ dem.cells, Sample.isVoid v = false → (widen v == 7.0) = true := by
      decide +kernel
    exact hall v hv hvoid
  have h0 : dem.terrain.height ⟨0, 0⟩ = some 7.0 := by decide +kernel
  have h1 : dem.terrain.height ⟨1, 0⟩ = some 7.0 := by decide +kernel
  obtain ⟨htop, hground⟩ := highest_and_level_ground sunTrig_tables levelTrig_tables dem
  obtain ⟨hlit, hopen⟩ := hground 7.0 (by decide) hlevel
  obtain ⟨shade, hshade⟩ := (Shadow.cast_course dem shadow).exists_result (by decide +kernel)
    ⟨by decide, fun h => by cases h⟩
  obtain ⟨sky, hsky⟩ := (Openness.scan_course dem openness).exists_result (by decide +kernel)
    ⟨by decide, by decide, by decide, by decide⟩
  refine ⟨hlevel, ⟨shade, hshade, ?_, hlit shadow shade hshade ⟨1, 0⟩ 7.0 h1⟩, sky, hsky, ?_⟩
  · refine (htop shadow shade hshade ⟨0, 0⟩ 7.0 h0 ?_).1
    intro c h hh
    obtain ⟨hn, hv⟩ := beq_iff.1 (hlevel c h hh)
    exact le_iff.2 ⟨hn, hv.le⟩
  · obtain ⟨geometry, directions, hgeometry, hrose, hcells⟩ := hopen openness sky hsky
    have hground : geometry.ground = ⟨1.0, 1.0⟩ :=
      Geometry.ground_of_resolved (by decide +kernel) hgeometry
    rw [hground, rose_north] at hrose
    obtain rfl := Except.ok.inj hrose
    constructor
    · refine ((hcells ⟨0, 0⟩ (by decide)).2 ?_).1
      rintro ⟨z, -, north, hnorth, a, ⟨d, ⟨⟨hd, -⟩, hreach⟩, -⟩, -⟩
      obtain rfl := List.mem_singleton.1 hnorth
      exact absurd (hreach 1 ⟨one_pos, one_dvd 1, hd⟩) (by decide +kernel)
    · refine ((hcells ⟨1, 0⟩ (by decide)).1 ?_).1
      refine ⟨7.0, h1, ⟨0.0, -1.0, 1.0⟩, List.mem_singleton.2 rfl, 0.0,
        ⟨1, ⟨⟨one_pos, one_dvd 1, by decide⟩, ?_⟩, ⟨0, 0⟩, 7.0, by decide +kernel, h0,
          by decide +kernel⟩, by decide⟩
      rintro d ⟨hd, -, hle⟩
      obtain rfl : d = 1 := le_antisymm hle hd
      decide +kernel

end Relief
