import Relief.Machine
import Relief.Proofs.Daylight
import Relief.Proofs.Finished
import Relief.Proofs.Shadow.March

namespace Relief

open Binary

/-- What is relied on of the logarithm of positive numbers: it is zero at 1 alone, and nowhere else
so near to zero that it would be lost in binary32. -/
structure LogTrig [Trig Float] : Prop where
  log_one : ∀ v : Float, (v == 1.0) = true → (Trig.log v == 0.0) = true
  log_below : ∀ v : Float, 0.0 < v → v < 1.0 → Trig.log v ≤ -1e-17
  log_above : ∀ v : Float, 1.0 < v → 1e-17 ≤ Trig.log v

theorem LogTrig.narrow_log [Trig Float] (hl : LogTrig) {v : Float} (h : 0.0 < v) :
    ((Sample.ofFloat (Trig.log v) : Float32) == 0.0) = true ↔ (v == 1.0) = true := by
  change (narrow (Trig.log v) == 0.0) = true ↔ (v == 1.0) = true
  have hn : v.isNaN = false := (lt_iff.1 h).1.2
  have hone : (1.0 : Float).isNaN = false := by decide
  rcases lt_trichotomy (value v) (value 1.0) with hv | hv | hv
  · have hlog := hl.log_below v h ((lt_iff_of_number hn hone).2 hv)
    apply iff_of_false (not_narrow_beq_zero_of_le hlog (by decide +kernel))
    exact fun heq => hv.ne (beq_iff.1 heq).2
  · have heq : (v == 1.0) = true := beq_iff.2 ⟨⟨hn, hone⟩, hv⟩
    exact iff_of_true (narrow_beq_zero (hl.log_one v heq)) heq
  · have hlog := hl.log_above v ((lt_iff_of_number hone hn).2 hv)
    apply iff_of_false (not_narrow_beq_zero_of_ge hlog (by decide +kernel))
    exact fun heq => hv.ne' (beq_iff.1 heq).2

namespace Shadow

variable {dem : Raster Float32} {params : ShadowParams} {shade : Shade}

theorem exact_cast_eq_ok [Trig Float] [Resources] (hs : SunTrig) (hmethod : params.method = .exact)
    (hrun : (cast dem params).outcome = .ok shade) : ∃ geometry sun,
      (Geometry.resolve dem.extent dem.shape params.mercator).outcome = .ok geometry ∧
      sun = Sun.ofPosition geometry.ground params.azimuth params.elevation ∧ ¬ sun.z < 0.0 ∧
      ∀ cell, dem.shape.Contains cell → shade.raster.get? cell =
        some (exactCell dem.terrain sun (dem.statistics.highest.map Sample.toFloat) cell) := by
  obtain ⟨hvalid, geometry, cells, hgeometry, hcells, hget⟩ := cast_eq_ok hrun
  refine ⟨geometry, _, hgeometry, rfl, ShadowParams.not_sinking hs hvalid _, ?_⟩
  intro cell hcell
  rw [castCells_eq, hmethod] at hcells
  exact (hget cell hcell).trans (getElem?_exactCells hcells dem.size_lt_wordValues hcell)

/-- A march that has ended meets nothing more above its ray, however far the ray is followed. -/
theorem risesAbove_of_ended {motion : Motion Float} {rise z : Float} {cell : Cell}
    (hrise : ¬ rise < 0.0) (h : dem.terrain.height cell = some z) {n m : ℕ}
    (hend : (march dem.terrain motion rise (below (dem.statistics.highest.map Sample.toFloat)) n
      cell z).2 ≠ .outOfSteps) (hle : n ≤ m) :
    RisesAbove dem.terrain rise (marchPath dem.terrain motion m cell) z ↔
      RisesAbove dem.terrain rise (marchPath dem.terrain motion n cell) z := by
  rw [← not_iff_not, ← march_volume_beq motion hrise h, march_volume_of_ended hrise hend hle,
    march_volume_eq dem motion hrise, march_volume_beq motion hrise h]

section Cells

variable [Trig Float] {sun : Sun Float} {cell : Cell} {z : Float}

theorem exactCell_eq (hrise : ¬ sun.z < 0.0) (h : dem.terrain.height cell = some z) :
    let highest := dem.statistics.highest.map Sample.toFloat
    let shade := exactCell dem.terrain sun highest cell
    let volume :=
      (march dem.terrain sun.toMotion sun.z (below highest) marchSteps cell z).1.volume
    let rises :=
      RisesAbove dem.terrain sun.z (marchPath dem.terrain sun.toMotion marchSteps cell) z
    (¬ rises → shade = 0.0) ∧
      (rises → 0.0 < volume ∧ shade = Sample.ofFloat (Trig.log volume)) := by
  obtain ⟨hlit, hshaded⟩ := exactShade_eq sun.toMotion hrise h
  rw [← march_volume_eq dem sun.toMotion hrise] at hshaded
  intro highest shade volume rises
  constructor
  · intro hr
    change Sample.ofFloat (exactShade _ _ _ _ _) = 0.0
    rw [hlit hr]
    decide +kernel
  · intro hr
    obtain ⟨hpos, hshade⟩ := hshaded hr
    exact ⟨hpos, congrArg Sample.ofFloat hshade⟩

theorem exactCell_beq_zero_iff (hl : LogTrig) (hrise : ¬ sun.z < 0.0)
    (h : dem.terrain.height cell = some z) :
    let highest := dem.statistics.highest.map Sample.toFloat
    let volume :=
      (march dem.terrain sun.toMotion sun.z (below highest) marchSteps cell z).1.volume
    let rises :=
      RisesAbove dem.terrain sun.z (marchPath dem.terrain sun.toMotion marchSteps cell) z
    (exactCell dem.terrain sun highest cell == 0.0) = true ↔
      ¬ rises ∨ (volume == 1.0) = true := by
  obtain ⟨hlit, hshaded⟩ := exactCell_eq hrise h
  intro highest volume rises
  by_cases hr : rises
  · obtain ⟨hpos, hshade⟩ := hshaded hr
    rw [hshade, or_iff_right (not_not.2 hr)]
    exact hl.narrow_log hpos
  · rw [hlit hr]
    exact iff_of_true (by decide) (.inl hr)

end Cells

/-- The exact shade of a cell is zero just where no terrain rises above its ray or what rises sums
up to exactly 1. It is 0 where nothing rises and otherwise the logarithm of a positive volume; and a
march that has ended leaves nothing out. -/
theorem exact_cast_beq_zero_iff [Trig Float] [Resources] (hs : SunTrig) (hl : LogTrig)
    (hmethod : params.method = .exact) (hrun : (cast dem params).outcome = .ok shade) :
    ∃ geometry sun,
      (Geometry.resolve dem.extent dem.shape params.mercator).outcome = .ok geometry ∧
      sun = Sun.ofPosition geometry.ground params.azimuth params.elevation ∧
      ∀ cell z, dem.terrain.height cell = some z →
        let highest := dem.statistics.highest.map Sample.toFloat
        let marched := fun n => march dem.terrain sun.toMotion sun.z (below highest) n cell z
        let rises := fun n =>
          RisesAbove dem.terrain sun.z (marchPath dem.terrain sun.toMotion n cell) z
        ∃ s, shade.raster.get? cell = some s ∧
          ((s == 0.0) = true ↔
            ¬ rises marchSteps ∨ ((marched marchSteps).1.volume == 1.0) = true) ∧
          (¬ rises marchSteps → s = 0.0) ∧
          (rises marchSteps → 0.0 < (marched marchSteps).1.volume ∧
            s = Sample.ofFloat (Trig.log (marched marchSteps).1.volume)) ∧
          ∀ n, (marched n).2 ≠ .outOfSteps → ∀ m ≥ n, rises m ↔ rises n := by
  obtain ⟨geometry, sun, hgeometry, hsun, hrise, hget⟩ := exact_cast_eq_ok hs hmethod hrun
  refine ⟨geometry, sun, hgeometry, hsun, ?_⟩
  intro cell z hz
  dsimp only
  obtain ⟨hlit, hshaded⟩ := exactCell_eq hrise hz
  exact ⟨_, hget cell (Raster.contains_of_height hz), exactCell_beq_zero_iff hl hrise hz, hlit,
    hshaded, fun n hend m hm => risesAbove_of_ended hrise hz hend hm⟩

theorem logTrig_tables : @LogTrig tableTrig := by
  refine @LogTrig.mk tableTrig ?_ ?_ ?_
  · intro v hv
    have hbelow : ¬ v < 1.0 := fun hlt => (lt_iff.1 hlt).2.ne (beq_iff.1 hv).2
    have habove : ¬ 1.0 < v := fun hlt => (lt_iff.1 hlt).2.ne (beq_iff.1 hv).2.symm
    refine tabled_cases (P := fun w => (w == 0.0) = true) (fun e he hkey => ?_) ?_
    · have hlisted : ∀ e ∈ logarithms, (e.1 == 1.0) = false ∨ (e.2 == 0.0) = true := by
        decide +kernel
      refine (hlisted e he).resolve_left fun hne => ?_
      obtain ⟨⟨hn, -⟩, hvalue⟩ := beq_iff.1 hkey
      obtain ⟨⟨-, hn'⟩, hvalue'⟩ := beq_iff.1 hv
      rw [beq_iff.2 ⟨⟨hn, hn'⟩, hvalue.trans hvalue'⟩] at hne
      cases hne
    · rw [if_neg hbelow, if_neg habove]
      decide
  · intro v h0 hv
    refine tabled_cases (P := fun w => w ≤ -1e-17) (fun e he hkey => ?_) ?_
    · have hlisted : ∀ e ∈ logarithms, 1.0 ≤ e.1 ∨ e.2 ≤ -1e-17 := by decide +kernel
      refine (hlisted e he).resolve_left fun hge => ?_
      exact absurd (lt_iff.1 hv).2 (not_lt.2 ((beq_iff.1 hkey).2 ▸ (le_iff.1 hge).2))
    · rw [if_pos hv]
      decide +kernel
  · intro v hv
    refine tabled_cases (P := fun w => 1e-17 ≤ w) (fun e he hkey => ?_) ?_
    · have hlisted : ∀ e ∈ logarithms, e.1 ≤ 1.0 ∨ 1e-17 ≤ e.2 := by decide +kernel
      refine (hlisted e he).resolve_left fun hle => ?_
      exact absurd (lt_iff.1 hv).2 (not_lt.2 ((beq_iff.1 hkey).2 ▸ (le_iff.1 hle).2))
    · rw [if_neg fun hlt => (lt_iff.1 (trans_lt hv hlt)).2.false, if_pos hv]
      decide +kernel

theorem sun_eastward :
    letI := tableTrig
    Sun.ofPosition ⟨1.0, 1.0⟩ 90.0 0.0 = ⟨⟨1.0, -6.123233995736766e-17⟩, 0.0⟩ := by
  decide +kernel

theorem marchPath_row {terrain : Terrain Float} (hshape : terrain.shape = ⟨1, 2⟩) (n : ℕ) :
    marchPath terrain ⟨1.0, -6.123233995736766e-17⟩ (n + 3) ⟨0, 0⟩ = [⟨0, 0⟩, ⟨0, 1⟩] := by
  let next (p : Position Float) : Position Float := ⟨p.x + 1.0, p.y + -6.123233995736766e-17⟩
  let start : Position Float := Cell.position ⟨0, 0⟩
  have h0 : Shape.nearest ⟨1, 2⟩ start = some ⟨0, 0⟩ := by decide +kernel
  have h1 : Shape.nearest ⟨1, 2⟩ (next start) = some ⟨0, 1⟩ := by decide +kernel
  have h2 : Shape.nearest ⟨1, 2⟩ (next (next start)) = none := by decide +kernel
  rw [marchPath, hshape]
  change path (Shape.nearest ⟨1, 2⟩) next (n + 3) start = _
  rw [path, h0]
  dsimp only
  rw [path, h1]
  dsimp only
  rw [path, h2]

theorem level_ray {dem : Raster Float32} {w : Float} (hshape : dem.shape = ⟨1, 2⟩)
    (h0 : dem.terrain.height ⟨0, 0⟩ = some 0.0) (h1 : dem.terrain.height ⟨0, 1⟩ = some w)
    (hw : 0.0 < w) :
    let motion : Motion Float := ⟨1.0, -6.123233995736766e-17⟩
    let volume := (march dem.terrain motion 0.0
      (below (dem.statistics.highest.map Sample.toFloat)) marchSteps ⟨0, 0⟩ 0.0).1.volume
    RisesAbove dem.terrain 0.0 (marchPath dem.terrain motion marchSteps ⟨0, 0⟩) 0.0 ∧
      volume = 0.0 + (w - 0.0) := by
  intro motion
  have hlevel : (0.0 + 0.0 : Float) = 0.0 := by decide
  have hpath : marchPath dem.terrain motion marchSteps ⟨0, 0⟩ = [⟨0, 0⟩, ⟨0, 1⟩] :=
    marchPath_row hshape (marchSteps - 3)
  dsimp only
  rw [march_volume_eq dem _ (by decide), march_plain_eq_foldl, hpath]
  constructor
  · rw [risesAbove_cons, risesAbove_cons, hlevel]
    exact .inr (.inl ⟨w, h1, hw⟩)
  · have hflat : ¬ (0.0 : Float) < 0.0 := by decide
    simp only [List.foldl_cons, List.foldl_nil, advance, h0, h1, hlevel, Ray.pass, if_neg hflat,
      if_pos hw]

/-- A wall of height 3 above a level ray shows. -/
theorem exact_cast_beq_zero_iff_wall :
    letI := tableTrig
    let dem : Raster Float32 :=
      ⟨⟨1, 2⟩, #[0.0, 3.0], ⟨500000.0, 500002.0, 4000000.0, 4000001.0⟩, rfl, by decide⟩
    let params : ShadowParams := ⟨90.0, 0.0, .exact, none, 1⟩
    ∃ shade s, (cast dem params).outcome = .ok shade ∧ shade.raster.get? ⟨0, 0⟩ = some s ∧
      ¬ (s == 0.0) = true := by
  let : Trig Float := tableTrig
  intro dem params
  obtain ⟨shade, hrun⟩ := (cast_course dem params).exists_result (by decide +kernel)
    ⟨by decide, fun _ => by decide⟩
  obtain ⟨geometry, sun, hgeometry, hsun, hcells⟩ :=
    exact_cast_beq_zero_iff sunTrig_tables logTrig_tables rfl hrun
  have hground : geometry.ground = ⟨1.0, 1.0⟩ :=
    Geometry.ground_of_resolved (by decide +kernel) hgeometry
  rw [hground, sun_eastward] at hsun
  subst hsun
  obtain ⟨s, hget, hiff, -⟩ := hcells ⟨0, 0⟩ 0.0 (by decide +kernel)
  refine ⟨shade, s, hrun, hget, ?_⟩
  have h1 : dem.terrain.height ⟨0, 1⟩ = some 3.0 := by decide +kernel
  obtain ⟨hrises, hvolume⟩ := level_ray rfl (by decide +kernel) h1 (by decide)
  dsimp only at hiff hvolume
  rw [hiff, hvolume, not_or, not_not]
  exact ⟨hrises, by decide⟩

/-- A wall of height 1 rises above the level ray of the cell before it, which is given 0 all the
same. -/
theorem shaded_cell_given_zero :
    letI := tableTrig
    let dem : Raster Float32 :=
      ⟨⟨1, 2⟩, #[0.0, 1.0], ⟨500000.0, 500002.0, 4000000.0, 4000001.0⟩, rfl, by decide⟩
    let params : ShadowParams := ⟨90.0, 0.0, .exact, none, 1⟩
    ∃ shade geometry, (cast dem params).outcome = .ok shade ∧
      (Geometry.resolve dem.extent dem.shape params.mercator).outcome = .ok geometry ∧
      let sun := Sun.ofPosition geometry.ground params.azimuth params.elevation
      let path := marchPath dem.terrain sun.toMotion marchSteps ⟨0, 0⟩
      dem.terrain.height ⟨0, 0⟩ = some 0.0 ∧ RisesAbove dem.terrain sun.z path 0.0 ∧
        shade.raster.get? ⟨0, 0⟩ = some 0.0 := by
  let : Trig Float := tableTrig
  intro dem params
  obtain ⟨shade, hrun⟩ := (cast_course dem params).exists_result (by decide +kernel)
    ⟨by decide, fun _ => by decide⟩
  obtain ⟨geometry, sun, hgeometry, hsun, hrise, hget⟩ :=
    exact_cast_eq_ok sunTrig_tables rfl hrun
  have h0 : dem.terrain.height ⟨0, 0⟩ = some 0.0 := by decide +kernel
  have h1 : dem.terrain.height ⟨0, 1⟩ = some 1.0 := by decide +kernel
  obtain ⟨hrises, hvolume⟩ := level_ray rfl h0 h1 (by decide)
  have hshade := exactCell_eq hrise h0
  refine ⟨shade, geometry, hrun, hgeometry, ?_⟩
  dsimp only
  rw [← hsun, hget ⟨0, 0⟩ (by decide)]
  have hground : geometry.ground = ⟨1.0, 1.0⟩ :=
    Geometry.ground_of_resolved (by decide +kernel) hgeometry
  rw [hground, sun_eastward] at hsun
  subst hsun
  dsimp only at hshade hvolume
  rw [hvolume] at hshade
  refine ⟨h0, hrises, ?_⟩
  rw [(hshade.2 hrises).2]
  decide +kernel

end Shadow

end Relief
