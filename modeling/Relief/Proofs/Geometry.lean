import Relief.Proofs.Ellipsoid
import Relief.Proofs.Grid
import Relief.Proofs.Resolution

namespace Relief

open Binary

section Latitudes

theorem middle_mem {c x y : Float} (hlo : -c ≤ x) (hxy : x ≤ y) (hhi : y ≤ c)
    (hc : c.isFinite = true) (hedge : magnitude c ≤ 90.01) :
    x ≤ 0.5 * (x + y) ∧ 0.5 * (x + y) ≤ y := by
  have hx := between_number hlo (trans_le hxy hhi) (isFinite_neg hc) hc
  have hy := between_number (trans_le hlo hxy) hhi (isFinite_neg hc) hc
  rw [number_neg] at hx hy
  have hbig {z : Float} (hz : Between (-number c) (number c) z) : |number z| < 2 ^ 200 :=
    calc |number z| ≤ number c := abs_le.2 ⟨hz.lo_le, hz.le_hi⟩
      _ ≤ 128 := (le_abs_self _).trans (abs_number_le hc hedge)
      _ < 2 ^ 200 := by norm_num
  have hmiddle := between_middle hxy hx.isFinite hy.isFinite (hbig hx) (hbig hy)
  rw [le_iff_number hx.isFinite hmiddle.isFinite, le_iff_number hmiddle.isFinite hy.isFinite]
  exact ⟨hmiddle.lo_le, hmiddle.le_hi⟩

theorem middle_within {c x y : Float} (hlo : -c ≤ x) (hxy : x ≤ y) (hhi : y ≤ c)
    (hc : c.isFinite = true) (hedge : magnitude c ≤ 90.01) :
    (0.5 * (x + y)).isFinite = true ∧ magnitude (0.5 * (x + y)) ≤ c := by
  obtain ⟨hx, hy⟩ := middle_mem hlo hxy hhi hc hedge
  have hmiddle := between_number (trans_le hlo hx) (trans_le hy hhi) (isFinite_neg hc) hc
  rw [number_neg] at hmiddle
  exact ⟨hmiddle.isFinite, hmiddle.magnitude_le hc⟩

theorem Extent.Proper.centerY_within {extent : Extent Float} (h : extent.Proper)
    (hlo : -90.01 < extent.ymin) (hhi : extent.ymax < 90.01) :
    extent.centerY.isFinite = true ∧ magnitude extent.centerY ≤ 90.01 :=
  middle_within (lt_imp_le hlo) (lt_imp_le h.y_lt) (lt_imp_le hhi) (by decide) (by decide)

theorem LatitudeBand.middle_mem (band : LatitudeBand) :
    band.south ≤ band.middle ∧ band.middle ≤ band.north :=
  Relief.middle_mem (lt_imp_le band.pole_lt_south) (lt_imp_le band.south_lt_north)
    (lt_imp_le band.north_lt_pole) (by decide) (by decide)

theorem LatitudeBand.middle_within (band : LatitudeBand) :
    band.middle.isFinite = true ∧ magnitude band.middle ≤ 90.0 :=
  Relief.middle_within (lt_imp_le band.pole_lt_south) (lt_imp_le band.south_lt_north)
    (lt_imp_le band.north_lt_pole) (by decide) (by decide)

end Latitudes

section Products

variable {x y : Float}

theorem number_of_small (h0 : 0.0 < x) (h : magnitude x < 0.02) :
    x.isFinite = true ∧ 0 < number x ∧ number x ≤ 1 := by
  have hself : magnitude x = x := by
    rw [magnitude, if_neg]
    intro hneg
    exact absurd (lt_iff.1 (trans_lt h0 hneg)).2 (lt_irrefl _)
  rw [hself] at h
  have hsmall : x ≤ 1.0 := lt_imp_le (trans_lt_le h (by decide))
  obtain ⟨hf1, hone⟩ := number_one
  have hf := isFinite_of_between (lt_imp_le h0) hsmall isFinite_zero hf1
  rw [lt_iff_number isFinite_zero hf, number_zero] at h0
  rw [le_iff_number hf hf1, hone] at hsmall
  exact ⟨hf, h0, hsmall⟩

theorem mul_pos_of_wide {j : ℤ} (hx : x.isFinite = true) (h : 1.0e-60 ≤ x)
    (hy : Between (2 ^ (-41 : ℤ)) (2 ^ j) y) : 0.0 < x * y := by
  have hbits : (1.0e-60 : Float).toModel.unpack =
      .finite .positive 7237005577332262 (-252) (by decide) := rfl
  have hleast := between_of_unpack hbits (by decide) (by decide)
  rw [le_iff_number hleast.isFinite hx] at h
  rw [mul_pos_iff_number hx hy.isFinite]
  calc (2 : ℝ) ^ (-1075 : ℤ) < 2 ^ (-200 + -41 : ℤ) := zpow_lt_zpow_right₀ one_lt_two (by decide)
    _ = 2 ^ (-200 : ℤ) * 2 ^ (-41 : ℤ) := zpow_add₀ two_ne_zero _ _
    _ ≤ number x * number y :=
      mul_le_mul (hleast.lo_le.trans h) hy.lo_le (by positivity) (hleast.pos.le.trans h)

theorem far_of_beyond {lo hi c : Float} (hlo : lo.isFinite = true) (hhi : hi.isFinite = true)
    (hc : c.isFinite = true) (h64 : 64.0 ≤ c) (h : lo < -c ∨ c < hi) :
    number lo ≤ -64 ∨ 64 ≤ number hi := by
  have hbits : (64.0 : Float).toModel.unpack =
      .finite .positive 4503599627370496 (-46) (by decide) := rfl
  rw [le_iff_number (by decide) hc, number_of_unpack hbits] at h64
  norm_num at h64
  rcases h with h | h
  · rw [lt_iff_number hlo (isFinite_neg hc), number_neg] at h
    exact .inl (by linarith)
  · rw [lt_iff_number hc hhi] at h
    exact .inr (by linarith)

theorem atLeast_div_count {lo hi : Float} {count : ℕ} (hlt : lo < hi) (hlo : lo.isFinite = true)
    (hhi : hi.isFinite = true) (hfar : number lo ≤ -64 ∨ 64 ≤ number hi)
    (hpos : 1 ≤ count) (hword : count < wordValues) :
    AtLeast (2 ^ (-111 : ℤ)) ((hi - lo) / (count : Float)) :=
  (atLeast_sub hlt hlo hhi hfar).div (between_natCast hpos hword.le) (by decide) (by decide)

end Products

namespace Geometry

variable {extent : Extent Float} {shape : Shape} {mercator : Option LatitudeBand}
  {native : Spacing Float} {projection : Projection} {geometry : Geometry}

theorem atLeast_spacing (hproper : extent.Proper) (hempty : shape.isEmpty = false)
    (hrows : shape.rows < wordValues) (hcols : shape.cols < wordValues)
    (hclass : Projection.classify extent (extent.spacing shape) = .projected) :
    AtLeast (2 ^ (-111 : ℤ)) (extent.spacing shape).x ∧
      AtLeast (2 ^ (-111 : ℤ)) (extent.spacing shape).y := by
  obtain ⟨hr, hc⟩ := Shape.isEmpty_eq_false.1 hempty
  obtain ⟨hx, hy⟩ := Projection.classify_eq_projected hclass
  have hfarx := far_of_beyond hproper.xmin hproper.xmax (by decide) (by decide) hx
  have hfary := far_of_beyond hproper.ymin hproper.ymax (by decide) (by decide) hy
  exact ⟨atLeast_div_count hproper.x_lt hproper.xmin hproper.xmax hfarx hc hcols,
    atLeast_div_count hproper.y_lt hproper.ymin hproper.ymax hfary hr hrows⟩

section Ground

variable [Trig Float] (ht : SoundTrig)
include ht

theorem groundSpacing_geographic (hproper : extent.Proper)
    (hclass : Projection.classify extent native = .geographic) (hx : 0.0 < native.x)
    (hy : 0.0 < native.y) :
    let degree := Ellipsoid.degreeLengths extent.centerY
    let ground := groundSpacing extent native .geographic
    0.0 < ground.y ∧
      (0.0 < ground.x ↔ magnitude extent.centerY ≤ 90.0 ∧
        2 ^ (-1075 : ℤ) < number native.x * number degree.1) ∧
      (90.0 < magnitude extent.centerY → ground.x ≤ 0.0) ∧
      (magnitude extent.centerY ≤ 90.0 → 1.0e-60 ≤ native.x → 0.0 < ground.x) := by
  intro degree ground
  obtain ⟨⟨hsmally, hsmallx⟩, -, -, hlo, hhi⟩ := Projection.classify_eq_geographic hclass
  obtain ⟨hfx, hx0, hx1⟩ := number_of_small hx hsmallx
  obtain ⟨hfy, hy0, -⟩ := number_of_small hy hsmally
  obtain ⟨hfc, hcenter⟩ := hproper.centerY_within hlo hhi
  have hlatitude : Between _ _ degree.2 := Ellipsoid.between_latitude ht hfc hcenter
  have hupright (h : magnitude extent.centerY ≤ 90.0) : Between _ _ degree.1 :=
    Ellipsoid.between_longitude_upright ht hfc h
  have hoverhang (h : 90.0 < magnitude extent.centerY) : Between _ _ degree.1 :=
    Ellipsoid.between_longitude_overhang ht hfc h hcenter
  have hnonpos (h : 90.0 < magnitude extent.centerY) : ground.x ≤ 0.0 := by
    have hd := hoverhang h
    have hbound : Exact (2 ^ (24 : ℤ)) := exact_zpow (by decide) (by decide)
    have hground : Between (-2 ^ (24 : ℤ)) 0 ground.x :=
      between_mul hfx hd.isFinite hbound.neg exact_zero
        (by nlinarith [hd.lo_le, hd.le_hi]) (mul_nonpos_of_nonneg_of_nonpos hx0.le hd.le_hi)
    rw [le_iff_number hground.isFinite isFinite_zero, number_zero]
    exact hground.le_hi
  refine ⟨?_, ⟨?_, ?_⟩, hnonpos, ?_⟩
  · have hone : 1 ≤ number degree.2 := le_trans (by norm_num) hlatitude.lo_le
    exact mul_pos_of_one_le hfy hlatitude.isFinite hy0 hone
  · intro hpos
    rcases le_or_lt_of_isFinite (number_magnitude hfc).1 (y := 90.0) (by decide) with h | h
    · exact ⟨h, (mul_pos_iff_number hfx (hupright h).isFinite).1 hpos⟩
    · have hle := (le_iff.1 (hnonpos h)).2
      exact absurd (lt_iff.1 hpos).2 hle.not_gt
  · rintro ⟨h, hproduct⟩
    exact (mul_pos_iff_number hfx (hupright h).isFinite).2 hproduct
  · intro h hleast
    exact mul_pos_of_wide hfx hleast (hupright h)

theorem groundSpacing_mercator (band : LatitudeBand) (hx : AtLeast (2 ^ (-111 : ℤ)) native.x)
    (hy : AtLeast (2 ^ (-111 : ℤ)) native.y) :
    0.0 < (groundSpacing extent native (.mercator band)).x ∧
      0.0 < (groundSpacing extent native (.mercator band)).y := by
  obtain ⟨hf, hmiddle⟩ := band.middle_within
  have hscale := between_cos_upright ht hf hmiddle
  exact ⟨(hx.mul hscale (by decide) (by decide)).pos, (hy.mul hscale (by decide) (by decide)).pos⟩

/-- The cells of a resolved grid have a height on the ground and, unless they are measured in
degrees, a width. Cells of degrees have a width exactly if the centre of the box is not beyond a
pole and the width in degrees times the length of a degree does not round to nothing; from `1e-60`
degrees on it does not. -/
theorem ground_pos_iff {xmin xmax ymin ymax : Float}
    (hbounds : Extent.ofBounds xmin xmax ymin ymax = .ok extent) (hrows : shape.rows < wordValues)
    (hcols : shape.cols < wordValues)
    (h : (resolve extent shape mercator).outcome = .ok geometry) :
    let degree := Ellipsoid.degreeLengths extent.centerY
    (0.0 < geometry.native.x ∧ 0.0 < geometry.native.y ∧ 0.0 < geometry.ground.y) ∧
      (geometry.projection ≠ .geographic → 0.0 < geometry.ground.x) ∧
      (geometry.projection = .geographic →
        (0.0 < geometry.ground.x ↔ magnitude extent.centerY ≤ 90.0 ∧
          2 ^ (-1075 : ℤ) < number geometry.native.x * number degree.1) ∧
        (90.0 < magnitude extent.centerY → geometry.ground.x ≤ 0.0) ∧
        (magnitude extent.centerY ≤ 90.0 → 1.0e-60 ≤ geometry.native.x →
          0.0 < geometry.ground.x)) := by
  intro degree
  have hproper := Extent.proper_of_ofBounds hbounds
  have hempty := isEmpty_of_resolve h
  obtain ⟨hnative, ⟨hx, hy⟩, hproject, hground, -⟩ := resolve_eq_ok h
  rw [hground]
  rcases project_eq_ok hproject with ⟨hdegrees, hclass⟩ | ⟨hplane, hclass⟩
  · obtain ⟨hground, hwidth⟩ := groundSpacing_geographic ht hproper hclass hx hy
    rw [hdegrees]
    exact ⟨⟨hx, hy, hground⟩, fun hne => absurd rfl hne, fun _ => hwidth⟩
  · have hboth : 0.0 < (groundSpacing extent geometry.native geometry.projection).x ∧
        0.0 < (groundSpacing extent geometry.native geometry.projection).y := by
      rcases hplane with hprojected | ⟨band, hmercator⟩
      · rw [hprojected]
        exact ⟨hx, hy⟩
      · rw [hnative] at hclass ⊢
        obtain ⟨hleastx, hleasty⟩ := atLeast_spacing hproper hempty hrows hcols hclass
        rw [hmercator]
        exact groundSpacing_mercator ht band hleastx hleasty
    refine ⟨⟨hx, hy, hboth.2⟩, fun _ => hboth.1, fun hdegrees => ?_⟩
    rcases hplane with hprojected | ⟨band, hmercator⟩
    · cases hprojected.symm.trans hdegrees
    · cases hmercator.symm.trans hdegrees

end Ground

/-- The elementary functions as far as they are needed within `1e-8` radians of zero, where a sine
is the angle and a cosine is 1. -/
@[reducible]
def equatorTrig : Trig Float where
  pi := 3.141592653589793
  sin φ := if magnitude φ ≤ 1.0 then φ else 0.0
  cos φ := if magnitude φ ≤ quarterTurn then 1.0 else -1.0
  atan x := x
  atan2 _ _ := 0.0
  log x := x
  sqrt x := x
  hypot := hypot

theorem soundTrig_equator : @SoundTrig equatorTrig := by
  refine @SoundTrig.mk equatorTrig rfl ?_ ?_ ?_ ?_
  · intro φ hφ
    change -1.0 ≤ (if magnitude φ ≤ 1.0 then φ else 0.0) ∧
      (if magnitude φ ≤ 1.0 then φ else 0.0) ≤ 1.0
    split_ifs with h
    · obtain ⟨hf, hm⟩ := number_magnitude hφ
      obtain ⟨hone, hone'⟩ := number_one
      rw [le_iff_number hf hone, hm, hone', abs_le] at h
      rw [le_iff_number (isFinite_neg hone) hφ, le_iff_number hφ hone, number_neg, hone']
      exact h
    · decide
  · intro φ hφ
    change 1.0e-17 ≤ (if magnitude φ ≤ quarterTurn then (1.0 : Float) else -1.0) ∧
      (if magnitude φ ≤ quarterTurn then (1.0 : Float) else -1.0) ≤ 1.0
    rw [if_pos hφ]
    decide
  · intro φ hφ _
    have hnot : ¬ magnitude φ ≤ quarterTurn := fun hle =>
      absurd (lt_iff.1 hφ).2 (le_iff.1 hle).2.not_gt
    change -1.0 ≤ (if magnitude φ ≤ quarterTurn then (1.0 : Float) else -1.0) ∧
      (if magnitude φ ≤ quarterTurn then (1.0 : Float) else -1.0) ≤ 0.0
    rw [if_neg hnot]
    decide
  · intro x h0 h1
    exact ⟨le_iff.2 ⟨⟨(le_iff.1 h0).1.2, (le_iff.1 h0).1.2⟩, le_rfl⟩, h1⟩

/-- Four cells around the equator and the prime meridian. -/
theorem ground_pos_iff_equator :
    let extent : Extent Float := ⟨-1.0e-7, 1.0e-7, -1.0e-7, 1.0e-7⟩
    let shape : Shape := ⟨2, 2⟩
    @SoundTrig equatorTrig ∧
      Extent.ofBounds (-1.0e-7) 1.0e-7 (-1.0e-7) 1.0e-7 = .ok extent ∧
      shape.rows < wordValues ∧ shape.cols < wordValues ∧
      ∃ geometry, (@resolve equatorTrig extent shape none).outcome = .ok geometry ∧
        geometry.projection = .geographic ∧ 0.0 < geometry.ground.x ∧ 0.0 < geometry.ground.y := by
  intro extent shape
  have ht := soundTrig_equator
  have hbounds : Extent.ofBounds (-1.0e-7) 1.0e-7 (-1.0e-7) 1.0e-7 = .ok extent := by
    decide +kernel
  have hrows : shape.rows < wordValues := by decide
  have hcols : shape.cols < wordValues := by decide
  have hresolved : ((@resolve equatorTrig extent shape none).outcome.toOption.map
      fun geometry => (geometry.projection, geometry.native.x)) = some (.geographic, 1.0e-7) := by
    decide +kernel
  obtain ⟨geometry, hgeometry, hview⟩ := exists_ok_of_map hresolved
  obtain ⟨hdegrees, hnative⟩ := Prod.mk.inj hview
  obtain ⟨⟨-, -, htall⟩, -, hwide⟩ :=
    @ground_pos_iff extent shape none geometry equatorTrig ht _ _ _ _ hbounds hrows hcols hgeometry
  have hleast : 1.0e-60 ≤ geometry.native.x := by
    rw [hnative]
    decide
  refine ⟨ht, hbounds, hrows, hcols, geometry, hgeometry, hdegrees, ?_, htall⟩
  exact (hwide hdegrees).2.2 (by decide) hleast

/-- The elementary functions at latitudes 90.004 and 90.008. -/
@[reducible]
def polarTrig : Trig Float where
  pi := 3.141592653589793
  sin φ := if φ == 1.5708661399649761 then 0.9999999975630607 else 0.9999999902522426
  cos φ := if φ == 1.5708661399649761 then -6.981317002281982e-05 else -0.000139626339705662
  atan x := x
  atan2 _ _ := 0.0
  log x := x
  sqrt := Float.sqrt
  hypot := hypot

/-- On a box of degrees whose centre lies beyond the north pole the columns run backward. -/
theorem ground_backward_beyond_pole :
    let extent : Extent Float := ⟨0.0, 0.01, 90.0, 90.008⟩
    Extent.ofBounds 0.0 0.01 90.0 90.008 = .ok extent ∧
      ∃ geometry, (@resolve polarTrig extent ⟨8, 10⟩ none).outcome = .ok geometry ∧
        0.0 < geometry.native.x ∧ 0.0 < geometry.native.y ∧ geometry.ground.x < 0.0 := by
  intro extent
  have hbounds : Extent.ofBounds 0.0 0.01 90.0 90.008 = .ok extent := by decide +kernel
  have hresolved : ((@resolve polarTrig extent ⟨8, 10⟩ none).outcome.toOption.map
      fun geometry => (geometry.native, geometry.ground)) =
        some (⟨0.001, 0.0009999999999994458⟩, ⟨-0.007797710785358656, 111.69397955356224⟩) := by
    decide +kernel
  obtain ⟨geometry, hgeometry, hview⟩ := exists_ok_of_map hresolved
  obtain ⟨hnative, hground⟩ := Prod.mk.inj hview
  refine ⟨hbounds, geometry, hgeometry, ?_⟩
  rw [hnative, hground]
  decide

end Geometry

end Relief
