import Relief.Sun
import Relief.Proofs.Exact

namespace Relief

open Real

noncomputable instance realTrig : Trig ℝ where
  pi := π
  sin := Real.sin
  cos := Real.cos
  atan := Real.arctan
  atan2 y x := Complex.arg ⟨x, y⟩
  log := Real.log
  sqrt := Real.sqrt
  hypot x y := √(x ^ 2 + y ^ 2)

theorem toRadians_real (degrees : ℝ) : toRadians degrees = degrees * (π / 180) := by
  have h : (180.0 : ℝ) = 180 := by norm_num
  rw [toRadians, h]
  rfl

theorem toRadians_toDegrees (radians : ℝ) : toRadians (toDegrees radians) = radians := by
  have h : (180.0 : ℝ) = 180 := by norm_num
  rw [toRadians_real, toDegrees, h]
  change radians * (180 / π) * (π / 180) = radians
  field_simp

theorem remainder_real {x m : ℝ} (hm : 0 < m) :
    (∃ k : ℤ, Whole.remainder x m = x - k * m) ∧
      -m < Whole.remainder x m ∧ Whole.remainder x m < m := by
  change (∃ k : ℤ, x - m * (if x / m < 0 then ⌈x / m⌉ else ⌊x / m⌋ : ℤ) = x - k * m) ∧
    -m < x - m * (if x / m < 0 then ⌈x / m⌉ else ⌊x / m⌋ : ℤ) ∧
    x - m * (if x / m < 0 then ⌈x / m⌉ else ⌊x / m⌋ : ℤ) < m
  obtain ⟨q, rfl⟩ : ∃ q, x = m * q := ⟨x / m, by field_simp⟩
  rw [mul_div_cancel_left₀ q hm.ne']
  have hcut (k : ℤ) (h : |q - k| < 1) : -m < m * q - m * k ∧ m * q - m * k < m := by
    rw [abs_lt] at h
    rw [← mul_sub]
    constructor <;> nlinarith
  refine ⟨⟨_, by rw [mul_comm m (Int.cast _)]⟩, hcut _ ?_⟩
  split_ifs with h
  · rw [abs_sub_comm, abs_lt]
    constructor <;> linarith [Int.le_ceil q, Int.ceil_lt_add_one q]
  · rw [abs_lt]
    constructor <;> linarith [Int.floor_le q, Int.lt_floor_add_one q]

theorem wrapped_real {x m : ℝ} (hm : 0 < m) :
    (∃ k : ℤ, wrapped x m = x - k * m) ∧ 0 ≤ wrapped x m ∧ wrapped x m < m := by
  obtain ⟨⟨k, hk⟩, hlo, hhi⟩ := remainder_real (x := x) hm
  rw [wrapped, zero_scientific]
  split_ifs with h
  · refine ⟨⟨k - 1, ?_⟩, by linarith, by linarith⟩
    rw [hk]
    push_cast
    ring
  · exact ⟨⟨k, hk⟩, not_lt.1 h, hhi⟩

section

variable (spacing : Spacing ℝ) (bearing : ℝ)

/-- The line of a bearing in grid space, as long as it happens to be: columns to the right, rows up.
-/
noncomputable def gridLine : ℂ :=
  ⟨spacing.x * Real.cos (toRadians bearing), spacing.y * Real.sin (toRadians bearing)⟩

theorem gridBearing_eq_wrapped :
    gridBearing spacing bearing = wrapped (toDegrees (gridLine spacing bearing).arg) 360 := by
  have h360 : (360.0 : ℝ) = 360 := by norm_num
  have hlt := (wrapped_real (x := toDegrees (gridLine spacing bearing).arg) (m := 360)
    (by norm_num)).2.2
  rw [gridBearing, h360, if_neg]
  · rfl
  · exact not_le.2 hlt

theorem gridBearing_eq : ∃ k : ℤ,
    toRadians (gridBearing spacing bearing) = (gridLine spacing bearing).arg - k * (2 * π) := by
  obtain ⟨⟨k, hk⟩, -⟩ :=
    wrapped_real (x := toDegrees (gridLine spacing bearing).arg) (m := 360) (by norm_num)
  refine ⟨k, ?_⟩
  rw [gridBearing_eq_wrapped, hk, toRadians_real, sub_mul, ← toRadians_real, toRadians_toDegrees]
  ring

end

variable {spacing : Spacing ℝ} {bearing : ℝ}

theorem norm_gridLine (hx : 0 < spacing.x) (hy : 0 < spacing.y) :
    0 < ‖gridLine spacing bearing‖ := by
  rw [norm_pos_iff]
  intro h
  obtain ⟨hre, him⟩ := Complex.ext_iff.1 h
  have hsq := Real.sin_sq_add_cos_sq (toRadians bearing)
  have hcos : Real.cos (toRadians bearing) = 0 := (mul_eq_zero.1 hre).resolve_left hx.ne'
  have hsin : Real.sin (toRadians bearing) = 0 := (mul_eq_zero.1 him).resolve_left hy.ne'
  rw [hsin, hcos] at hsq
  norm_num at hsq

theorem Spacing.length_real {dx dy r θ : ℝ} (hr : 0 ≤ r) (hdx : spacing.x * dx = r * Real.sin θ)
    (hdy : (spacing.y * dy) ^ 2 = (r * Real.cos θ) ^ 2) : spacing.length dx dy = r := by
  change √((spacing.x * dx) ^ 2 + (spacing.y * dy) ^ 2) = r
  rw [hdx, hdy, mul_pow, mul_pow, ← mul_add, Real.sin_sq_add_cos_sq, mul_one, Real.sqrt_sq hr]

theorem Direction.ofBearing_real (hx : 0 < spacing.x) (hy : 0 < spacing.y) :
    let reach := ‖gridLine spacing bearing‖
    let direction := Direction.ofBearing spacing bearing
    direction.dx = spacing.y * Real.sin (toRadians bearing) / reach ∧
      direction.dy = -(spacing.x * Real.cos (toRadians bearing) / reach) ∧
      direction.groundStep = spacing.x * spacing.y / reach := by
  intro reach direction
  have hreach : 0 < reach := norm_gridLine hx hy
  obtain ⟨k, hk⟩ := gridBearing_eq spacing bearing
  have hdx : direction.dx = spacing.y * Real.sin (toRadians bearing) / reach := by
    change Real.sin (toRadians (gridBearing spacing bearing)) = _
    rw [hk, Real.sin_sub_int_mul_two_pi, Complex.sin_arg]
    rfl
  have hdy : direction.dy = -(spacing.x * Real.cos (toRadians bearing) / reach) := by
    change -Real.cos (toRadians (gridBearing spacing bearing)) = _
    rw [hk, Real.cos_sub_int_mul_two_pi, Complex.cos_arg (norm_pos_iff.1 hreach)]
    rfl
  refine ⟨hdx, hdy, Spacing.length_real (θ := toRadians bearing) (by positivity) ?_ ?_⟩
  · change spacing.x * direction.dx = _
    rw [hdx]
    ring
  · change (spacing.y * direction.dy) ^ 2 = _
    rw [hdy]
    ring

theorem Direction.ofBearing_wrapped (spacing : Spacing ℝ) (bearing : ℝ) :
    Direction.ofBearing spacing (wrapped bearing 360.0) = Direction.ofBearing spacing bearing := by
  have h360 : (360.0 : ℝ) = 360 := by norm_num
  obtain ⟨⟨k, hk⟩, -⟩ := wrapped_real (x := bearing) (m := 360) (by norm_num)
  have hturn : toRadians (wrapped bearing 360) = toRadians bearing - k * (2 * π) := by
    rw [hk, toRadians_real, toRadians_real]
    ring
  have hline : gridLine spacing (wrapped bearing 360) = gridLine spacing bearing := by
    rw [gridLine, gridLine, hturn, Real.cos_sub_int_mul_two_pi, Real.sin_sub_int_mul_two_pi]
  have hsame : gridBearing spacing (wrapped bearing 360) = gridBearing spacing bearing := by
    rw [gridBearing_eq_wrapped, gridBearing_eq_wrapped, hline]
  rw [h360, Direction.ofBearing, Direction.ofBearing, hsame]

theorem Sun.ofPosition_real (spacing : Spacing ℝ) (bearing elevation : ℝ) :
    let direction := Direction.ofBearing spacing bearing
    let height := toRadians elevation
    let sun := Sun.ofPosition spacing bearing elevation
    sun.x = direction.dx * Real.cos height ∧ sun.y = direction.dy * Real.cos height ∧
      sun.z = direction.groundStep * Real.sin height := by
  intro direction height sun
  have hsun : sun = ⟨⟨direction.dx * Real.cos height, direction.dy * Real.cos height⟩,
      Real.sin height * direction.groundStep⟩ := by
    change Sun.ofPosition spacing bearing elevation = _
    rw [Sun.ofPosition, Direction.ofBearing_wrapped]
    rfl
  rw [hsun]
  exact ⟨rfl, rfl, mul_comm _ _⟩

theorem arg_polar {r θ : ℝ} (hr : 0 < r) (hθ : θ ∈ Set.Ioc (-π) π) :
    Complex.arg ⟨r * Real.cos θ, r * Real.sin θ⟩ = θ := by
  have hpoint : (⟨r * Real.cos θ, r * Real.sin θ⟩ : ℂ) =
      r * (Complex.cos θ + Complex.sin θ * Complex.I) := by
    apply Complex.ext
    · simp [Complex.cos_ofReal_re, Complex.sin_ofReal_im]
    · simp [Complex.sin_ofReal_re, Complex.cos_ofReal_im]
  rw [hpoint, Complex.arg_mul_cos_add_sin_mul_I hr hθ]

def Spacing.onGround (spacing : Spacing ℝ) (dx dy : ℝ) : ℝ × ℝ :=
  (spacing.x * dx, -(spacing.y * dy))

/-- The way that a compass bearing in degrees points, east and north. -/
noncomputable def compass (bearing : ℝ) : ℝ × ℝ :=
  (Real.sin (toRadians bearing), Real.cos (toRadians bearing))

/-- Rays run true on the ground, whatever the shape of the cells. A step along a bearing leads that
way by its ground length, and a step toward the sun climbs at the elevation of the sun over its
azimuth. -/
theorem ray_follows_sun (spacing : Spacing ℝ) (bearing elevation : ℝ) (hx : 0 < spacing.x)
    (hy : 0 < spacing.y) :
    let direction := Direction.ofBearing spacing bearing
    let height := toRadians elevation
    let sun := Sun.ofPosition spacing bearing elevation
    0 < direction.groundStep ∧
    spacing.onGround direction.dx direction.dy = direction.groundStep • compass bearing ∧
    spacing.onGround sun.x sun.y = (direction.groundStep * Real.cos height) • compass bearing ∧
    sun.z = direction.groundStep * Real.sin height ∧
    (0 ≤ elevation → elevation ≤ 90 →
      Trig.atan2 sun.z (spacing.length sun.x sun.y) = height) := by
  intro direction height sun
  obtain ⟨hdx, hdy, hstep⟩ : direction.dx = _ ∧ direction.dy = _ ∧ direction.groundStep = _ :=
    Direction.ofBearing_real hx hy
  obtain ⟨hsx, hsy, hsz⟩ : sun.x = _ ∧ sun.y = _ ∧ sun.z = _ :=
    Sun.ofPosition_real spacing bearing elevation
  have hpos : 0 < direction.groundStep := by
    rw [hstep]
    exact div_pos (mul_pos hx hy) (norm_gridLine hx hy)
  have heast : spacing.x * direction.dx =
      direction.groundStep * Real.sin (toRadians bearing) := by
    rw [hdx, hstep]
    ring
  have hnorth : -(spacing.y * direction.dy) =
      direction.groundStep * Real.cos (toRadians bearing) := by
    rw [hdy, hstep]
    ring
  have heast' : spacing.x * sun.x =
      direction.groundStep * Real.cos height * Real.sin (toRadians bearing) := by
    rw [hsx, ← mul_assoc, heast]
    ring
  have hnorth' : -(spacing.y * sun.y) =
      direction.groundStep * Real.cos height * Real.cos (toRadians bearing) := by
    rw [hsy, ← mul_assoc, ← neg_mul, hnorth]
    ring
  refine ⟨hpos, Prod.ext heast hnorth, Prod.ext heast' hnorth', hsz, fun h0 h90 => ?_⟩
  have hheight : 0 ≤ height ∧ height ≤ π / 2 := by
    change 0 ≤ toRadians elevation ∧ toRadians elevation ≤ π / 2
    rw [toRadians_real]
    constructor <;> nlinarith [Real.pi_pos]
  have hcos : 0 ≤ Real.cos height :=
    Real.cos_nonneg_of_mem_Icc ⟨by linarith [Real.pi_pos], hheight.2⟩
  have hlength : spacing.length sun.x sun.y = direction.groundStep * Real.cos height :=
    Spacing.length_real (mul_nonneg hpos.le hcos) heast' (by rw [← neg_sq, hnorth'])
  rw [hlength, hsz]
  exact arg_polar hpos ⟨by linarith [Real.pi_pos], by linarith [Real.pi_pos]⟩

/-- Cells twice as wide as tall, a bearing to the south-west and a sun at 30 degrees. -/
theorem ray_follows_sun_southwest :
    let spacing : Spacing ℝ := ⟨2, 1⟩
    let direction := Direction.ofBearing spacing 225
    let sun := Sun.ofPosition spacing 225 30
    0 < spacing.x ∧ 0 < spacing.y ∧ 0 < direction.groundStep ∧ sun.z = direction.groundStep / 2 ∧
      spacing.onGround direction.dx direction.dy =
        direction.groundStep • (-(√2 / 2), -(√2 / 2)) := by
  intro spacing direction sun
  have hx : 0 < spacing.x := two_pos
  have hy : 0 < spacing.y := one_pos
  obtain ⟨hpos, hline, -, hrise, -⟩ := ray_follows_sun spacing 225 30 hx hy
  have hheight : toRadians (30 : ℝ) = π / 6 := by
    rw [toRadians_real]
    ring
  have hcompass : compass 225 = (-(√2 / 2), -(√2 / 2)) := by
    have h : toRadians (225 : ℝ) = π / 4 + π := by
      rw [toRadians_real]
      ring
    rw [compass, h, Real.sin_add_pi, Real.cos_add_pi, Real.sin_pi_div_four, Real.cos_pi_div_four]
  rw [hcompass] at hline
  rw [hheight, Real.sin_pi_div_six] at hrise
  exact ⟨hx, hy, hpos, hrise.trans (mul_one_div _ _), hline⟩

end Relief
