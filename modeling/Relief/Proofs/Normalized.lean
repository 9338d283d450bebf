import Relief.Proofs.Binary.Remainder
import Relief.Proofs.Ellipsoid
import Relief.Proofs.Quadrants

namespace Relief

open Binary

section Wrapping

variable {x m : Float}

theorem wrapped_eq_normalized (x : ℝ) : wrapped x 360 = normalized x := by
  obtain ⟨⟨k, hk⟩, hmem⟩ := wrapped_real (x := x) (m := 360) (by norm_num)
  have hturns : normalized (x - k * 360) = normalized x := by
    have hquotient : (x - k * 360) / 360 = x / 360 - k := by ring
    rw [normalized, normalized, hquotient, Int.fract_sub_intCast]
  rw [← normalized_of_mem hmem, hk, hturns]

theorem number_wrapped (hx : x.isFinite = true) (hm : m.isFinite = true) (h0 : 0 < number m) :
    (wrapped x m).isFinite = true ∧
      number (wrapped x m) = rounded .binary64 (wrapped (number x) (number m)) := by
  obtain ⟨hf, hr⟩ := number_remainder hx hm h0.ne'
  have hsign : remainder x m < 0.0 ↔ Whole.remainder (number x) (number m) < 0.0 := by
    rw [lt_iff_number hf isFinite_zero, hr, number_zero, zero_scientific]
  obtain ⟨-, hlo, hhi⟩ := wrapped_real (x := number x) h0
  rw [wrapped] at hlo hhi
  rw [wrapped, wrapped]
  change (if remainder x m < 0.0 then remainder x m + m else remainder x m).isFinite = true ∧
    number (if remainder x m < 0.0 then remainder x m + m else remainder x m) = _
  by_cases h : remainder x m < 0.0
  · rw [if_pos (hsign.1 h), ← hr] at hlo hhi
    rw [if_pos h, if_pos (hsign.1 h), ← hr]
    exact number_of_delivered exact_zero (exact_number m) hlo hhi.le (value_add_number hf hm)
  · rw [if_neg h, if_neg (mt hsign.2 h), ← hr, (representable_number _).rounded_eq]
    exact ⟨hf, rfl⟩

end Wrapping

/-- What is relied on of the elementary functions: sines and cosines are at most 1 in magnitude, and
angles at most half a turn. -/
structure CircularTrig [Trig Float] : Prop where
  pi_eq : (Trig.pi : Float) = 3.141592653589793
  sin_range : ∀ φ : Float, φ.isFinite = true → -1.0 ≤ Trig.sin φ ∧ Trig.sin φ ≤ 1.0
  cos_range : ∀ φ : Float, φ.isFinite = true → -1.0 ≤ Trig.cos φ ∧ Trig.cos φ ≤ 1.0
  atan2_range : ∀ y x : Float, y.isFinite = true → x.isFinite = true →
    -Trig.pi ≤ Trig.atan2 y x ∧ Trig.atan2 y x ≤ Trig.pi

/-- The angle of the line of a bearing in grid space, in degrees from -180 to 180. -/
def lineAngle [Trig Float] (spacing : Spacing Float) (bearing : Float) : Float :=
  toDegrees (Trig.atan2 (spacing.y * Trig.sin (toRadians bearing))
    (spacing.x * Trig.cos (toRadians bearing)))

section Angles

variable {x c : Float}

theorem number_fullTurn : (360.0 : Float).isFinite = true ∧ number 360.0 = 360 := by
  have hbits : (360.0 : Float).toModel.unpack =
      .finite .positive 6333186975989760 (-44) (by decide) := rfl
  refine ⟨by decide, ?_⟩
  rw [number_of_unpack hbits]
  norm_num

theorem rounded_normalized_mem (x : ℝ) :
    rounded .binary64 (normalized x) ∈ Set.Icc (0 : ℝ) 360 := by
  obtain ⟨hlo, hhi⟩ := normalized_mem x
  have h360 : rounded .binary64 360 = 360 := by
    rw [← number_fullTurn.2]
    exact (representable_number 360.0).rounded_eq
  constructor
  · calc (0 : ℝ)
        = rounded .binary64 0 := rounded_zero.symm
      _ ≤ rounded .binary64 (normalized x) := rounded_mono hlo
  · calc rounded .binary64 (normalized x)
        ≤ rounded .binary64 360 := rounded_mono hhi.le
      _ = 360 := h360

theorem isFinite_mul_of_abs_le {b : ℝ} (hx : x.isFinite = true) (hc : c.isFinite = true)
    (hb : Exact b) (h : |number x * number c| ≤ b) : (x * c).isFinite = true := by
  obtain ⟨hlo, hhi⟩ := abs_le.1 h
  exact (between_mul hx hc hb.neg hb hlo hhi).isFinite

theorem isFinite_mul_of_le_one (hx : x.isFinite = true) (hc : Between (-1) 1 c) :
    (x * c).isFinite = true := by
  have hexact : Exact |number x| := number_abs x ▸ exact_number x.abs
  refine isFinite_mul_of_abs_le hx hc.isFinite hexact ?_
  rw [abs_mul]
  exact mul_le_of_le_one_right (abs_nonneg _) (abs_le.2 ⟨hc.lo_le, hc.le_hi⟩)

theorem between_degreesPerRadian :
    Between (2 ^ (5 : ℤ)) (2 ^ (6 : ℤ)) (180.0 / 3.141592653589793) := by
  have h : (180.0 / 3.141592653589793 : Float) = 57.29577951308232 := by decide +kernel
  have hbits : (57.29577951308232 : Float).toModel.unpack =
      .finite .positive 8063664102031864 (-47) (by decide) := rfl
  rw [h]
  exact between_of_unpack hbits (by decide) (by decide)

variable [Trig Float] (ht : CircularTrig)
include ht

theorem isFinite_lineAngle {spacing : Spacing Float} {bearing : Float}
    (hb : bearing.isFinite = true) (hx : spacing.x.isFinite = true)
    (hy : spacing.y.isFinite = true) : (lineAngle spacing bearing).isFinite = true := by
  have hradians : (toRadians bearing).isFinite = true := by
    have hk : Between (-1) 1 (3.141592653589793 / 180.0) :=
      between_radiansPerDegree.mono (by norm_num) (by norm_num)
    rw [toRadians, ht.pi_eq]
    exact isFinite_mul_of_le_one hb hk
  have hsin := ht.sin_range _ hradians
  have hcos := ht.cos_range _ hradians
  have hangle := ht.atan2_range _ _
    (isFinite_mul_of_le_one hy (between_one hsin.1 hsin.2))
    (isFinite_mul_of_le_one hx (between_one hcos.1 hcos.2))
  rw [lineAngle, toDegrees]
  generalize Trig.atan2 (spacing.y * Trig.sin (toRadians bearing))
    (spacing.x * Trig.cos (toRadians bearing)) = angle at *
  rw [ht.pi_eq] at hangle ⊢
  have hpi : (3.141592653589793 : Float).toModel.unpack =
      .finite .positive 7074237752028440 (-51) (by decide) := rfl
  have hnear : Between (-4) 4 angle := by
    have h := between_number hangle.1 hangle.2 (by decide) (by decide)
    rw [number_neg, number_of_unpack hpi] at h
    exact h.mono (by norm_num) (by norm_num)
  have hk : |number (180.0 / 3.141592653589793)| ≤ 2 ^ (6 : ℤ) := by
    rw [abs_of_pos between_degreesPerRadian.pos]
    exact between_degreesPerRadian.le_hi
  refine isFinite_mul_of_abs_le hnear.isFinite between_degreesPerRadian.isFinite
    (exact_zpow (k := 8) (by decide) (by decide)) ?_
  calc |number angle * number (180.0 / 3.141592653589793)|
      = |number angle| * |number (180.0 / 3.141592653589793)| := abs_mul _ _
    _ ≤ 4 * 2 ^ (6 : ℤ) := by
        gcongr
        exact abs_le.2 ⟨hnear.lo_le, hnear.le_hi⟩
    _ = 2 ^ (8 : ℤ) := by norm_num

end Angles

section Bearings

variable [Trig Float] {spacing : Spacing Float} {bearing : Float}

theorem number_gridBearing (h : (lineAngle spacing bearing).isFinite = true) :
    let nearest := rounded .binary64 (normalized (number (lineAngle spacing bearing)))
    (gridBearing spacing bearing).isFinite = true ∧
      number (gridBearing spacing bearing) = if nearest = 360 then 0 else nearest := by
  intro nearest
  obtain ⟨hf, hturn⟩ := number_fullTurn
  obtain ⟨hwf, hw⟩ := number_wrapped h hf (by rw [hturn]; norm_num)
  rw [hturn, wrapped_eq_normalized] at hw
  have hhi : nearest ≤ 360 := (rounded_normalized_mem _).2
  have hcut : gridBearing spacing bearing =
      if 360.0 ≤ wrapped (lineAngle spacing bearing) 360.0 then 0.0
      else wrapped (lineAngle spacing bearing) 360.0 := rfl
  rw [hcut]
  generalize wrapped (lineAngle spacing bearing) 360.0 = w at *
  have hup : 360.0 ≤ w ↔ nearest = 360 := by
    rw [le_iff_number hf hwf, hturn, hw]
    exact ⟨fun hle => le_antisymm hhi hle, Eq.ge⟩
  by_cases h360 : nearest = 360
  · rw [if_pos (hup.2 h360), if_pos h360]
    exact ⟨isFinite_zero, number_zero⟩
  · rw [if_neg (mt hup.1 h360), if_neg h360]
    exact ⟨hwf, hw⟩

/-- Every bearing in grid space is a number from 0 up to but not including 360: the one nearest to
the angle of the line modulo 360, but 0 where rounding leads up to 360. -/
theorem gridBearing_within_turn (ht : CircularTrig) (spacing : Spacing Float) (bearing : Float)
    (hb : bearing.isFinite = true) (hx : spacing.x.isFinite = true)
    (hy : spacing.y.isFinite = true) :
    let computed := gridBearing spacing bearing
    let angle := lineAngle spacing bearing
    let nearest := rounded .binary64 (normalized (number angle))
    computed.isNaN = false ∧ 0.0 ≤ computed ∧ computed < 360.0 ∧ angle.isFinite = true ∧
      number computed = if nearest = 360 then 0 else nearest := by
  intro computed angle nearest
  have hangle : angle.isFinite = true := isFinite_lineAngle ht hb hx hy
  obtain ⟨hf, hn⟩ : computed.isFinite = true ∧ number computed = _ := number_gridBearing hangle
  obtain ⟨hturn, h360⟩ := number_fullTurn
  obtain ⟨hlo, hhi⟩ : nearest ∈ Set.Icc 0 360 := rounded_normalized_mem _
  refine ⟨isNaN_of_isFinite hf, ?_, ?_, hangle, hn⟩
  · rw [le_iff_number isFinite_zero hf, number_zero, hn]
    split_ifs
    · exact le_rfl
    · exact hlo
  · rw [lt_iff_number hf hturn, h360, hn]
    split_ifs with hcut
    · norm_num
    · exact lt_of_le_of_ne hhi hcut

end Bearings

/-- The elementary functions as far as they are needed within `1e-8` radians of north, where a sine
is the angle, a cosine is 1, and the angle of a line is the ratio of its sides. -/
@[reducible]
def northTrig : Trig Float where
  pi := 3.141592653589793
  sin φ := if -1.0 ≤ φ ∧ φ ≤ 1.0 then φ else 0.0
  cos _ := 1.0
  atan x := x
  atan2 y x := if -1.0 ≤ y / x ∧ y / x ≤ 1.0 then y / x else 0.0
  log x := x
  sqrt x := x
  hypot := hypot

theorem circularTrig_north : @CircularTrig northTrig := by
  refine @CircularTrig.mk northTrig rfl ?_ ?_ ?_
  · intro φ _
    change -1.0 ≤ (if -1.0 ≤ φ ∧ φ ≤ 1.0 then φ else 0.0) ∧
      (if -1.0 ≤ φ ∧ φ ≤ 1.0 then φ else 0.0) ≤ 1.0
    split_ifs with h
    · exact h
    · decide
  · intro φ _
    change -1.0 ≤ (1.0 : Float) ∧ (1.0 : Float) ≤ 1.0
    decide
  · intro y x _ _
    change -3.141592653589793 ≤ (if -1.0 ≤ y / x ∧ y / x ≤ 1.0 then y / x else 0.0) ∧
      (if -1.0 ≤ y / x ∧ y / x ≤ 1.0 then y / x else 0.0) ≤ 3.141592653589793
    split_ifs with h
    · exact ⟨trans_le (by decide) h.1, trans_le h.2 (by decide)⟩
    · decide

/-- A bearing so little west of north that wrapping its angle leads up to 360. -/
theorem gridBearing_within_turn_north :
    letI := northTrig
    let square : Spacing Float := ⟨30.0, 30.0⟩
    let bearing : Float := -1.0e-20
    CircularTrig ∧ bearing.isFinite = true ∧ square.x.isFinite = true ∧
      wrapped (lineAngle square bearing) 360.0 = 360.0 ∧
      gridBearing square bearing < 360.0 ∧ gridBearing square bearing = 0.0 := by
  let : Trig Float := northTrig
  intro square bearing
  have ht : CircularTrig := circularTrig_north
  have hb : bearing.isFinite = true := by decide
  have hs : square.x.isFinite = true := by decide
  obtain ⟨-, -, hlt, -⟩ := gridBearing_within_turn ht square bearing hb hs hs
  exact ⟨ht, hb, hs, by decide +kernel, hlt, by decide +kernel⟩

end Relief
