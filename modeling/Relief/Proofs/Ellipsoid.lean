import Relief.Ellipsoid
import Relief.Proofs.Binary.Bounds
import Relief.Proofs.Binary.Opposite

namespace Relief

open Binary

/-- The greatest binary64 below a quarter turn, in radians. -/
def quarterTurn : Float := 1.5707963267948966

/-- What is relied on of the elementary functions. The cosine of the greatest binary64 below a
quarter turn is about `6e-17`, and those of the next ones are negative. -/
structure SoundTrig [Trig Float] : Prop where
  pi_eq : (Trig.pi : Float) = 3.141592653589793
  sin_range : ∀ φ : Float, φ.isFinite = true → -1.0 ≤ Trig.sin φ ∧ Trig.sin φ ≤ 1.0
  cos_upright : ∀ φ : Float, magnitude φ ≤ quarterTurn → 1.0e-17 ≤ Trig.cos φ ∧ Trig.cos φ ≤ 1.0
  cos_overhang : ∀ φ : Float, quarterTurn < magnitude φ → magnitude φ ≤ 1.58 →
    -1.0 ≤ Trig.cos φ ∧ Trig.cos φ ≤ 0.0
  sqrt_range : ∀ x : Float, 0.0 ≤ x → x ≤ 1.0 → x ≤ Trig.sqrt x ∧ Trig.sqrt x ≤ 1.0

section Angles

variable {x y c : Float}

theorem abs_number_le (hc : c.isFinite = true) (h : magnitude c ≤ 90.01) : |number c| ≤ 128 := by
  have hbits : (128.0 : Float).toModel.unpack =
      .finite .positive 4503599627370496 (-45) (by decide) := rfl
  obtain ⟨hf, hm⟩ := number_magnitude hc
  have hle : magnitude c ≤ 128.0 := trans_le h (by decide)
  rw [le_iff_number hf (by decide), hm, number_of_unpack hbits] at hle
  norm_num at hle
  exact hle

theorem next_le_of_pole_lt (hx : x.isFinite = true) (h : 90.0 < x) : 90.00000000000001 ≤ x := by
  have hbits : (90.0 : Float).toModel.unpack =
      .finite .positive 6333186975989760 (-46) (by decide) := rfl
  have hbits' : (90.00000000000001 : Float).toModel.unpack =
      .finite .positive 6333186975989761 (-46) (by decide) := rfl
  have hpole : number 90.0 = 90 := by
    rw [number_of_unpack hbits]
    norm_num
  have hlt := (lt_iff_number (by decide) hx).1 h
  have hscale : 2 ^ (-46 + 52 : ℤ) ≤ |number 90.0| := by
    rw [hpole]
    norm_num
  have hscale' : 2 ^ (-46 + 52 : ℤ) ≤ |number x| :=
    hscale.trans (abs_le_abs_of_nonneg (by rw [hpole]; norm_num) hlt.le)
  have hgap := zpow_le_sub (exists_units_of_le (representable_number _) hscale)
    (exists_units_of_le (representable_number _) hscale') hlt
  rw [le_iff_number (by decide) hx, number_of_unpack hbits']
  rw [hpole] at hgap
  norm_num at hgap ⊢
  linarith

theorem between_radiansPerDegree :
    Between (2 ^ (-6 : ℤ)) (2 ^ (-5 : ℤ)) (3.141592653589793 / 180.0) := by
  have h : (3.141592653589793 / 180.0 : Float) = 0.017453292519943295 := by decide
  have hbits : (0.017453292519943295 : Float).toModel.unpack =
      .finite .positive 5030569068109113 (-58) (by decide) := rfl
  rw [h]
  exact between_of_unpack hbits (by decide) (by decide)

variable [Trig Float] (ht : SoundTrig)
include ht

theorem between_perDegree : Between (2 ^ (-6 : ℤ)) (2 ^ (-5 : ℤ)) (Trig.pi / 180.0) := by
  rw [ht.pi_eq]
  exact between_radiansPerDegree

theorem isFinite_toRadians (hc : c.isFinite = true) (h : |number c| ≤ 128) :
    (toRadians c).isFinite = true := by
  have hk := between_perDegree ht
  have hbound : Exact (2 ^ (7 : ℤ)) := exact_zpow (by decide) (by decide)
  have hk1 : number (Trig.pi / 180.0) ≤ 1 := hk.le_hi.trans (by norm_num)
  rw [abs_le] at h
  have h0 := hk.pos
  exact (between_mul hc hk.isFinite hbound.neg hbound (by norm_num; nlinarith)
    (by norm_num; nlinarith)).isFinite

theorem number_toRadians_magnitude (hc : c.isFinite = true) (h : |number c| ≤ 128) :
    number (toRadians (magnitude c)) = |number (toRadians c)| := by
  obtain ⟨hfm, hm⟩ := number_magnitude hc
  have hk := between_perDegree ht
  have hv : value (toRadians c) = _ := (value_mul hc hk.isFinite).2
  have hv' : value (toRadians (magnitude c)) = _ := (value_mul hfm hk.isFinite).2
  rw [value_of_isFinite (isFinite_toRadians ht hc h)] at hv
  rw [value_of_isFinite (isFinite_toRadians ht hfm (by rwa [hm, abs_abs])), hm,
    ← abs_of_pos hk.pos, ← abs_mul, delivered_abs hv.symm] at hv'
  exact EReal.coe_eq_coe_iff.1 hv'

theorem toRadians_mono (h : x ≤ y) (hx : x.isFinite = true) (hy : y.isFinite = true) :
    toRadians x ≤ toRadians y := by
  have hk := between_perDegree ht
  exact mul_mono h hx hy hk.isFinite hk.pos.le

theorem toRadians_magnitude (hc : c.isFinite = true) (h : |number c| ≤ 128) :
    magnitude (toRadians c) ≤ toRadians (magnitude c) ∧
      toRadians (magnitude c) ≤ magnitude (toRadians c) := by
  obtain ⟨hfm, hm⟩ := number_magnitude hc
  obtain ⟨hfr, hr⟩ := number_magnitude (isFinite_toRadians ht hc h)
  have hft := isFinite_toRadians ht hfm (by rwa [hm, abs_abs])
  rw [← number_toRadians_magnitude ht hc h] at hr
  rw [le_iff_number hfr hft, le_iff_number hft hfr, hr]
  exact ⟨le_rfl, le_rfl⟩

theorem magnitude_toRadians (hc : c.isFinite = true) (h : magnitude c ≤ 90.01) :
    (magnitude c ≤ 90.0 → magnitude (toRadians c) ≤ quarterTurn) ∧
      (90.0 < magnitude c →
        quarterTurn < magnitude (toRadians c) ∧ magnitude (toRadians c) ≤ 1.58) := by
  have hfm := (number_magnitude hc).1
  obtain ⟨hle, hge⟩ := toRadians_magnitude ht hc (abs_number_le hc h)
  have hmono {a b : Float} : a ≤ b → a.isFinite = true → b.isFinite = true →
      toRadians a ≤ toRadians b := toRadians_mono ht
  have hpole : toRadians (90.0 : Float) = quarterTurn := by
    rw [toRadians, ht.pi_eq]
    decide
  have hbeyond : quarterTurn < toRadians (90.00000000000001 : Float) := by
    rw [toRadians, ht.pi_eq]
    decide
  have hedge : toRadians (90.01 : Float) ≤ 1.58 := by
    rw [toRadians, ht.pi_eq]
    decide
  refine ⟨fun h90 => ?_, fun h90 => ⟨?_, ?_⟩⟩
  · rw [← hpole]
    exact trans_le hle (hmono h90 hfm (by decide))
  · have hnext := hmono (next_le_of_pole_lt hfm h90) (by decide) hfm
    exact trans_lt_le hbeyond (trans_le hnext hge)
  · exact trans_le hle (trans_le (hmono h hfm (by decide)) hedge)

theorem between_cos_upright (hc : c.isFinite = true) (h : magnitude c ≤ 90.0) :
    Between (2 ^ (-57 : ℤ)) (2 ^ (0 : ℤ)) (Trig.cos (toRadians c)) := by
  have hedge : magnitude c ≤ 90.01 := trans_le h (by decide)
  obtain ⟨hlo, hhi⟩ := ht.cos_upright _ ((magnitude_toRadians ht hc hedge).1 h)
  have hbits : (1.0e-17 : Float).toModel.unpack =
      .finite .positive 6490371073168535 (-109) (by decide) := rfl
  have hleast := between_of_unpack hbits (by decide) (by decide)
  obtain ⟨hf, hone⟩ := number_one
  refine (between_number hlo hhi hleast.isFinite hf).mono hleast.lo_le ?_
  rw [hone, zpow_zero]

theorem between_cos_overhang (hc : c.isFinite = true) (h : 90.0 < magnitude c)
    (hedge : magnitude c ≤ 90.01) : Between (-1) 0 (Trig.cos (toRadians c)) := by
  obtain ⟨hlo, hhi⟩ := (magnitude_toRadians ht hc hedge).2 h
  obtain ⟨hcos, hcos'⟩ := ht.cos_overhang _ hlo hhi
  obtain ⟨hf, hone⟩ := number_one
  have hbetween := between_number hcos hcos' (isFinite_neg hf) isFinite_zero
  rwa [number_neg, hone, number_zero] at hbetween

end Angles

namespace Ellipsoid

variable {s w φ : Float}

theorem between_semiMajor : Between (2 ^ (22 : ℤ)) (2 ^ (23 : ℤ)) semiMajor := by
  have h : (semiMajor : Float).toModel.unpack =
      .finite .positive 6848472456101888 (-30) (by decide) := rfl
  exact between_of_unpack h (by decide) (by decide)

theorem between_eccentricity2 : Between (2 ^ (-8 : ℤ)) (2 ^ (-7 : ℤ)) eccentricity2 := by
  have h : (eccentricity2 : Float).toModel.unpack =
      .finite .positive 7718094650642178 (-60) (by decide) := rfl
  exact between_of_unpack h (by decide) (by decide)

theorem between_one_sub (h : Between 0 (2 ^ (-7 : ℤ)) s) :
    Between (2 ^ (-1 : ℤ)) (2 ^ (0 : ℤ)) (1.0 - s) := by
  obtain ⟨hf, hlo, hhi⟩ := h
  obtain ⟨hf1, hone⟩ := number_one
  refine between_sub hf1 hf (exact_zpow (by decide) (by decide))
    (exact_zpow (by decide) (by decide)) ?_ ?_
  · rw [hone]
    norm_num at hhi ⊢
    linarith
  · rw [hone, zpow_zero]
    linarith

theorem between_eccentricity2_mul_mul (hs : Between (-1) 1 s) :
    Between 0 (2 ^ (-7 : ℤ)) (eccentricity2 * s * s) := by
  obtain ⟨hfs, hs1, hs2⟩ := hs
  have hE : Exact (2 ^ (-7 : ℤ)) := exact_zpow (by decide) (by decide)
  have he0 := between_eccentricity2.pos.le
  have he1 := between_eccentricity2.le_hi
  have hfe := between_eccentricity2.isFinite
  rcases le_total 0 (number s) with h0 | h0
  · have h := between_mul hfe hfs exact_zero hE (mul_nonneg he0 h0)
      ((mul_le_of_le_one_right he0 hs2).trans he1)
    exact between_mul h.isFinite hfs exact_zero hE (mul_nonneg h.lo_le h0)
      ((mul_le_of_le_one_right h.lo_le hs2).trans h.le_hi)
  · have h := between_mul hfe hfs hE.neg exact_zero (by nlinarith)
      (mul_nonpos_of_nonneg_of_nonpos he0 h0)
    exact between_mul h.isFinite hfs exact_zero hE (mul_nonneg_of_nonpos_of_nonpos h.le_hi h0)
      (by nlinarith [h.lo_le, h.le_hi])

section

variable [Trig Float] (ht : SoundTrig)
include ht

theorem between_sqrt (hw : Between (2 ^ (-1 : ℤ)) (2 ^ (0 : ℤ)) w) :
    Between (2 ^ (-1 : ℤ)) (2 ^ (0 : ℤ)) (Trig.sqrt w) := by
  obtain ⟨hf1, hone⟩ := number_one
  have h0 : 0.0 ≤ w := by
    rw [le_iff_number isFinite_zero hw.isFinite, number_zero]
    exact hw.pos.le
  have h1 : w ≤ 1.0 := by
    rw [le_iff_number hw.isFinite hf1, hone]
    exact hw.le_hi.trans_eq (zpow_zero 2)
  obtain ⟨hle, hge⟩ := ht.sqrt_range w h0 h1
  exact (between_number hle hge hw.isFinite hf1).mono hw.lo_le (hone.trans (zpow_zero 2).symm).le

theorem between_flattening (hφ : φ.isFinite = true) :
    Between (2 ^ (-1 : ℤ)) (2 ^ (0 : ℤ)) (1.0 - eccentricity2 * Trig.sin φ * Trig.sin φ) := by
  obtain ⟨hlo, hhi⟩ := ht.sin_range φ hφ
  exact between_one_sub (between_eccentricity2_mul_mul (between_one hlo hhi))

theorem between_primeVertical (hφ : φ.isFinite = true) :
    Between (2 ^ (22 : ℤ)) (2 ^ (24 : ℤ))
      (semiMajor / Trig.sqrt (1.0 - eccentricity2 * Trig.sin φ * Trig.sin φ)) :=
  between_semiMajor.div_zpow (between_sqrt ht (between_flattening ht hφ)) (by decide) (by decide)

variable {latitude : Float}

theorem between_latitude (hf : latitude.isFinite = true) (h : magnitude latitude ≤ 90.01) :
    Between (2 ^ (15 : ℤ)) (2 ^ (20 : ℤ)) (degreeLengths latitude).2 := by
  have hw := between_flattening ht (isFinite_toRadians ht hf (abs_number_le hf h))
  have he := between_one_sub (between_eccentricity2.mono (by positivity) le_rfl)
  have hdivisor := hw.mul_zpow (between_sqrt ht hw) (by decide) (by decide)
  have hdividend := between_semiMajor.mul_zpow he (by decide) (by decide)
  have hmeridional := hdividend.div_zpow hdivisor (by decide) (by decide)
  exact hmeridional.mul_zpow (between_perDegree ht) (by decide) (by decide)

theorem between_longitude_upright (hf : latitude.isFinite = true)
    (h : magnitude latitude ≤ 90.0) :
    Between (2 ^ (-41 : ℤ)) (2 ^ (19 : ℤ)) (degreeLengths latitude).1 := by
  have hedge : magnitude latitude ≤ 90.01 := trans_le h (by decide)
  have hp := between_primeVertical ht (isFinite_toRadians ht hf (abs_number_le hf hedge))
  have hparallel := hp.mul_zpow (between_cos_upright ht hf h) (by decide) (by decide)
  exact hparallel.mul_zpow (between_perDegree ht) (by decide) (by decide)

/-- Beyond the poles a degree of longitude is not longer than nothing. -/
theorem between_longitude_overhang (hf : latitude.isFinite = true) (h : 90.0 < magnitude latitude)
    (hedge : magnitude latitude ≤ 90.01) :
    Between (-2 ^ (24 : ℤ)) 0 (degreeLengths latitude).1 := by
  have hp := between_primeVertical ht (isFinite_toRadians ht hf (abs_number_le hf hedge))
  have hk := between_perDegree ht
  have hk1 : number (Trig.pi / 180.0) ≤ 1 := hk.le_hi.trans (by norm_num)
  have hbound : Exact (2 ^ (24 : ℤ)) := exact_zpow (by decide) (by decide)
  obtain ⟨hfc, hc0, hc1⟩ := between_cos_overhang ht hf h hedge
  have hparallel := between_mul hp.isFinite hfc hbound.neg exact_zero
    (by nlinarith [hp.pos, hp.le_hi]) (mul_nonpos_of_nonneg_of_nonpos hp.pos.le hc1)
  exact between_mul hparallel.isFinite hk.isFinite hbound.neg exact_zero
    (by nlinarith [hk.pos, hparallel.lo_le, hparallel.le_hi])
    (mul_nonpos_of_nonpos_of_nonneg hparallel.le_hi hk.pos.le)

end

end Ellipsoid

end Relief
