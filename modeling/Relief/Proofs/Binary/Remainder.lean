import Relief.Proofs.Binary.Bounds
import Relief.Proofs.Exact

namespace Relief.Binary

open Float.Model Float.Model.UnpackedFloat

section Reals

variable {a b : ℝ}

theorem toInt_neg (t : ℝ) : Whole.toInt (-t) = -Whole.toInt t := by
  change (if -t < 0 then ⌈-t⌉ else ⌊-t⌋) = -(if t < 0 then ⌈t⌉ else ⌊t⌋)
  rw [Int.ceil_neg, Int.floor_neg]
  rcases lt_trichotomy t 0 with h | rfl | h
  · rw [if_neg (by linarith), if_pos h]
  · simp
  · rw [if_pos (by linarith), if_neg h.not_gt]

theorem zero_remainder (b : ℝ) : Whole.remainder 0 b = 0 := by
  change (0 : ℝ) - b * (if 0 / b < 0 then ⌈0 / b⌉ else ⌊0 / b⌋ : ℤ) = 0
  simp

theorem remainder_signed (s s' : Sign) (a b : ℝ) :
    Whole.remainder (signed s a) (signed s' b) = signed s (Whole.remainder a b) := by
  have h (x y : ℝ) : Whole.remainder x y = x - y * Whole.toInt (x / y) := rfl
  rw [h, h]
  cases s with
  | negative =>
    cases s' with
    | negative =>
      change -a - -b * Whole.toInt (-a / -b) = -(a - b * Whole.toInt (a / b))
      rw [neg_div_neg_eq]
      ring
    | positive =>
      change -a - b * Whole.toInt (-a / b) = -(a - b * Whole.toInt (a / b))
      rw [neg_div, toInt_neg]
      push_cast
      ring
  | positive =>
    cases s' with
    | negative =>
      change a - -b * Whole.toInt (a / -b) = a - b * Whole.toInt (a / b)
      rw [div_neg, toInt_neg]
      push_cast
      ring
    | positive => rfl

theorem remainder_units {u : ℝ} (hu : 0 < u) (m n : ℕ) :
    Whole.remainder (m * u) (n * u) = (m % n : ℕ) * u := by
  have hquotient : Whole.toInt ((m : ℝ) * u / (n * u)) = (m / n : ℕ) := by
    rw [mul_div_mul_right _ _ hu.ne']
    have h0 : (0 : ℝ) ≤ m / n := by positivity
    change (if (m / n : ℝ) < 0 then ⌈(m / n : ℝ)⌉ else ⌊(m / n : ℝ)⌋) = _
    rw [if_neg (not_lt.2 h0), ← Int.natCast_floor_eq_floor h0, Nat.floor_div_eq_div]
  have hcount : (m : ℝ) = (m % n : ℕ) + n * (m / n : ℕ) := by
    exact_mod_cast (Nat.mod_add_div m n).symm
  change (m : ℝ) * u - n * u * Whole.toInt ((m : ℝ) * u / (n * u)) = _
  rw [hquotient, Int.cast_natCast]
  linear_combination u * hcount

end Reals

section Unpacked

variable {spec : Format} {s s' : Sign} {m n : ℕ} {e f : ℤ} {hm : 0 < m} {hn : 0 < n}

theorem shifted_value {unit : ℤ} (h : unit ≤ e) (m : ℕ) :
    ((m <<< (e - unit).toNat : ℕ) : ℝ) * 2 ^ unit = m * 2 ^ e := by
  have hvalue := decreaseExponent_value m e unit
  rwa [decreaseExponent_exponent, min_eq_right h] at hvalue

/-- The remainder of two values by what their mantissas leave over their common unit. -/
theorem remainder_finite (s s' : Sign) (hm : 0 < m) (hn : 0 < n) (e f : ℤ) :
    let left := (m <<< (e - min e f).toNat) % (n <<< (f - min e f).toNat)
    Whole.remainder (real (.finite s m e hm)) (real (.finite s' n f hn)) =
      signed s (left * 2 ^ min e f) := by
  intro left
  change Whole.remainder (signed s (m * 2 ^ e)) (signed s' (n * 2 ^ f)) = _
  rw [remainder_signed, ← shifted_value (min_le_left e f), ← shifted_value (min_le_right e f),
    remainder_units (by positivity)]

theorem rounds_remainder (s s' : Sign) (hm : 0 < m) (hn : 0 < n) (e f : ℤ) :
    let left := (m <<< (e - min e f).toNat) % (n <<< (f - min e f).toNat)
    Rounds spec (UnpackedFloat.normalize spec (s.apply left) (min e f) s)
      (Whole.remainder (real (.finite s m e hm)) (real (.finite s' n f hn))) := by
  intro left
  have h : Rounds spec _ _ := rounds_normalize (s.apply left) (min e f) s
  rwa [cast_apply, Int.cast_natCast, ← signed_mul, ← remainder_finite s s' hm hn] at h

/-- What is left over is no more than either mantissa over its own unit, and so it is a mantissa. -/
theorem representable_remainder (hu : Canonical spec (.finite s m e hm))
    (hv : Canonical spec (.finite s' n f hn)) :
    Representable spec (Whole.remainder (real (.finite s m e hm)) (real (.finite s' n f hn))) := by
  obtain ⟨hmlt, hmin, -⟩ := hu
  obtain ⟨hnlt, hmin', -⟩ := hv
  obtain ⟨left, hleft⟩ : ∃ left,
      left = (m <<< (e - min e f).toNat) % (n <<< (f - min e f).toNat) := ⟨_, rfl⟩
  have hshift (k : ℕ) : k <<< (0 : ℤ).toNat = k := rfl
  have hlt : left < 2 ^ spec.mantissaBits := by
    rcases le_total e f with hle | hle
    · rw [min_eq_left hle, sub_self, hshift] at hleft
      exact hleft ▸ (Nat.mod_le _ _).trans_lt hmlt
    · rw [min_eq_right hle, sub_self, hshift] at hleft
      exact hleft ▸ (Nat.mod_lt _ hn).trans hnlt
  have hr : Representable spec ((left : ℝ) * 2 ^ min e f) := by
    refine ⟨left, min e f, ?_, le_min hmin hmin', by push_cast; ring⟩
    rw [Nat.abs_cast]
    exact_mod_cast hlt
  rw [remainder_finite, ← hleft]
  cases s with
  | negative => exact hr.neg
  | positive => exact hr

theorem abs_remainder_le (s s' : Sign) (hm : 0 < m) (hn : 0 < n) (e f : ℤ) :
    |Whole.remainder (real (.finite s m e hm)) (real (.finite s' n f hn))| ≤
      |real (.finite s m e hm)| := by
  have habs (x : ℝ) : |signed s x| = |x| := by
    cases s with
    | negative => exact abs_neg x
    | positive => rfl
  have hvalue : |real (.finite s m e hm)| = |(m : ℝ) * 2 ^ e| := habs _
  rw [remainder_finite, habs, hvalue, ← shifted_value (min_le_left e f),
    abs_of_nonneg (by positivity), abs_of_nonneg (by positivity)]
  gcongr
  exact Nat.mod_le _ _

end Unpacked

section Numbers

variable {x y : Float}

theorem packed_of_rounds {u : UnpackedFloat} {r : ℝ} (h : Rounds .binary64 u r)
    (hr : Representable .binary64 r) (hlt : |r| < limit .binary64) :
    (Float.ofModel (.pack u)).isFinite = true ∧ number (Float.ofModel (.pack u)) = r := by
  obtain ⟨hn, hv⟩ := h.delivers (by decide)
  rw [delivered_representable hr hlt] at hv
  exact isFinite_of_value_eq hn hv

theorem number_remainder (hx : x.isFinite = true) (hy : y.isFinite = true) (h0 : number y ≠ 0) :
    (remainder x y).isFinite = true ∧
      number (remainder x y) = Whole.remainder (number x) (number y) := by
  have hlimit := abs_real_lt_limit (by decide) (canonical_toModel x) (inRange_toModel x)
  have hcx := canonical_toModel x
  have hcy := canonical_toModel y
  change x.toModel.unpack.isFinite = true at hx
  change y.toModel.unpack.isFinite = true at hy
  unfold number at h0 ⊢
  unfold remainder
  generalize x.toModel.unpack = u at *
  generalize y.toModel.unpack = v at *
  cases v with
  | infinity s => cases hy
  | notANumber => cases hy
  | zero s => exact absurd rfl h0
  | finite s' n f hn =>
    cases u with
    | infinity s => cases hx
    | notANumber => cases hx
    | zero s =>
      have hnone : Whole.remainder (real (.zero s)) (real (.finite s' n f hn)) = 0 :=
        zero_remainder _
      rw [hnone]
      exact packed_of_rounds (rounds_zero s) .zero (abs_zero.trans_lt (limit_pos _))
    | finite s m e hm =>
      exact packed_of_rounds (rounds_remainder s s' hm hn e f) (representable_remainder hcx hcy)
        ((abs_remainder_le s s' hm hn e f).trans_lt hlimit)

end Numbers

end Relief.Binary
