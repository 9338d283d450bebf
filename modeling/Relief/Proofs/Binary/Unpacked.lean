import Relief.Proofs.Binary.Rounding

namespace Relief.Binary

open Float.Model Float.Model.UnpackedFloat

variable {spec : Format}

theorem rounded_signed (s : Sign) (x : ℝ) :
    rounded spec (signed s x) = signed s (rounded spec x) := by
  cases s with
  | negative => exact rounded_neg x
  | positive => rfl

/-- Finite values have the least exponent that the mantissa allows. -/
def Canonical (spec : Format) : UnpackedFloat → Prop
  | .finite _ m e _ => m < 2 ^ spec.mantissaBits ∧ spec.minExponent ≤ e ∧
      (2 ^ spec.mantissaBitsWithoutImplicit ≤ m ∨ e = spec.minExponent)
  | _ => True

/-- The value is the rounded number, in canonical form. -/
structure Rounds (spec : Format) (u : UnpackedFloat) (x : ℝ) : Prop where
  isFinite : u.isFinite = true
  canonical : Canonical spec u
  real_eq : real u = rounded spec x

theorem Canonical.representable {u : UnpackedFloat} (h : Canonical spec u) :
    Representable spec (real u) := by
  cases u with
  | finite s m e hm =>
    have hr : Representable spec ((m : ℝ) * 2 ^ e) := by
      refine ⟨m, e, ?_, h.2.1, by push_cast; ring⟩
      rw [Nat.abs_cast]
      exact_mod_cast h.1
    cases s with
    | negative => exact hr.neg
    | positive => exact hr
  | infinity => exact .zero
  | notANumber => exact .zero
  | zero => exact .zero

/-- What a mantissa and its residual bits tell of a number counted in units of the last place. -/
inductive Holds (m : ExtendedMantissa) (t : ℝ) : Prop
  | intro (δ : ℝ) (nonneg : 0 ≤ δ) (lt_half : δ < 1 / 2) (sticky : m.stickyBit = true ↔ δ ≠ 0)
      (eq : t = m.mantissa + (if m.roundBit then 1 / 2 else 0) + δ)

theorem holds_exact (n : ℕ) : Holds (.ofMantissaAndAccuracy n .exact) n :=
  ⟨0, le_rfl, by norm_num, by simp [ExtendedMantissa.ofMantissaAndAccuracy],
    by simp [ExtendedMantissa.ofMantissaAndAccuracy]⟩

theorem Holds.floor_eq {m : ExtendedMantissa} {t : ℝ} (h : Holds m t) :
    ⌊t⌋ = (m.mantissa : ℤ) := by
  obtain ⟨δ, h0, h1, -, rfl⟩ := h
  rw [Int.floor_eq_iff]
  push_cast
  split_ifs <;> constructor <;> linarith

theorem Holds.roundedMantissa_eq {m : ExtendedMantissa} {t : ℝ} (h : Holds m t) :
    (m.roundedMantissa : ℤ) = nearestEven t := by
  have hf := h.floor_eq
  have hr : Int.fract t = t - m.mantissa := by rw [Int.fract, hf]; push_cast; rfl
  obtain ⟨n, r, s⟩ := m
  obtain ⟨δ, h0, h1, hs, rfl⟩ := h
  unfold nearestEven
  rw [hr, hf]
  simp only [ExtendedMantissa.roundedMantissa] at *
  cases r <;> cases s <;>
    simp only [ExtendedMantissa.accuracy, Accuracy.roundToNearestEven, Bool.false_eq_true,
      false_iff, not_not, true_iff, if_false, if_true] at hs ⊢
  · rw [if_pos (by linarith)]
  · rw [if_pos (by linarith)]
  · rw [if_neg (by linarith), if_neg (by linarith)]
    push_cast
    rfl
  · have hp := lt_of_le_of_ne h0 (Ne.symm hs)
    rw [if_neg (by linarith), if_pos (by linarith)]
    push_cast
    rfl

theorem Holds.shiftRightOne {m : ExtendedMantissa} {t : ℝ} (h : Holds m t) :
    Holds m.shiftRightOne (t / 2) := by
  obtain ⟨n, r, s⟩ := m
  obtain ⟨δ, h0, h1, hs, rfl⟩ := h
  have hn : ((n / 2 : ℕ) : ℝ) * 2 + (n % 2 : ℕ) = n := by
    exact_mod_cast Nat.div_add_mod' n 2
  refine ⟨(if r then 1 / 4 else 0) + δ / 2, ?_, ?_, ?_, ?_⟩
  · split_ifs <;> linarith
  · split_ifs <;> linarith
  · simp only [ExtendedMantissa.shiftRightOne, Bool.or_eq_true]
    cases r with
    | false => simpa using hs
    | true =>
      simp only [true_or, if_true, true_iff]
      linarith
  · have hv : ((n / 2 : ℕ) : ℝ) + (if (n % 2 != 0) = true then 1 / 2 else 0) = n / 2 := by
      rcases Nat.mod_two_eq_zero_or_one n with h | h <;> rw [h] at hn ⊢ <;> norm_num at hn ⊢ <;>
        linarith
    change _ = ((n / 2 : ℕ) : ℝ) + (if (n % 2 != 0) = true then 1 / 2 else 0) + _
    rw [hv]
    cases r <;> simp only [Bool.false_eq_true, if_false, if_true] <;> ring

theorem Holds.shiftRight {m : ExtendedMantissa} {t : ℝ} (h : Holds m t) (n : ℕ) :
    Holds (m >>> n) (t / 2 ^ n) := by
  change Holds (n.repeat ExtendedMantissa.shiftRightOne m) _
  induction n with
  | zero => simpa [Nat.repeat] using h
  | succ n ih =>
    rw [pow_succ, ← div_div]
    exact ih.shiftRightOne

theorem targetExponent_eq {m : ℕ} {e : ℤ} {t : ℝ} (ht : 0 < t) (hf : ⌊t⌋ = (m : ℤ))
    (hm : 0 < m ∨ e ≤ spec.minExponent) :
    spec.targetExponent (totalExponent m e) = unitExponent spec (t * 2 ^ e) := by
  have he : (0 : ℝ) < 2 ^ e := zpow_pos two_pos e
  have hy : 0 < t * 2 ^ e := mul_pos ht he
  have hlo := Int.floor_le t
  have hhi := Int.lt_floor_add_one t
  rw [hf] at hlo hhi
  push_cast at hlo hhi
  have hmb : 1 ≤ spec.mantissaBits := by simp [Format.mantissaBits]
  unfold Format.targetExponent totalExponent unitExponent
  rw [abs_of_pos hy]
  rcases Nat.eq_zero_or_pos m with rfl | hm0
  · have hel : e ≤ spec.minExponent := by simpa using hm
    have hlog : Int.log 2 (t * 2 ^ e) < e := by
      rw [← Int.lt_zpow_iff_log_lt one_lt_two hy]
      push_cast
      simp only [CharP.cast_eq_zero, zero_add] at hhi
      nlinarith
    simp only [Nat.log2_zero, CharP.cast_eq_zero, zero_add]
    omega
  · have h2 : (2 : ℝ) ^ m.log2 ≤ m := by exact_mod_cast Nat.log2_self_le hm0.ne'
    have h3 : (m : ℝ) + 1 ≤ 2 ^ (m.log2 + 1) := by exact_mod_cast Nat.lt_log2_self
    have hlog : Int.log 2 (t * 2 ^ e) = m.log2 + e := by
      apply le_antisymm
      · rw [← Int.lt_add_one_iff, ← Int.lt_zpow_iff_log_lt one_lt_two hy]
        push_cast
        rw [show (m.log2 : ℤ) + e + 1 = ((m.log2 + 1 : ℕ) : ℤ) + e by push_cast; ring,
          zpow_add₀ two_ne_zero, zpow_natCast]
        exact mul_lt_mul_of_pos_right (hhi.trans_le h3) he
      · rw [← Int.zpow_le_iff_le_log one_lt_two hy]
        push_cast
        rw [zpow_add₀ two_ne_zero, zpow_natCast]
        exact mul_le_mul_of_nonneg_right (h2.trans hlo) he.le
    rw [hlog]
    congr 2
    ring

/-- A rounded mantissa carries at most once, and the shift after that loses nothing. -/
theorem shiftToTargetExponent_carry {m : ℕ} {e : ℤ} (hm : m ≤ 2 ^ spec.mantissaBits)
    (he : spec.minExponent ≤ e)
    (hn : 2 ^ spec.mantissaBitsWithoutImplicit ≤ m ∨ e = spec.minExponent) :
    ∃ m' e', (shiftToTargetExponent spec m e .exact).1.mantissa = m' ∧
      (shiftToTargetExponent spec m e .exact).2 = e' ∧
      (m' : ℝ) * 2 ^ e' = m * 2 ^ e ∧ m' < 2 ^ spec.mantissaBits ∧ spec.minExponent ≤ e' ∧
      (2 ^ spec.mantissaBitsWithoutImplicit ≤ m' ∨ e' = spec.minExponent) := by
  have hs : 2 ^ spec.mantissaBits = 2 * 2 ^ spec.mantissaBitsWithoutImplicit := by
    rw [Format.mantissaBits, pow_add, pow_one]
  have hpos : 0 < 2 ^ spec.mantissaBitsWithoutImplicit := by positivity
  rcases hm.lt_or_eq with hlt | rfl
  · have hl : m.log2 + 1 ≤ spec.mantissaBits := by
      rcases Nat.eq_zero_or_pos m with rfl | h0
      · simp [Format.mantissaBits]
      · exact (Nat.log2_lt h0.ne').mpr hlt
    have ht : (spec.targetExponent (totalExponent m e) - e).toNat = 0 := by
      unfold Format.targetExponent totalExponent
      omega
    refine ⟨m, e, ?_, ?_, rfl, hlt, he, hn⟩
    · simp only [shiftToTargetExponent, shiftToExponent, ht]
      rfl
    · simp only [shiftToTargetExponent, shiftToExponent, ht]
      omega
  · have ht : spec.targetExponent (totalExponent (2 ^ spec.mantissaBits) e) = e + 1 := by
      simp only [Format.targetExponent, totalExponent, Nat.log2_two_pow]
      omega
    have h1 : (e + 1 - e).toNat = 1 := by omega
    refine ⟨2 ^ spec.mantissaBitsWithoutImplicit, e + 1, ?_, ?_, ?_, by omega, by omega,
      .inl le_rfl⟩
    · simp only [shiftToTargetExponent, shiftToExponent, ht, h1]
      change 2 ^ spec.mantissaBits / 2 = _
      omega
    · simp only [shiftToTargetExponent, shiftToExponent, ht, h1]
      omega
    · rw [hs, zpow_add_one₀ two_ne_zero]
      push_cast
      ring

theorem rounds_signed {x : ℝ} {m : ℕ} {e : ℤ} (hv : (m : ℝ) * 2 ^ e = rounded spec x)
    (hlt : m < 2 ^ spec.mantissaBits) (hmin : spec.minExponent ≤ e)
    (hn : 2 ^ spec.mantissaBitsWithoutImplicit ≤ m ∨ e = spec.minExponent) (s : Sign) :
    Rounds spec (if h : m = 0 then .zero s else .finite s m e (Nat.pos_of_ne_zero h))
      (signed s x) := by
  split_ifs with h0
  · refine ⟨rfl, trivial, ?_⟩
    rw [h0, CharP.cast_eq_zero, zero_mul] at hv
    rw [rounded_signed, ← hv]
    cases s <;> simp [signed]
  · refine ⟨rfl, ⟨hlt, hmin, hn⟩, ?_⟩
    rw [rounded_signed, ← hv, real]

theorem rounds_roundWithAccuracy {m : ℕ} {e : ℤ} {acc : Accuracy} {t : ℝ}
    (h : Holds (.ofMantissaAndAccuracy m acc) t) (ht : 0 < t)
    (hm : 0 < m ∨ e ≤ spec.minExponent)
    (he : e ≤ spec.targetExponent (totalExponent m e)) (s : Sign) :
    Rounds spec (roundWithAccuracy spec s m e acc) (signed s (t * 2 ^ e)) := by
  have hmant : (ExtendedMantissa.ofMantissaAndAccuracy m acc).mantissa = m := by
    rcases acc with _ | (_ | _ | _) <;> rfl
  have hf : ⌊t⌋ = (m : ℤ) := by rw [h.floor_eq, hmant]
  have hy : 0 < t * 2 ^ e := mul_pos ht (zpow_pos two_pos e)
  have hu : spec.targetExponent (totalExponent m e) = unitExponent spec (t * 2 ^ e) :=
    targetExponent_eq ht hf hm
  obtain ⟨k, hk⟩ : ∃ k : ℕ, unitExponent spec (t * 2 ^ e) = e + k :=
    ⟨(unitExponent spec (t * 2 ^ e) - e).toNat, by omega⟩
  have hshift : (unitExponent spec (t * 2 ^ e) - e).toNat = k := by omega
  have htk : t / 2 ^ k = t * 2 ^ e / 2 ^ unitExponent spec (t * 2 ^ e) := by
    rw [hk, zpow_add₀ two_ne_zero, zpow_natCast]
    field_simp
  -- the mantissa after the first shift, rounded
  obtain ⟨em, hem⟩ : ∃ em, em = ExtendedMantissa.ofMantissaAndAccuracy m acc >>> k := ⟨_, rfl⟩
  have hem' := h.shiftRight k
  rw [← hem, htk] at hem'
  have hM := hem'.roundedMantissa_eq
  have hval : (em.roundedMantissa : ℝ) * 2 ^ (e + k) = rounded spec (t * 2 ^ e) := by
    rw [rounded, ← hM, hk]
    push_cast
    rfl
  have hle : em.roundedMantissa ≤ 2 ^ spec.mantissaBits := by
    have := (abs_le.mp (abs_nearestEven_units_le spec (t * 2 ^ e))).2
    rw [← hM] at this
    exact_mod_cast this
  have hge : 2 ^ spec.mantissaBitsWithoutImplicit ≤ em.roundedMantissa ∨
      e + k = spec.minExponent := by
    by_cases hmin : e + k = spec.minExponent
    · exact .inr hmin
    have := le_nearestEven_units hy (by omega : unitExponent spec _ ≠ _)
    rw [← hM] at this
    exact .inl (by exact_mod_cast this)
  have hmin : spec.minExponent ≤ e + k := hk ▸ minExponent_le_unitExponent spec _
  obtain ⟨m', e', hm', he', hv, hlt, hmin', hn⟩ := shiftToTargetExponent_carry hle hmin hge
  have hres : roundWithAccuracy spec s m e acc =
      if h : m' = 0 then .zero s else .finite s m' e' (Nat.pos_of_ne_zero h) := by
    have h₁ : shiftToTargetExponent spec m e acc = (em, e + k) := by
      simp only [shiftToTargetExponent, shiftToExponent, hu, hshift, hem]
    simp only [roundWithAccuracy, h₁, ← hm', ← he']
  rw [hres]
  exact rounds_signed (hv.trans hval) hlt hmin' hn s

end Relief.Binary
