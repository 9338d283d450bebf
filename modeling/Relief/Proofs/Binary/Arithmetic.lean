import Relief.Proofs.Binary.Unpacked

namespace Relief.Binary

open Float.Model Float.Model.UnpackedFloat

variable {spec : Format}

theorem cast_apply (s : Sign) (n : ℤ) : ((s.apply n : ℤ) : ℝ) = signed s n := by
  cases s with
  | negative => exact Int.cast_neg n
  | positive => rfl

theorem signed_mul (s : Sign) (x y : ℝ) : signed s (x * y) = signed s x * y := by
  cases s with
  | negative => exact neg_mul_eq_neg_mul x y
  | positive => rfl

theorem signed_neg (s : Sign) (x : ℝ) : signed (-s) x = -signed s x := by
  cases s with
  | negative => exact (neg_neg x).symm
  | positive => rfl

theorem signed_mul_signed (s s' : Sign) (x y : ℝ) :
    signed s x * signed s' y = signed (s * s') (x * y) := by
  cases s <;> cases s'
  · exact neg_mul_neg x y
  · exact neg_mul x y
  · exact mul_neg x y
  · rfl

theorem signed_div_signed (s s' : Sign) (x y : ℝ) :
    signed s x / signed s' y = signed (s / s') (x / y) := by
  cases s <;> cases s'
  · exact neg_div_neg_eq x y
  · exact neg_div y x
  · exact div_neg x
  · rfl

theorem decreaseExponent_value (m : ℕ) (e t : ℤ) :
    ((decreaseExponent m e t).1 : ℝ) * 2 ^ (decreaseExponent m e t).2 = m * 2 ^ e := by
  simp only [decreaseExponent, Nat.shiftLeft_eq]
  push_cast
  rw [mul_assoc, ← zpow_natCast, ← zpow_add₀ two_ne_zero]
  congr 2
  omega

theorem decreaseExponent_exponent (m : ℕ) (e t : ℤ) : (decreaseExponent m e t).2 = min e t := by
  simp only [decreaseExponent]
  omega

theorem decreaseExponent_pos {m : ℕ} (hm : 0 < m) (e t : ℤ) : 0 < (decreaseExponent m e t).1 := by
  simp only [decreaseExponent, Nat.shiftLeft_eq]
  positivity

theorem rounds_round {m : ℕ} (hm : 0 < m) (e : ℤ) (s : Sign) :
    Rounds spec (UnpackedFloat.round spec s m e) (signed s (m * 2 ^ e)) := by
  obtain ⟨t, ht⟩ : ∃ t, t = spec.targetExponent (totalExponent m e) := ⟨_, rfl⟩
  obtain ⟨d, hd⟩ : ∃ d, d = decreaseExponent m e t := ⟨_, rfl⟩
  have hpos : 0 < d.1 := hd ▸ decreaseExponent_pos hm e t
  have hval : (d.1 : ℝ) * 2 ^ d.2 = m * 2 ^ e := hd ▸ decreaseExponent_value m e t
  have hexp : d.2 = min e t := hd ▸ decreaseExponent_exponent m e t
  have htarget : spec.targetExponent (totalExponent d.1 d.2) = t := by
    rw [targetExponent_eq (t := d.1) (by exact_mod_cast hpos) (by simp) (.inl hpos), hval, ht,
      targetExponent_eq (t := m) (by exact_mod_cast hm) (by simp) (.inl hm)]
  have h := rounds_roundWithAccuracy (holds_exact d.1) (by exact_mod_cast hpos) (.inl hpos)
    (by rw [htarget, hexp]; exact min_le_right e t) s
  rw [hval] at h
  simp only [UnpackedFloat.round, ← ht, ← hd]
  exact h

theorem rounds_normalize (m e : ℤ) (s : Sign) :
    Rounds spec (UnpackedFloat.normalize spec m e s) (m * 2 ^ e) := by
  unfold UnpackedFloat.normalize
  rcases lt_trichotomy m 0 with h | rfl | h
  · rw [show compare m 0 = .lt from compare_lt_iff_lt.mpr h]
    have hr : Rounds spec _ _ := rounds_round (by omega : 0 < (-m).toNat) e .negative
    have hm : (((-m).toNat : ℤ) : ℝ) = -m := by
      rw [Int.toNat_of_nonneg (by omega)]
      exact Int.cast_neg m
    rw [Int.cast_natCast] at hm
    rwa [signed_mul, signed, hm, neg_neg] at hr
  · rw [show compare (0 : ℤ) 0 = .eq from compare_eq_iff_eq.mpr rfl]
    exact ⟨rfl, trivial, by simp [real]⟩
  · rw [show compare m 0 = .gt from compare_gt_iff_gt.mpr h]
    have hr : Rounds spec _ _ := rounds_round (by omega : 0 < m.toNat) e .positive
    have hm : ((m.toNat : ℤ) : ℝ) = m := by rw [Int.toNat_of_nonneg h.le]
    rw [Int.cast_natCast] at hm
    rwa [signed, hm] at hr

theorem rounds_zero (s : Sign) : Rounds spec (.zero s) 0 :=
  ⟨rfl, trivial, by simp⟩

theorem Canonical.rounds {u : UnpackedFloat} (h : Canonical spec u) (hf : u.isFinite = true) :
    Rounds spec u (real u) :=
  ⟨hf, h, h.representable.rounded_eq.symm⟩

theorem Canonical.neg {u : UnpackedFloat} (h : Canonical spec u) : Canonical spec u.neg := by
  cases u with
  | finite s m e hm => exact h
  | infinity => trivial
  | notANumber => trivial
  | zero => trivial

theorem Canonical.abs {u : UnpackedFloat} (h : Canonical spec u) : Canonical spec u.abs := by
  cases u <;> exact h

theorem real_neg (u : UnpackedFloat) : real u.neg = -real u := by
  cases u with
  | finite s m e hm => exact signed_neg s _
  | infinity => exact neg_zero.symm
  | notANumber => exact neg_zero.symm
  | zero => exact neg_zero.symm

theorem real_abs (u : UnpackedFloat) : real u.abs = |real u| := by
  cases u with
  | finite s m e hm =>
    have h : (0 : ℝ) ≤ m * 2 ^ e := by positivity
    cases s with
    | negative => exact ((abs_neg _).trans (abs_of_nonneg h)).symm
    | positive => exact (abs_of_nonneg h).symm
  | infinity => exact abs_zero.symm
  | notANumber => exact abs_zero.symm
  | zero => exact abs_zero.symm

theorem real_add_eq (s₁ s₂ : Sign) (m₁ m₂ : ℕ) (e₁ e₂ : ℤ) :
    ((s₁.apply (decreaseExponent m₁ e₁ (min e₁ e₂)).1 +
      s₂.apply (decreaseExponent m₂ e₂ (min e₁ e₂)).1 : ℤ) : ℝ) * 2 ^ min e₁ e₂ =
      signed s₁ (m₁ * 2 ^ e₁) + signed s₂ (m₂ * 2 ^ e₂) := by
  have h₁ := decreaseExponent_value m₁ e₁ (min e₁ e₂)
  have h₂ := decreaseExponent_value m₂ e₂ (min e₁ e₂)
  rw [decreaseExponent_exponent, min_eq_right (min_le_left e₁ e₂)] at h₁
  rw [decreaseExponent_exponent, min_eq_right (min_le_right e₁ e₂)] at h₂
  rw [Int.cast_add, cast_apply, cast_apply, add_mul, ← signed_mul, ← signed_mul, Int.cast_natCast,
    Int.cast_natCast, h₁, h₂]

theorem rounds_add {u v : UnpackedFloat} (hu : Canonical spec u) (hv : Canonical spec v)
    (hu' : u.isFinite = true) (hv' : v.isFinite = true) :
    Rounds spec (UnpackedFloat.add spec u v) (real u + real v) := by
  cases u with
  | notANumber => cases hu'
  | infinity => cases hu'
  | zero s =>
    cases v with
    | notANumber => cases hv'
    | infinity => cases hv'
    | zero s' =>
      rw [real_zero, real_zero, add_zero]
      change Rounds spec (if s == s' then .zero s else .zero .positive) 0
      split_ifs
      · exact rounds_zero s
      · exact rounds_zero .positive
    | finite s' m e hm =>
      rw [real_zero, zero_add]
      exact hv.rounds hv'
  | finite s m e hm =>
    cases v with
    | notANumber => cases hv'
    | infinity => cases hv'
    | zero s' =>
      rw [real_zero, add_zero]
      exact hu.rounds hu'
    | finite s' m' e' hm' =>
      have h : Rounds spec _ _ := rounds_normalize
        (s.apply (decreaseExponent m e (min e e')).1 +
          s'.apply (decreaseExponent m' e' (min e e')).1) (min e e') .positive
      rw [real_add_eq] at h
      exact h

theorem rounds_sub {u v : UnpackedFloat} (hu : Canonical spec u) (hv : Canonical spec v)
    (hu' : u.isFinite = true) (hv' : v.isFinite = true) :
    Rounds spec (UnpackedFloat.sub spec u v) (real u - real v) := by
  cases u with
  | notANumber => cases hu'
  | infinity => cases hu'
  | zero s =>
    cases v with
    | notANumber => cases hv'
    | infinity => cases hv'
    | zero s' =>
      rw [real_zero, real_zero, sub_zero]
      change Rounds spec (if s == -s' then .zero s else .zero .positive) 0
      split_ifs
      · exact rounds_zero s
      · exact rounds_zero .positive
    | finite s' m e hm =>
      rw [real_zero, zero_sub, ← real_neg]
      exact hv.neg.rounds hv'
  | finite s m e hm =>
    cases v with
    | notANumber => cases hv'
    | infinity => cases hv'
    | zero s' =>
      rw [real_zero, sub_zero]
      exact hu.rounds hu'
    | finite s' m' e' hm' =>
      have h : Rounds spec _ _ := rounds_normalize
        (s.apply (decreaseExponent m e (min e e')).1 +
          (-s').apply (decreaseExponent m' e' (min e e')).1) (min e e') .positive
      have hneg (n : ℤ) : (-s').apply n = -s'.apply n := by
        cases s' with
        | negative => exact (neg_neg n).symm
        | positive => rfl
      rw [real_add_eq, hneg, signed_neg] at h
      exact h

theorem minExponent_nonpos (spec : Format) : spec.minExponent ≤ 0 := by
  have h₁ : (0 : ℤ) < 2 ^ (spec.exponentBits - 1) := by positivity
  have h₂ := spec.hm
  unfold Format.minExponent Format.mantissaBits
  omega

theorem long_exponent_le {m m' : ℕ} {e e' : ℤ} (hm : 0 < m) (hm' : 0 < m')
    (h : 2 ^ spec.mantissaBitsWithoutImplicit ≤ m * m') :
    e + e' ≤ spec.targetExponent (totalExponent (m * m') (e + e')) := by
  have := (Nat.le_log2 (Nat.mul_pos hm hm').ne').mpr h
  unfold Format.targetExponent totalExponent Format.mantissaBits
  omega

theorem mul_exponent_le {m m' : ℕ} {e e' : ℤ} (hm : 0 < m) (hm' : 0 < m')
    (h : 2 ^ spec.mantissaBitsWithoutImplicit ≤ m ∨ e = spec.minExponent)
    (h' : 2 ^ spec.mantissaBitsWithoutImplicit ≤ m' ∨ e' = spec.minExponent) :
    e + e' ≤ spec.targetExponent (totalExponent (m * m') (e + e')) := by
  have hmin := minExponent_nonpos spec
  rcases h with h | rfl
  · exact long_exponent_le hm hm' (h.trans (Nat.le_mul_of_pos_right m hm'))
  rcases h' with h' | rfl
  · exact long_exponent_le hm hm' (h'.trans (Nat.le_mul_of_pos_left m' hm))
  · unfold Format.targetExponent
    omega

theorem rounds_mul_finite {s s' : Sign} {m m' : ℕ} {e e' : ℤ} (hm : 0 < m) (hm' : 0 < m')
    (h : e + e' ≤ spec.targetExponent (totalExponent (m * m') (e + e'))) :
    Rounds spec (UnpackedFloat.mul spec (.finite s m e hm) (.finite s' m' e' hm'))
      (real (.finite s m e hm) * real (.finite s' m' e' hm')) := by
  have hpos : 0 < m * m' := Nat.mul_pos hm hm'
  have hval : real (.finite s m e hm) * real (.finite s' m' e' hm') =
      signed (s * s') (((m * m' : ℕ) : ℝ) * 2 ^ (e + e')) := by
    rw [real, real, signed_mul_signed, zpow_add₀ two_ne_zero]
    congr 1
    push_cast
    ring
  rw [hval]
  exact rounds_roundWithAccuracy (holds_exact (m * m')) (by exact_mod_cast hpos)
    (.inl hpos) h (s * s')

theorem rounds_mul {u v : UnpackedFloat} (hu : Canonical spec u) (hv : Canonical spec v)
    (hu' : u.isFinite = true) (hv' : v.isFinite = true) :
    Rounds spec (UnpackedFloat.mul spec u v) (real u * real v) := by
  cases u with
  | notANumber => cases hu'
  | infinity => cases hu'
  | zero s =>
    rw [real_zero, zero_mul]
    cases v with
    | notANumber => cases hv'
    | infinity => cases hv'
    | zero s' => exact rounds_zero _
    | finite s' m e hm => exact rounds_zero _
  | finite s m e hm =>
    cases v with
    | notANumber => cases hv'
    | infinity => cases hv'
    | zero s' =>
      rw [real_zero, mul_zero]
      exact rounds_zero _
    | finite s' m' e' hm' =>
      exact rounds_mul_finite hm hm' (mul_exponent_le hm hm' hu.2.2 hv.2.2)

/-- The whole quotient and the accuracy computed from the remainder. -/
theorem holds_div {m d : ℕ} (hd : 0 < d) :
    Holds (.ofMantissaAndAccuracy (m / d) (accuracyOfFraction (m % d) d)) (m / d : ℝ) := by
  have hd' : (0 : ℝ) < d := by exact_mod_cast hd
  have hs : ((m / d : ℕ) : ℝ) * d + (m % d : ℕ) = m := by exact_mod_cast Nat.div_add_mod' m d
  have hq : (m / d : ℝ) = (m / d : ℕ) + ((m % d : ℕ) : ℝ) / d := by
    rw [← hs]
    field_simp
  have hlt : ((m % d : ℕ) : ℝ) < d := by exact_mod_cast Nat.mod_lt m hd
  rw [hq]
  unfold accuracyOfFraction
  split_ifs with h0
  · rw [h0]
    simpa using holds_exact (m / d)
  have hpos : (0 : ℝ) < (m % d : ℕ) / d := by
    have : (0 : ℝ) < (m % d : ℕ) := by exact_mod_cast Nat.pos_of_ne_zero h0
    positivity
  rcases lt_trichotomy (2 * (m % d)) d with h | h | h
  · rw [show compare (2 * (m % d)) d = .lt from compare_lt_iff_lt.mpr h]
    refine ⟨(m % d : ℕ) / d, hpos.le, ?_, ?_, ?_⟩
    · rw [div_lt_div_iff₀ hd' two_pos]
      have : ((2 * (m % d) : ℕ) : ℝ) < d := by exact_mod_cast h
      push_cast at this
      linarith
    · simpa [ExtendedMantissa.ofMantissaAndAccuracy] using hpos.ne'
    · simp [ExtendedMantissa.ofMantissaAndAccuracy]
  · rw [show compare (2 * (m % d)) d = .eq from compare_eq_iff_eq.mpr h]
    refine ⟨0, le_rfl, by norm_num, ?_, ?_⟩
    · simp [ExtendedMantissa.ofMantissaAndAccuracy]
    · have : ((2 * (m % d) : ℕ) : ℝ) = d := by exact_mod_cast h
      push_cast at this
      simp only [ExtendedMantissa.ofMantissaAndAccuracy, if_true, add_zero]
      congr 1
      rw [div_eq_div_iff hd'.ne' two_ne_zero]
      linarith
  · rw [show compare (2 * (m % d)) d = .gt from compare_gt_iff_gt.mpr h]
    have hhalf : 1 / 2 < ((m % d : ℕ) : ℝ) / d := by
      rw [div_lt_div_iff₀ two_pos hd']
      have : (d : ℝ) < (2 * (m % d) : ℕ) := by exact_mod_cast h
      push_cast at this
      linarith
    have hone : ((m % d : ℕ) : ℝ) / d < 1 := by rwa [div_lt_one hd']
    refine ⟨(m % d : ℕ) / d - 1 / 2, by linarith, by linarith, ?_, ?_⟩
    · simp only [ExtendedMantissa.ofMantissaAndAccuracy, true_iff]
      linarith
    · simp only [ExtendedMantissa.ofMantissaAndAccuracy, if_true]
      ring

/-- The shift before a division leaves a quotient that is long enough, or small enough for the
least exponent. -/
theorem divCore_spec (spec : Format) {m₁ m₂ : ℕ} (h₁ : 0 < m₁) (h₂ : 0 < m₂) (e₁ e₂ : ℤ) :
    ∃ (m : ℕ) (g : ℤ), divCore spec m₁ e₁ m₂ e₂ = (m / m₂, g, accuracyOfFraction (m % m₂) m₂) ∧
      0 < m ∧ (m : ℝ) / m₂ * 2 ^ g = m₁ * 2 ^ e₁ / (m₂ * 2 ^ e₂) ∧
      (0 < m / m₂ ∨ g ≤ spec.minExponent) ∧
      g ≤ spec.targetExponent (totalExponent (m / m₂) g) := by
  obtain ⟨g, hg⟩ : ∃ g, g = min (e₁ - e₂)
    (spec.targetExponent (totalExponent m₁ e₁ - totalExponent m₂ e₂)) := ⟨_, rfl⟩
  obtain ⟨k, hk⟩ : ∃ k : ℕ, e₁ - e₂ = g + k := ⟨(e₁ - e₂ - g).toNat, by omega⟩
  have hkg : (e₁ - e₂ - g).toNat = k := by omega
  refine ⟨m₁ * 2 ^ k, g, ?_, by positivity, ?_, ?_⟩
  · simp only [divCore, ← hg, hkg, Nat.shiftLeft_eq]
  · have he : (2 : ℝ) ^ e₁ = 2 ^ k * 2 ^ g * 2 ^ e₂ := by
      rw [← zpow_natCast, ← zpow_add₀ two_ne_zero, ← zpow_add₀ two_ne_zero]
      congr 1
      omega
    have h₂' : (m₂ : ℝ) ≠ 0 := by exact_mod_cast h₂.ne'
    rw [he]
    push_cast
    field_simp
  · by_cases hmin : g ≤ spec.minExponent
    · refine ⟨.inr hmin, hmin.trans ?_⟩
      unfold Format.targetExponent
      omega
    -- above the least exponent the quotient fills the mantissa
    have hlog : m₂.log2 + spec.mantissaBits ≤ m₁.log2 + k := by
      unfold Format.targetExponent totalExponent at hg
      omega
    have hq : 2 ^ spec.mantissaBitsWithoutImplicit ≤ m₁ * 2 ^ k / m₂ := by
      rw [Nat.le_div_iff_mul_le h₂]
      calc 2 ^ spec.mantissaBitsWithoutImplicit * m₂
          ≤ 2 ^ spec.mantissaBitsWithoutImplicit * 2 ^ (m₂.log2 + 1) :=
            Nat.mul_le_mul_left _ Nat.lt_log2_self.le
        _ = 2 ^ (m₂.log2 + spec.mantissaBits) := by
            rw [← pow_add, Format.mantissaBits]
            congr 1
            ring
        _ ≤ 2 ^ (m₁.log2 + k) := Nat.pow_le_pow_right two_pos hlog
        _ ≤ m₁ * 2 ^ k := by
            rw [pow_add]
            exact Nat.mul_le_mul_right _ (Nat.log2_self_le h₁.ne')
    have hpos : 0 < m₁ * 2 ^ k / m₂ := lt_of_lt_of_le (by positivity) hq
    have := (Nat.le_log2 hpos.ne').mpr hq
    refine ⟨.inl hpos, ?_⟩
    unfold Format.targetExponent totalExponent Format.mantissaBits
    omega

theorem rounds_div {u v : UnpackedFloat} (hu : Canonical spec u) (hv : Canonical spec v)
    (hu' : u.isFinite = true) (hv' : v.isFinite = true) (h0 : real v ≠ 0) :
    Rounds spec (UnpackedFloat.div spec u v) (real u / real v) := by
  cases v with
  | notANumber => cases hv'
  | infinity => cases hv'
  | zero s' => exact absurd rfl h0
  | finite s' m' e' hm' =>
    cases u with
    | notANumber => cases hu'
    | infinity => cases hu'
    | zero s =>
      rw [real_zero, zero_div]
      exact rounds_zero _
    | finite s m e hm =>
      obtain ⟨n, g, hcore, hn, hval, hpos, hexp⟩ := divCore_spec spec hm hm' e e'
      have ht : (0 : ℝ) < n / m' := by
        have : (0 : ℝ) < n := by exact_mod_cast hn
        have : (0 : ℝ) < m' := by exact_mod_cast hm'
        positivity
      rw [real, real, signed_div_signed, ← hval]
      simp only [UnpackedFloat.div, hcore]
      exact rounds_roundWithAccuracy (holds_div hm') ht hpos hexp (s / s')

end Relief.Binary
