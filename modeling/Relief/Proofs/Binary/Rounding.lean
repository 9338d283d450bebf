import Mathlib

namespace Relief.Binary

open Float.Model Float.Model.UnpackedFloat

noncomputable def nearestEven (t : ℝ) : ℤ :=
  if Int.fract t < 1 / 2 then ⌊t⌋
  else if 1 / 2 < Int.fract t then ⌊t⌋ + 1
  else ⌊t⌋ + ⌊t⌋ % 2

@[simp] theorem nearestEven_intCast (n : ℤ) : nearestEven n = n := by
  simp [nearestEven]

theorem abs_nearestEven_sub_le (t : ℝ) : |nearestEven t - t| ≤ 1 / 2 := by
  have hs := Int.floor_add_fract t
  have hlo := Int.fract_nonneg t
  have hhi := Int.fract_lt_one t
  unfold nearestEven
  split_ifs with h₁ h₂
  · rw [abs_le]
    constructor <;> linarith
  · push_cast
    rw [abs_le]
    constructor <;> linarith
  · have hm : ⌊t⌋ % 2 = 0 ∨ ⌊t⌋ % 2 = 1 := by omega
    rcases hm with hm | hm <;> rw [hm, abs_le] <;> push_cast <;> constructor <;> linarith

theorem le_nearestEven {n : ℤ} {t : ℝ} (h : n ≤ t) : n ≤ nearestEven t := by
  have hd := (abs_le.mp (abs_nearestEven_sub_le t)).1
  have hn : (n : ℝ) < nearestEven t + 1 := by linarith
  exact Int.lt_add_one_iff.mp (by exact_mod_cast hn)

theorem nearestEven_le {n : ℤ} {t : ℝ} (h : t ≤ n) : nearestEven t ≤ n := by
  have hd := (abs_le.mp (abs_nearestEven_sub_le t)).2
  have hn : (nearestEven t : ℝ) < n + 1 := by linarith
  exact Int.lt_add_one_iff.mp (by exact_mod_cast hn)

theorem abs_nearestEven_sub_le_abs (t : ℝ) (n : ℤ) : |nearestEven t - t| ≤ |n - t| := by
  by_cases h : nearestEven t = n
  · rw [h]
  have h₁ : (1 : ℤ) ≤ |nearestEven t - n| := Int.one_le_abs (sub_ne_zero.mpr h)
  have h₂ : (1 : ℝ) ≤ |(nearestEven t : ℝ) - n| := by exact_mod_cast h₁
  have h₃ := abs_sub_le (nearestEven t : ℝ) t n
  have h₄ := abs_nearestEven_sub_le t
  rw [abs_sub_comm t] at h₃
  linarith

theorem nearestEven_neg (t : ℝ) : nearestEven (-t) = -nearestEven t := by
  by_cases h : Int.fract t = 0
  · obtain ⟨n, rfl⟩ := Int.fract_eq_zero_iff.mp h
    rw [← Int.cast_neg, nearestEven_intCast, nearestEven_intCast]
  have hs := Int.floor_add_fract t
  have hf : ⌊-t⌋ = -⌊t⌋ - 1 := by
    have hlo := lt_of_le_of_ne (Int.fract_nonneg t) (Ne.symm h)
    have hhi := Int.fract_lt_one t
    rw [Int.floor_eq_iff]
    push_cast
    constructor <;> linarith
  unfold nearestEven
  rw [Int.fract_neg h, hf]
  split_ifs <;> first | omega | linarith

noncomputable def halfAway (t : ℝ) : ℤ :=
  if t < 0 then -⌊-t + 1 / 2⌋ else ⌊t + 1 / 2⌋

/-- The exponent of the last place of the format's numbers near `x`. -/
noncomputable def unitExponent (spec : Format) (x : ℝ) : ℤ :=
  max (Int.log 2 |x| + 1 - spec.mantissaBits) spec.minExponent

/-- The number of the format nearest to `x`, of two equally near ones the even one. -/
noncomputable def rounded (spec : Format) (x : ℝ) : ℝ :=
  nearestEven (x / 2 ^ unitExponent spec x) * 2 ^ unitExponent spec x

/-- The numbers of a format, range aside. -/
def Representable (spec : Format) (x : ℝ) : Prop :=
  ∃ n g : ℤ, |n| < 2 ^ spec.mantissaBits ∧ spec.minExponent ≤ g ∧ x = n * 2 ^ g

/-- The least power of two that no finite value reaches. -/
noncomputable def limit (spec : Format) : ℝ :=
  2 ^ (spec.exponentBias + 1)

def signed (s : Sign) (x : ℝ) : ℝ :=
  match s with
  | .negative => -x
  | .positive => x

noncomputable def real : UnpackedFloat → ℝ
  | .finite s m e _ => signed s (m * 2 ^ e)
  | _ => 0

@[simp] theorem real_zero (s : Sign) : real (.zero s) = 0 :=
  rfl

variable {spec : Format} {x y f : ℝ}

theorem minExponent_le_unitExponent (spec : Format) (x : ℝ) :
    spec.minExponent ≤ unitExponent spec x :=
  le_max_right _ _

theorem abs_lt_zpow_unitExponent (spec : Format) (x : ℝ) :
    |x| < 2 ^ (unitExponent spec x + spec.mantissaBits) := by
  have h : Int.log 2 |x| + 1 ≤ unitExponent spec x + spec.mantissaBits := by
    unfold unitExponent
    omega
  calc |x| < 2 ^ (Int.log 2 |x| + 1) := by
        exact_mod_cast Int.lt_zpow_succ_log_self one_lt_two |x|
    _ ≤ 2 ^ (unitExponent spec x + spec.mantissaBits) := zpow_le_zpow_right₀ one_le_two h

theorem zpow_le_abs_of_unitExponent (hx : x ≠ 0) (h : unitExponent spec x ≠ spec.minExponent) :
    2 ^ (unitExponent spec x + spec.mantissaBits - 1) ≤ |x| := by
  have he : unitExponent spec x + spec.mantissaBits - 1 = Int.log 2 |x| := by
    unfold unitExponent at h ⊢
    omega
  rw [he]
  exact_mod_cast Int.zpow_log_le_self one_lt_two (abs_pos.mpr hx)

theorem unitExponent_neg (x : ℝ) : unitExponent spec (-x) = unitExponent spec x := by
  simp only [unitExponent, abs_neg]

theorem Representable.zero : Representable spec 0 :=
  ⟨0, spec.minExponent, by positivity, le_rfl, by simp⟩

theorem Representable.neg (h : Representable spec x) : Representable spec (-x) := by
  obtain ⟨n, g, hn, hg, rfl⟩ := h
  exact ⟨-n, g, by rwa [abs_neg], hg, by push_cast; ring⟩

/-- A number of the format is a whole multiple of each unit that is not too large for it. -/
theorem Representable.exists_units (h : Representable spec f) {g : ℤ}
    (hg : g = spec.minExponent ∨ 2 ^ (g + spec.mantissaBits - 1) ≤ |f|) :
    ∃ n : ℤ, f = n * 2 ^ g := by
  obtain ⟨n, k, hn, hk, rfl⟩ := h
  by_cases hgk : g ≤ k
  · refine ⟨n * 2 ^ (k - g).toNat, ?_⟩
    push_cast
    rw [mul_assoc, ← zpow_natCast, ← zpow_add₀ two_ne_zero]
    congr 2
    omega
  · have hp : (2 : ℝ) ^ (g + spec.mantissaBits - 1) ≤ |(n : ℝ) * 2 ^ k| := by
      rcases hg with hg | hg
      · omega
      · exact hg
    have hn' : |(n : ℝ)| < 2 ^ (spec.mantissaBits : ℤ) := by
      rw [zpow_natCast]
      exact_mod_cast hn
    rw [abs_mul, abs_of_pos (zpow_pos two_pos k : (0 : ℝ) < 2 ^ k)] at hp
    have hlt := hp.trans_lt (mul_lt_mul_of_pos_right hn' (zpow_pos two_pos k))
    rw [← zpow_add₀ two_ne_zero, zpow_lt_zpow_iff_right₀ one_lt_two] at hlt
    omega

theorem abs_rounded_sub_le (spec : Format) (x : ℝ) :
    |rounded spec x - x| ≤ 2 ^ unitExponent spec x / 2 := by
  have hu : (0 : ℝ) < 2 ^ unitExponent spec x := zpow_pos two_pos _
  have h := mul_le_mul_of_nonneg_right
    (abs_nearestEven_sub_le (x / 2 ^ unitExponent spec x)) hu.le
  rw [← abs_of_pos hu, ← abs_mul, abs_of_pos hu, sub_mul, div_mul_cancel₀ _ hu.ne'] at h
  unfold rounded
  linarith

theorem rounded_le_multiple (spec : Format) (x : ℝ) (n : ℤ) :
    |rounded spec x - x| ≤ |n * 2 ^ unitExponent spec x - x| := by
  have hu : (0 : ℝ) < 2 ^ unitExponent spec x := zpow_pos two_pos _
  have h := mul_le_mul_of_nonneg_right
    (abs_nearestEven_sub_le_abs (x / 2 ^ unitExponent spec x) n) hu.le
  rw [← abs_of_pos hu, ← abs_mul, ← abs_mul, abs_of_pos hu, sub_mul, sub_mul,
    div_mul_cancel₀ _ hu.ne'] at h
  exact h

theorem abs_rounded_sub_le_abs (hf : Representable spec f) (x : ℝ) :
    |rounded spec x - x| ≤ |f - x| := by
  by_cases hg : unitExponent spec x = spec.minExponent ∨
      2 ^ (unitExponent spec x + spec.mantissaBits - 1) ≤ |f|
  · obtain ⟨n, hn⟩ := hf.exists_units hg
    rw [hn]
    exact rounded_le_multiple spec x n
  push Not at hg
  by_cases hx : x = 0
  · subst hx
    exact (rounded_le_multiple spec 0 0).trans (by simp)
  -- the power of two between `f` and `x` is a multiple of the unit
  have hp : 1 ≤ spec.mantissaBits := by simp [Format.mantissaBits]
  have hlo := zpow_le_abs_of_unitExponent hx hg.1
  have hpow : ((2 ^ (spec.mantissaBits - 1) : ℤ) : ℝ) * 2 ^ unitExponent spec x =
      2 ^ (unitExponent spec x + spec.mantissaBits - 1) := by
    push_cast
    rw [← zpow_natCast, ← zpow_add₀ two_ne_zero]
    congr 1
    omega
  have hff := abs_lt.mp hg.2
  rcases le_or_gt 0 x with h0 | h0
  · rw [abs_of_nonneg h0] at hlo
    refine (rounded_le_multiple spec x (2 ^ (spec.mantissaBits - 1))).trans ?_
    rw [hpow, abs_of_nonpos (by linarith), abs_of_nonpos (by linarith)]
    linarith
  · rw [abs_of_neg h0] at hlo
    refine (rounded_le_multiple spec x (-2 ^ (spec.mantissaBits - 1))).trans ?_
    rw [Int.cast_neg, neg_mul, hpow, abs_of_nonneg (by linarith), abs_of_nonneg (by linarith)]
    linarith

theorem Representable.rounded_eq (h : Representable spec x) : rounded spec x = x := by
  have hd := abs_rounded_sub_le_abs h x
  rw [sub_self, abs_zero] at hd
  exact sub_eq_zero.mp (abs_eq_zero.mp (le_antisymm hd (abs_nonneg _)))

@[simp] theorem rounded_zero : rounded spec 0 = 0 :=
  Representable.zero.rounded_eq

theorem rounded_neg (x : ℝ) : rounded spec (-x) = -rounded spec x := by
  simp only [rounded, unitExponent_neg, neg_div, nearestEven_neg, Int.cast_neg, neg_mul]

theorem abs_nearestEven_units_le (spec : Format) (x : ℝ) :
    |nearestEven (x / 2 ^ unitExponent spec x)| ≤ 2 ^ spec.mantissaBits := by
  have hu : (0 : ℝ) < 2 ^ unitExponent spec x := zpow_pos two_pos _
  have ht : |x / 2 ^ unitExponent spec x| < 2 ^ spec.mantissaBits := by
    rw [abs_div, abs_of_pos hu, div_lt_iff₀ hu, ← zpow_natCast, ← zpow_add₀ two_ne_zero,
      add_comm]
    exact abs_lt_zpow_unitExponent spec x
  refine abs_le.mpr ⟨le_nearestEven ?_, nearestEven_le ?_⟩
  · push_cast
    exact (abs_lt.mp ht).1.le
  · push_cast
    exact (abs_lt.mp ht).2.le

theorem le_nearestEven_units (hx : 0 < x) (h : unitExponent spec x ≠ spec.minExponent) :
    2 ^ spec.mantissaBitsWithoutImplicit ≤ nearestEven (x / 2 ^ unitExponent spec x) := by
  have hlo := zpow_le_abs_of_unitExponent hx.ne' h
  rw [abs_of_pos hx] at hlo
  apply le_nearestEven
  rw [le_div_iff₀ (zpow_pos two_pos _)]
  refine le_trans (le_of_eq ?_) hlo
  push_cast
  rw [← zpow_natCast, ← zpow_add₀ two_ne_zero]
  congr 1
  unfold Format.mantissaBits
  push_cast
  ring

theorem rounded_representable (spec : Format) (x : ℝ) : Representable spec (rounded spec x) := by
  have hp : spec.mantissaBits = spec.mantissaBitsWithoutImplicit + 1 := by
    rw [Format.mantissaBits, add_comm]
  rcases (abs_nearestEven_units_le spec x).lt_or_eq with h | h
  · exact ⟨_, _, h, minExponent_le_unitExponent spec x, rfl⟩
  -- rounding up to the next power of two leaves a mantissa of one bit
  · have hlt : |(2 : ℤ) ^ spec.mantissaBitsWithoutImplicit| < 2 ^ spec.mantissaBits := by
      rw [abs_of_pos (by positivity), hp]
      exact pow_lt_pow_right₀ (by norm_num) (Nat.lt_succ_self _)
    have hg := minExponent_le_unitExponent spec x
    rcases (abs_eq (by positivity)).mp h with h | h
    · refine ⟨2 ^ spec.mantissaBitsWithoutImplicit, unitExponent spec x + 1, hlt, by omega, ?_⟩
      rw [rounded, h, hp, zpow_add_one₀ two_ne_zero]
      push_cast
      ring
    · refine ⟨-2 ^ spec.mantissaBitsWithoutImplicit, unitExponent spec x + 1, ?_, by omega, ?_⟩
      · rwa [abs_neg]
      · rw [rounded, h, hp, zpow_add_one₀ two_ne_zero]
        push_cast
        ring

theorem rounded_mono (h : x ≤ y) : rounded spec x ≤ rounded spec y := by
  rcases h.eq_or_lt with rfl | h
  · exact le_rfl
  by_contra hlt
  push Not at hlt
  -- each point lies on the side of its own rounding, so the points are out of order too
  have hx := abs_rounded_sub_le_abs (rounded_representable spec y) x
  have hy := abs_rounded_sub_le_abs (rounded_representable spec x) y
  have hx' : rounded spec x + rounded spec y ≤ 2 * x := by
    rcases abs_cases (rounded spec x - x) with h₁ | h₁ <;>
      rcases abs_cases (rounded spec y - x) with h₂ | h₂ <;> linarith
  have hy' : 2 * y ≤ rounded spec x + rounded spec y := by
    rcases abs_cases (rounded spec x - y) with h₁ | h₁ <;>
      rcases abs_cases (rounded spec y - y) with h₂ | h₂ <;> linarith
  linarith

theorem abs_rounded_sub_le_max (spec : Format) (x : ℝ) :
    |rounded spec x - x| ≤ max (|x| / 2 ^ spec.mantissaBits) (2 ^ (spec.minExponent - 1)) := by
  by_cases hx : x = 0
  · subst hx
    simp only [rounded_zero, sub_self, abs_zero, zero_div]
    exact le_max_left _ _
  have hhalf : (2 : ℝ) ^ unitExponent spec x / 2 = 2 ^ (unitExponent spec x - 1) := by
    rw [zpow_sub_one₀ two_ne_zero, div_eq_mul_inv]
  refine (abs_rounded_sub_le spec x).trans ?_
  rw [hhalf]
  by_cases hu : unitExponent spec x = spec.minExponent
  · rw [hu]
    exact le_max_right _ _
  · apply le_max_of_le_left
    rw [le_div_iff₀ (by positivity), ← zpow_natCast, ← zpow_add₀ two_ne_zero]
    refine le_trans (le_of_eq ?_) (zpow_le_abs_of_unitExponent hx hu)
    congr 1
    omega

end Relief.Binary
