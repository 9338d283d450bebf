import Relief.Proofs.Binary.Value

namespace Relief.Binary

open Float.Model Float.Model.UnpackedFloat

variable {x : Float} {n : ℕ}

section Counts

theorem rounds_ofNat (spec : Format) (n : ℕ) : Rounds spec (UnpackedFloat.ofNat spec n) n := by
  have h : Rounds spec (UnpackedFloat.normalize spec n 0 .positive) _ :=
    rounds_normalize n 0 .positive
  rwa [zpow_zero, mul_one, Int.cast_natCast] at h

theorem value_toFloat (n : UInt64) :
    n.toFloat.isNaN = false ∧ value n.toFloat = delivered .binary64 ↑(n.toNat : ℝ) := by
  have h := (rounds_ofNat .binary64 n.toNat).delivers (by decide)
  exact ⟨h.isNaN, h.extended_eq⟩

theorem representable_intCast {n : ℤ} (h : |n| < 2 ^ 53) : Representable .binary64 n :=
  ⟨n, 0, h, minExponent_nonpos _, by simp⟩

theorem delivered_natCast (h : n < 2 ^ 53) : delivered .binary64 ↑(n : ℝ) = ↑(n : ℝ) := by
  refine delivered_representable (representable_intCast (n := n) ?_) ?_
  · rw [Nat.abs_cast]
    exact_mod_cast h
  · rw [Nat.abs_cast]
    exact_mod_cast h.trans (Nat.pow_lt_pow_right (by norm_num) (by norm_num))

theorem delivered_natCast_le (h : n ≤ 2 ^ 53) :
    delivered .binary64 ↑(n : ℝ) = ↑(n : ℝ) := by
  rcases h.lt_or_eq with hlt | rfl
  · exact delivered_natCast hlt
  · refine delivered_representable ⟨1, 53, by decide, by decide, by norm_num⟩ ?_
    rw [Nat.abs_cast]
    exact_mod_cast Nat.pow_lt_pow_right (by norm_num) (by norm_num)

theorem number_toFloat {n : UInt64} (h : n.toNat < 2 ^ 53) :
    n.toFloat.isFinite = true ∧ number n.toFloat = n.toNat := by
  obtain ⟨hn, hv⟩ := value_toFloat n
  rw [delivered_natCast h] at hv
  exact isFinite_of_value_eq hn hv

theorem number_one : (1.0 : Float).isFinite = true ∧ number 1.0 = 1 := by
  have h : (1.0 : Float).toModel.unpack = .finite .positive (2 ^ 52) (-52) (by norm_num) := rfl
  refine ⟨by decide, ?_⟩
  rw [number, h, real, signed]
  norm_num

theorem number_two : (2.0 : Float).isFinite = true ∧ number 2.0 = 2 := by
  have h : (2.0 : Float).toModel.unpack = .finite .positive (2 ^ 52) (-51) (by norm_num) := rfl
  refine ⟨by decide, ?_⟩
  rw [number, h, real, signed]
  norm_num

theorem number_double (h : x.isFinite = true) (hx : |number x| < 2 ^ 200) :
    (2.0 * x).isFinite = true ∧ number (2.0 * x) = 2 * number x := by
  obtain ⟨m, e, hm, he, hval⟩ := representable_number x
  have hr : Representable .binary64 (2 * number x) := by
    refine ⟨m, e + 1, hm, by omega, ?_⟩
    rw [hval, zpow_add_one₀ two_ne_zero]
    ring
  obtain ⟨hn, hv⟩ := value_mul number_two.1 h
  rw [number_two.2, delivered_representable hr] at hv
  · exact isFinite_of_value_eq hn hv
  · rw [abs_mul, abs_two]
    calc 2 * |number x| < 2 * 2 ^ 200 := by linarith
      _ = 2 ^ 201 := by ring
      _ < 2 ^ 1024 := pow_lt_pow_right₀ one_lt_two (by norm_num)

theorem rounds_ofScientific (h : 0 < n) :
    Rounds .binary64 (UnpackedFloat.ofScientific .binary64 n 0) n := by
  have hm : 0 < n <<< Format.mantissaBits .binary64 := by
    rw [Nat.shiftLeft_eq]
    positivity
  have hlong : 2 ^ Format.mantissaBitsWithoutImplicit .binary64 ≤
      n <<< Format.mantissaBits .binary64 * 10 ^ (0 : ℤ).toNat := by
    rw [Nat.shiftLeft_eq, two_pow_mantissaBits, Int.toNat_zero, pow_zero, mul_one]
    nlinarith [Nat.two_pow_pos (Format.mantissaBitsWithoutImplicit .binary64)]
  have hr : Rounds .binary64 (.mul .binary64
      (.finite .positive (n <<< Format.mantissaBits .binary64) (-Format.mantissaBits .binary64) hm)
      (.finite .positive (10 ^ (0 : ℤ).toNat) 0 (by norm_num))) _ :=
    rounds_mul_finite hm (by norm_num) (long_exponent_le hm (by norm_num) hlong)
  have hb : (0 : ℤ) ≤ 2 ^ Format.exponentBits .binary64 := by positivity
  have hval : real (.finite .positive (n <<< Format.mantissaBits .binary64)
      (-Format.mantissaBits .binary64) hm) *
      real (.finite .positive (10 ^ (0 : ℤ).toNat) 0 (by norm_num)) = n := by
    rw [real, real, signed, signed, Nat.shiftLeft_eq, zpow_neg, zpow_natCast]
    push_cast
    field_simp
  rw [hval] at hr
  rw [UnpackedFloat.ofScientific, dif_neg h.ne', if_neg (by norm_num), if_neg (by omega),
    if_pos le_rfl]
  exact hr

theorem value_natCast (n : ℕ) :
    (n : Float).isNaN = false ∧ value (n : Float) = delivered .binary64 ↑(n : ℝ) := by
  change (Float.ofScientific n false 0).isNaN = false ∧
    value (Float.ofScientific n false 0) = delivered .binary64 ↑(n : ℝ)
  by_cases h : n < 2 ^ 53
  · have hn : n.toUInt64.toNat = n := by
      rw [Nat.toUInt64, UInt64.toNat_ofNat', Nat.mod_eq_of_lt (by omega)]
    obtain ⟨hf, hv⟩ := number_toFloat (hn.symm ▸ h)
    have hm := value_mul hf number_one.1
    rw [number_one.2, mul_one, hv, hn] at hm
    rw [Float.ofScientific, dif_pos ⟨h, by norm_num⟩]
    exact hm
  · have hr := (rounds_ofScientific (show 0 < n by omega)).delivers (by decide)
    rw [Float.ofScientific, dif_neg (fun hc => h hc.1)]
    exact ⟨hr.isNaN, hr.extended_eq⟩

theorem natCast_mono {n m : ℕ} (h : n ≤ m) : (n : Float) ≤ (m : Float) := by
  obtain ⟨hn, hvn⟩ := value_natCast n
  obtain ⟨hm, hvm⟩ := value_natCast m
  rw [le_iff_of_number hn hm, hvn, hvm]
  exact delivered_mono (by exact_mod_cast h)

theorem natCast_nonneg (n : ℕ) : (0.0 : Float) ≤ (n : Float) :=
  trans_le (by decide +kernel) (natCast_mono n.zero_le)

theorem number_natCast (h : n < 2 ^ 53) : (n : Float).isFinite = true ∧ number (n : Float) = n := by
  obtain ⟨hn, hv⟩ := value_natCast n
  rw [delivered_natCast h] at hv
  exact isFinite_of_value_eq hn hv

theorem one_le_value_natCast (h : 1 ≤ n) : 1 ≤ value (n : Float) := by
  rw [(value_natCast n).2, ← EReal.coe_one, ← number_one.2, ← value_of_isFinite number_one.1,
    ← delivered_value 1.0, value_of_isFinite number_one.1, number_one.2]
  exact delivered_mono (by exact_mod_cast h)

theorem div_eq_one_of_number {y : Float} (hx : x.isFinite = true) (hy : y.isFinite = true)
    (h : number x = number y) (h0 : number y ≠ 0) : x / y = 1.0 := by
  have hrounds := rounds_div (canonical_toModel x) (canonical_toModel y) hx hy h0
  have hquotient : number x / number y = number 1.0 := by
    rw [h, div_self h0, number_one.2]
  have hone : real (UnpackedFloat.div .binary64 x.toModel.unpack y.toModel.unpack) = number 1.0 :=
    hrounds.real_eq.trans ((congrArg _ hquotient).trans (representable_number 1.0).rounded_eq)
  have hone_ne : number 1.0 ≠ 0 := number_one.2.trans_ne one_ne_zero
  have hunpack :=
    hrounds.canonical.eq_of_real_eq (canonical_toModel 1.0) hone (hone.trans_ne hone_ne)
  change Float.ofModel (.pack (UnpackedFloat.div .binary64 x.toModel.unpack y.toModel.unpack)) = 1.0
  rw [hunpack]
  decide
/-- A count is above what lies from one count up to but not including the next if it is above that
count. -/
theorem lt_natCast_iff {k : ℕ} (hle : (k : Float) ≤ x) (hlt : x < ((k + 1 : ℕ) : Float)) :
    x < (n : Float) ↔ k < n := by
  constructor
  · intro h
    by_contra! hn
    exact absurd (lt_iff.1 (trans_lt_le h (trans_le (natCast_mono hn) hle))).2 (lt_irrefl _)
  · intro h
    exact trans_lt_le hlt (natCast_mono h)

end Counts

section Parts

theorem roundToInt_positive (m : ℕ) (e : ℤ) : roundToInt .positive m e = ⌊(m : ℝ) * 2 ^ e⌋ := by
  have hval := decreaseExponent_value m e 0
  have hexp := decreaseExponent_exponent m e 0
  have hpow : (2 : ℝ) ^ (decreaseExponent m e 0).2 =
      (2 ^ (0 - (decreaseExponent m e 0).2).toNat)⁻¹ := by
    rw [← zpow_natCast, ← zpow_neg]
    congr 1
    omega
  have h := ((holds_exact (decreaseExponent m e 0).1).shiftRight
    (0 - (decreaseExponent m e 0).2).toNat).floor_eq
  rw [div_eq_mul_inv, ← hpow, hval] at h
  exact h.symm

theorem toInt_of_nonneg {u : UnpackedFloat} (a b : ℤ) (hf : u.isFinite = true)
    (h0 : 0 ≤ real u) : u.toInt a b = ⌊real u⌋ := by
  cases u with
  | infinity | notANumber => cases hf
  | zero s => exact Int.floor_zero.symm
  | finite s m e hm =>
    cases s with
    | positive => exact roundToInt_positive m e
    | negative => exact absurd h0 (not_le.2 (real_negative hm))

theorem toNat_toUInt64 (h : x.isFinite = true) (h0 : 0 ≤ number x) :
    x.toUInt64.toNat = min ⌊number x⌋₊ (2 ^ 64 - 1) := by
  change (UInt64.ofNatClamp (x.toModel.unpack.toInt 0 (UInt64.size - 1)).toNat).toNat = _
  rw [toInt_of_nonneg _ _ h h0, Int.floor_toNat, number, UInt64.ofNatClamp]
  split_ifs with hlt
  · rw [UInt64.toNat_ofNatLT, min_eq_left (show _ ≤ 2 ^ 64 - 1 from Nat.le_sub_one_of_lt hlt)]
  · rw [UInt64.toNat_ofNatLT, min_eq_right]
    · rfl
    · exact (Nat.sub_le _ _).trans (not_lt.1 hlt)

theorem representable_fract {spec : Format} {r : ℝ} (h0 : 0 ≤ r) (h : Representable spec r) :
    Representable spec (Int.fract r) := by
  obtain ⟨n, g, hn, hg, hr⟩ := h
  have hp : (0 : ℝ) < 2 ^ g := by positivity
  rcases le_or_gt 0 g with hg0 | hg0
  · have hw : r = ((n * 2 ^ g.toNat : ℤ) : ℝ) := by
      rw [hr]
      push_cast
      rw [← zpow_natCast, Int.toNat_of_nonneg hg0]
    rw [hw, Int.fract_intCast]
    exact .zero
  · have hunit : (2 : ℝ) ^ (-g).toNat * 2 ^ g = 1 := by
      rw [← zpow_natCast, ← zpow_add₀ two_ne_zero, Int.toNat_of_nonneg (by omega), neg_add_cancel,
        zpow_zero]
    have hfr : Int.fract r = ((n - ⌊r⌋ * 2 ^ (-g).toNat : ℤ) : ℝ) * 2 ^ g := by
      rw [Int.fract]
      push_cast
      rw [sub_mul, mul_assoc, hunit, mul_one, ← hr]
    refine ⟨_, g, ?_, hg, hfr⟩
    have hle : Int.fract r ≤ r := by
      rw [Int.fract, sub_le_self_iff]
      exact_mod_cast Int.floor_nonneg.2 h0
    have hge := Int.fract_nonneg r
    rw [hfr] at hle hge
    have h₁ : (0 : ℝ) ≤ ((n - ⌊r⌋ * 2 ^ (-g).toNat : ℤ) : ℝ) := nonneg_of_mul_nonneg_left hge hp
    have h₂ := le_of_mul_le_mul_right (hle.trans_eq hr) hp
    rw [abs_of_nonneg (by exact_mod_cast h₁)]
    exact (show _ ≤ n by exact_mod_cast h₂).trans_lt ((le_abs_self n).trans_lt hn)

theorem exists_eq_intCast (h : 2 ^ 52 ≤ |number x|) : ∃ n : ℤ, number x = n := by
  have hp : (2 : ℝ) ^ ((0 : ℤ) + (Format.mantissaBits .binary64 : ℤ) - 1) = 2 ^ 52 := by
    norm_num [Format.mantissaBits]
  obtain ⟨n, hn⟩ := (representable_number x).exists_units (.inr (hp.trans_le h))
  exact ⟨n, by simpa using hn⟩

theorem halfAway_intCast (n : ℤ) : halfAway n = n := by
  have h (k : ℤ) : ⌊(k : ℝ) + 1 / 2⌋ = k := by
    rw [Int.floor_eq_iff]
    constructor <;> linarith
  rw [halfAway]
  split_ifs
  · rw [← Int.cast_neg, h, neg_neg]
  · exact h n

theorem halfAway_mono {s t : ℝ} (h : s ≤ t) : halfAway s ≤ halfAway t := by
  rw [halfAway, halfAway]
  split_ifs with hs ht ht
  · exact neg_le_neg (Int.floor_le_floor (by linarith))
  · have hneg : (0 : ℤ) ≤ ⌊-s + 1 / 2⌋ := Int.floor_nonneg.2 (by linarith)
    have hpos : (0 : ℤ) ≤ ⌊t + 1 / 2⌋ := Int.floor_nonneg.2 (by linarith)
    omega
  · exact absurd (h.trans_lt ht) hs
  · exact Int.floor_le_floor (by linarith)

theorem halfAway_mem_iff {t : ℝ} {n : ℕ} :
    0 ≤ halfAway t ∧ halfAway t < n ↔ -(1 / 2) < t ∧ t < n - 1 / 2 := by
  have h0 : 0 ≤ halfAway t ↔ -(1 / 2) < t := by
    rw [halfAway]
    split_ifs with h
    · rw [Int.neg_nonneg, ← Int.lt_add_one_iff, Int.floor_lt]
      push_cast
      constructor <;> intro <;> linarith
    · rw [Int.floor_nonneg]
      constructor <;> intro <;> linarith
  rw [h0]
  refine and_congr_right fun ht => ?_
  rw [halfAway]
  split_ifs with h
  · have hfloor : ⌊-t + 1 / 2⌋ = 0 := by
      rw [Int.floor_eq_zero_iff]
      constructor <;> linarith
    rw [hfloor, neg_zero, Nat.cast_pos]
    rcases n.eq_zero_or_pos with rfl | hn
    · apply iff_of_false (lt_irrefl 0)
      rw [Nat.cast_zero, not_lt]
      linarith
    · have h1 : (1 : ℝ) ≤ n := Nat.one_le_cast.2 hn
      exact iff_of_true hn (by linarith)
  · rw [Int.floor_lt, Int.cast_natCast, lt_sub_iff_add_lt]

theorem halfAway_eq (t : ℝ) :
    (halfAway t : ℝ) = if t < 0 then -(⌊|t| + 1 / 2⌋ : ℝ) else ⌊|t| + 1 / 2⌋ := by
  rw [halfAway]
  split_ifs with h
  · rw [abs_of_neg h]
    push_cast
    rfl
  · rw [abs_of_nonneg (not_lt.1 h)]

theorem floor_add_half (t : ℝ) :
    (⌊t + 1 / 2⌋ : ℝ) = if Int.fract t < 1 / 2 then (⌊t⌋ : ℝ) else ⌊t⌋ + 1 := by
  have h := Int.floor_add_fract t
  have h0 := Int.fract_nonneg t
  have h1 := Int.fract_lt_one t
  split_ifs with hf
  · have : ⌊t + 1 / 2⌋ = ⌊t⌋ := by
      rw [Int.floor_eq_iff]
      constructor <;> linarith
    rw [this]
  · have : ⌊t + 1 / 2⌋ = ⌊t⌋ + 1 := by
      rw [Int.floor_eq_iff]
      push_cast
      constructor <;> linarith
    rw [this]
    push_cast
    rfl

theorem number_half : (0.5 : Float).isFinite = true ∧ number 0.5 = 1 / 2 := by
  have h : (0.5 : Float).toModel.unpack = .finite .positive (2 ^ 52) (-53) (by norm_num) := rfl
  refine ⟨by decide, ?_⟩
  rw [number, h, real, signed]
  norm_num

theorem number_wholeFrom : wholeFrom.isFinite = true ∧ number wholeFrom = 2 ^ 52 := by
  have h : wholeFrom.toModel.unpack = .finite .positive (2 ^ 52) 0 (by norm_num) := rfl
  refine ⟨by decide, ?_⟩
  rw [number, h, real, signed]
  norm_num

theorem number_wholePart (h : x.isFinite = true) (h0 : 0 ≤ number x) (hlt : number x < 2 ^ 52) :
    x.toUInt64.toFloat.isFinite = true ∧ number x.toUInt64.toFloat = ⌊number x⌋ := by
  have hfl : ⌊number x⌋₊ < 2 ^ 52 := by
    rw [Nat.floor_lt h0]
    exact_mod_cast hlt
  have hn : x.toUInt64.toNat = ⌊number x⌋₊ := by
    rw [toNat_toUInt64 h h0, min_eq_left (by omega)]
  obtain ⟨hf, hv⟩ := number_toFloat (n := x.toUInt64) (by omega)
  refine ⟨hf, ?_⟩
  rw [hv, hn, natCast_floor_eq_intCast_floor h0]

theorem number_succ (h : x.isFinite = true) {n : ℤ} (hn : number x = n) (h0 : 0 ≤ n)
    (hlt : n < 2 ^ 52) : (x + 1.0).isFinite = true ∧ number (x + 1.0) = n + 1 := by
  obtain ⟨hnan, hv⟩ := value_add_number h number_one.1
  have hc := delivered_natCast (n := (n + 1).toNat) (by omega)
  have hcast : (((n + 1).toNat : ℕ) : ℝ) = n + 1 := by
    exact_mod_cast congrArg (Int.cast : ℤ → ℝ) (Int.toNat_of_nonneg (show 0 ≤ n + 1 by omega))
  rw [hn, number_one.2, ← hcast, hc, hcast] at hv
  exact isFinite_of_value_eq hnan hv

theorem number_sub_wholePart (h : x.isFinite = true) (h0 : 0 ≤ number x)
    (hlt : number x < 2 ^ 52) : (x - x.toUInt64.toFloat).isFinite = true ∧
      number (x - x.toUInt64.toFloat) = Int.fract (number x) := by
  obtain ⟨hwf, hwn⟩ := number_wholePart h h0 hlt
  obtain ⟨hnan, hv⟩ := value_sub_number h hwf
  rw [hwn, Int.self_sub_floor,
    delivered_representable (representable_fract h0 (representable_number x))] at hv
  · exact isFinite_of_value_eq hnan hv
  · rw [abs_of_nonneg (Int.fract_nonneg _)]
    exact (Int.fract_lt_one _).trans (one_lt_pow₀ (by norm_num) (by norm_num))

theorem number_nearest_of_nonneg (h : x.isFinite = true) (h0 : 0 ≤ number x)
    (hlt : number x < 2 ^ 52) :
    let w := x.toUInt64.toFloat
    let r := if x - w < 0.5 then w else w + 1.0
    r.isFinite = true ∧ number r = ⌊number x + 1 / 2⌋ := by
  intro w r
  have hl0 : (0 : ℤ) ≤ ⌊number x⌋ := Int.floor_nonneg.2 h0
  have hl : ⌊number x⌋ < 2 ^ 52 := Int.floor_lt.2 (by exact_mod_cast hlt)
  obtain ⟨hwf, hwn⟩ := number_wholePart h h0 hlt
  obtain ⟨hsf, hsn⟩ := number_sub_wholePart h h0 hlt
  obtain ⟨hpf, hpn⟩ := number_succ hwf hwn hl0 hl
  have hhalf : x - w < 0.5 ↔ Int.fract (number x) < 1 / 2 := by
    rw [lt_iff_number hsf number_half.1, hsn, number_half.2]
  rw [floor_add_half]
  change (if x - w < 0.5 then w else w + 1.0).isFinite = true ∧
    number (if x - w < 0.5 then w else w + 1.0) = _
  split_ifs with h₁ h₂ h₂
  · exact ⟨hwf, hwn⟩
  · exact absurd (hhalf.1 h₁) h₂
  · exact absurd (hhalf.2 h₂) h₁
  · exact ⟨hpf, hpn⟩

theorem number_nearest (h : x.isFinite = true) :
    (nearest x).isFinite = true ∧ number (nearest x) = halfAway (number x) := by
  have hm : x.abs.isFinite = true := by rw [isFinite_abs, h]
  obtain ⟨hwf, hwn⟩ := number_wholeFrom
  have hiff : x.abs < wholeFrom ↔ number x.abs < 2 ^ 52 := by rw [lt_iff_number hm hwf, hwn]
  by_cases hlt : number x.abs < 2 ^ 52
  · obtain ⟨r, hr, hrf, hrn⟩ : ∃ r, nearest x = (if x < 0.0 then -r else r) ∧
        r.isFinite = true ∧ number r = ⌊number x.abs + 1 / 2⌋ := by
      have h0 : 0 ≤ number x.abs := number_abs x ▸ abs_nonneg _
      refine ⟨_, ?_, number_nearest_of_nonneg hm h0 hlt⟩
      rw [nearest, if_pos (hiff.2 hlt)]
    have hneg := lt_iff_number h isFinite_zero
    rw [number_zero] at hneg
    rw [hr, halfAway_eq, ← number_abs, ← hrn]
    split_ifs with h₁ h₂ h₂
    · exact ⟨isFinite_neg hrf, number_neg r⟩
    · exact absurd (hneg.1 h₁) h₂
    · exact absurd (hneg.2 h₂) h₁
    · exact ⟨hrf, rfl⟩
  · obtain ⟨n, hn⟩ := exists_eq_intCast (x := x) (by rwa [number_abs, not_lt] at hlt)
    rw [nearest, if_neg (fun hc => hlt (hiff.1 hc)), hn, halfAway_intCast]
    exact ⟨h, rfl⟩

theorem nearest_of_not_isFinite (h : ¬ x.isFinite = true) : nearest x = x := by
  have hm : ¬ x.abs < wholeFrom := by
    intro hlt
    obtain ⟨⟨hn, -⟩, hv⟩ := lt_iff.1 hlt
    have hb : value x.abs ≠ ⊥ := by
      rw [value, unpack_abs]
      cases x.toModel.unpack with
      | finite => exact EReal.coe_ne_bot _
      | zero => exact EReal.zero_ne_bot
      | notANumber => exact EReal.zero_ne_bot
      | infinity => exact top_ne_bot
    rw [← isFinite_abs] at h
    exact h (isFinite_iff.2 ⟨hn, hb, ne_top_of_lt hv⟩)
  rw [nearest, if_neg hm]

theorem toNat_toInt (h : x.isFinite = true) (h0 : 0 ≤ number x) :
    (toInt x).toNat = min ⌊number x⌋₊ 9223372036854775807 := by
  have hm : x.abs.isFinite = true := by rw [isFinite_abs, h]
  have ha : number x.abs = number x := by rw [number_abs, abs_of_nonneg h0]
  have hneg : ¬ x < 0.0 := by
    rw [lt_iff_number h isFinite_zero, number_zero, not_lt]
    exact h0
  rw [toInt, if_neg hneg, toNat_toUInt64 hm (ha ▸ h0), ha]
  omega

theorem toNat_toInt_le (h : x.isFinite = true) (h0 : 0 ≤ number x) :
    ((toInt x).toNat : ℝ) ≤ number x := by
  have hm : x.abs.isFinite = true := by rw [isFinite_abs, h]
  have ha : number x.abs = number x := by rw [number_abs, abs_of_nonneg h0]
  have hneg : ¬ x < 0.0 := by
    rw [lt_iff_number h isFinite_zero, number_zero, not_lt]
    exact h0
  have hle : (toInt x).toNat ≤ ⌊number x⌋₊ := by
    rw [toInt, if_neg hneg, toNat_toUInt64 hm (ha ▸ h0), ha]
    omega
  exact (Nat.cast_le.2 hle).trans (Nat.floor_le h0)

/-- A whole part below a rounded count is below the count. -/
theorem toNat_toInt_lt {count : ℕ} (h0 : 0.0 ≤ x) (h : x < (count : Float)) :
    (toInt x).toNat < count := by
  obtain ⟨⟨-, hnan⟩, hle⟩ := le_iff.1 h0
  have hlt := (lt_iff.1 h).2
  rw [value_zero] at hle
  have hf : x.isFinite = true :=
    isFinite_iff.2 ⟨hnan, ne_bot_of_gt (EReal.bot_lt_zero.trans_le hle), ne_top_of_lt hlt⟩
  have hd := delivered_value x
  rw [value_of_isFinite hf] at hle hlt hd
  rw [(value_natCast count).2] at hlt
  by_contra hge
  have hcount : (count : ℝ) ≤ number x :=
    (Nat.cast_le.2 (not_lt.1 hge)).trans (toNat_toInt_le hf (by exact_mod_cast hle))
  have hmono : delivered .binary64 _ ≤ delivered .binary64 _ :=
    delivered_mono (EReal.coe_le_coe_iff.2 hcount)
  rw [hd] at hmono
  exact absurd hlt (not_lt.2 hmono)

theorem number_truncate_of_nonneg (h : x.isFinite = true) (h0 : 0 ≤ number x)
    (hlt : number x < 2 ^ 52) :
    (truncate x).isFinite = true ∧ number (truncate x) = ⌊number x⌋ := by
  have hm : x.abs.isFinite = true := by rw [isFinite_abs, h]
  have ha : number x.abs = number x := by rw [number_abs, abs_of_nonneg h0]
  obtain ⟨hwf, hwn⟩ := number_wholeFrom
  have hneg : ¬ x < 0.0 := by
    rw [lt_iff_number h isFinite_zero, number_zero, not_lt]
    exact h0
  have hsmall : x.abs < wholeFrom := (lt_iff_number hm hwf).2 (by rwa [ha, hwn])
  rw [truncate, if_pos hsmall, if_neg hneg, ← ha]
  exact number_wholePart hm (ha ▸ h0) (ha ▸ hlt)

theorem number_ceil_of_nonneg (h : x.isFinite = true) (h0 : 0 ≤ number x)
    (hlt : number x < 2 ^ 52) : (ceil x).isFinite = true ∧ number (ceil x) = ⌈number x⌉ := by
  obtain ⟨hwf, hwn⟩ := number_truncate_of_nonneg h h0 hlt
  have hl : ⌊number x⌋ < 2 ^ 52 := Int.floor_lt.2 (by exact_mod_cast hlt)
  rw [ceil]
  split_ifs with hc
  · rw [lt_iff_number hwf h, hwn] at hc
    have hceil : ⌈number x⌉ = ⌊number x⌋ + 1 := by
      rw [Int.ceil_eq_iff]
      push_cast
      exact ⟨by linarith, (Int.lt_floor_add_one _).le⟩
    rw [hceil]
    push_cast
    exact number_succ hwf hwn (Int.floor_nonneg.2 h0) hl
  · rw [lt_iff_number hwf h, hwn, not_lt] at hc
    have heq := le_antisymm (Int.floor_le (number x)) hc
    refine ⟨hwf, ?_⟩
    rw [hwn, ← heq, Int.ceil_intCast, Int.floor_intCast]

theorem toNat_toInt_eq (h : x.isFinite = true) (hn : number x = n) (hlt : n < 2 ^ 53) :
    (toInt x).toNat = n := by
  have hm : x.abs.isFinite = true := by rw [isFinite_abs, h]
  have ha : number x.abs = n := by rw [number_abs, hn, Nat.abs_cast]
  have hneg : ¬ x < 0.0 := by
    rw [lt_iff_number h isFinite_zero, number_zero, not_lt, hn]
    exact n.cast_nonneg
  rw [toInt, if_neg hneg, toNat_toUInt64 hm (ha ▸ n.cast_nonneg), ha, Nat.floor_natCast]
  omega

end Parts

end Relief.Binary
