import Relief.Proofs.Binary.Arithmetic

namespace Relief.Binary

open Float.Model Float.Model.UnpackedFloat

/-- The exponent as it is stored, from 1 on; the greatest one is kept for infinities. -/
def storedExponent (spec : Format) (e : ℤ) : ℤ :=
  e + spec.exponentBias + spec.mantissaBitsWithoutImplicit

def InRange (spec : Format) : UnpackedFloat → Prop
  | .finite _ _ e _ => storedExponent spec e + 1 < (2 ^ spec.exponentBits : ℕ)
  | _ => True

variable {spec : Format}

theorem two_pow_exponentBits (spec : Format) :
    2 ^ spec.exponentBits = 2 * (spec.exponentBias + 1) := by
  have he := spec.he
  have hp : 0 < 2 ^ (spec.exponentBits - 1) := by positivity
  rw [Format.exponentBias, Nat.sub_add_cancel hp, ← pow_succ']
  congr 1
  omega

theorem two_pow_mantissaBits (spec : Format) :
    2 ^ spec.mantissaBits = 2 * 2 ^ spec.mantissaBitsWithoutImplicit := by
  rw [Format.mantissaBits, pow_add, pow_one]

theorem storedExponent_minExponent (spec : Format) :
    storedExponent spec spec.minExponent = 1 := by
  have hp : 0 < 2 ^ (spec.exponentBits - 1) := by positivity
  have hb : ((2 ^ (spec.exponentBits - 1) : ℕ) : ℤ) = spec.exponentBias + 1 := by
    rw [Format.exponentBias]
    omega
  push_cast at hb
  rw [storedExponent, Format.minExponent, hb, Format.mantissaBits]
  push_cast
  ring

theorem log2_add_one_eq_mantissaBits {m : ℕ} (hm : 0 < m) (h : m < 2 ^ spec.mantissaBits) :
    m.log2 + 1 = spec.mantissaBits ↔ 2 ^ spec.mantissaBitsWithoutImplicit ≤ m := by
  rw [← Nat.le_log2 hm.ne']
  have := (Nat.log2_lt hm.ne').2 h
  rw [Format.mantissaBits] at *
  omega

@[simp] theorem ofBitVec_toBitVec (s : Sign) : Sign.ofBitVec s.toBitVec = s := by
  cases s <;> rfl

@[simp] theorem unpackSign_packComponents (s : Sign) (e : BitVec spec.exponentBits)
    (m : BitVec spec.mantissaBitsWithoutImplicit) :
    unpackSign (packComponents spec s e m) = s.toBitVec := by
  ext i hi
  have : i = 0 := by omega
  subst this
  simp [unpackSign, packComponents, BitVec.getElem_append, BitVec.getLsbD_append]

theorem toNat_append_implicit {n : ℕ} (m : BitVec n) : (1#1 ++ m).toNat = 2 ^ n + m.toNat := by
  rw [BitVec.toNat_append, ← Nat.shiftLeft_add_eq_or_of_lt m.isLt]
  simp [Nat.shiftLeft_eq]

theorem eq_allOnes_iff {n : ℕ} (e : BitVec n) : e = -1#n ↔ e.toNat + 1 = 2 ^ n := by
  have hp : 0 < 2 ^ n := by positivity
  rw [BitVec.neg_one_eq_allOnes, ← BitVec.toNat_inj, BitVec.toNat_allOnes]
  omega

theorem eq_zero_iff {n : ℕ} (e : BitVec n) : e = 0#n ↔ e.toNat = 0 := by
  rw [← BitVec.toNat_inj, BitVec.toNat_ofNat, Nat.zero_mod]

theorem zero_ne_allOnes : ¬ (0#(spec.exponentBits) = -1#_) := by
  have : 2 ^ 1 ≤ 2 ^ spec.exponentBits := Nat.pow_le_pow_right (by norm_num) spec.he
  rw [eq_allOnes_iff, BitVec.toNat_ofNat, Nat.zero_mod]
  omega

theorem canonical_unpack (b : BitVec spec.numBits) :
    Canonical spec (UnpackedFloat.unpack spec b) := by
  have hp := two_pow_mantissaBits spec
  have hmin := storedExponent_minExponent spec
  have hm := (unpackMantissa b).isLt
  rw [storedExponent] at hmin
  rw [UnpackedFloat.unpack]
  split_ifs with h₁ h₂ h₃ h₄
  · trivial
  · trivial
  · trivial
  · rw [eq_zero_iff] at h₃
    exact ⟨by omega, by omega, .inr (by omega)⟩
  · rw [eq_zero_iff] at h₃
    rw [Canonical, toNat_append_implicit]
    exact ⟨by omega, by omega, .inl (by omega)⟩

theorem inRange_unpack (hw : 1 < spec.exponentBits) (b : BitVec spec.numBits) :
    InRange spec (UnpackedFloat.unpack spec b) := by
  have hlt := (unpackExponent b).isLt
  have hw' : 2 ^ 2 ≤ 2 ^ spec.exponentBits := Nat.pow_le_pow_right (by norm_num) hw
  rw [UnpackedFloat.unpack]
  split_ifs with h₁ h₂ h₃ h₄
  · trivial
  · trivial
  · trivial
  · rw [eq_zero_iff] at h₃
    rw [InRange, storedExponent]
    omega
  · rw [eq_allOnes_iff] at h₁
    rw [InRange, storedExponent]
    omega

theorem unpack_infinity (s : Sign) :
    UnpackedFloat.unpack spec (packedInfinity spec s) = .infinity s := by
  simp [UnpackedFloat.unpack, packedInfinity]

theorem unpack_zero (s : Sign) : UnpackedFloat.unpack spec (packedZero spec s) = .zero s := by
  simp [UnpackedFloat.unpack, packedZero, spec.he.ne']

theorem unpack_notANumber :
    UnpackedFloat.unpack spec (packedNaN spec) = .notANumber := by
  have hm := spec.hm
  have hn : ¬ (1#(spec.mantissaBitsWithoutImplicit) <<<
      (spec.mantissaBitsWithoutImplicit - 1) = 0#_) := by
    intro h
    have h' := congrArg (fun v => v.getLsbD (spec.mantissaBitsWithoutImplicit - 1)) h
    simp at h'
    omega
  simp [UnpackedFloat.unpack, packedNaN, hn]

theorem unpack_subnormal (s : Sign) {m : ℕ} (hm : 0 < m)
    (h : m < 2 ^ spec.mantissaBitsWithoutImplicit) :
    UnpackedFloat.unpack spec (packComponents spec s 0#_ (BitVec.ofNat _ m)) =
      .finite s m spec.minExponent hm := by
  have hmin := storedExponent_minExponent spec
  have hzero : ¬ (BitVec.ofNat spec.mantissaBitsWithoutImplicit m = 0#_) := by
    rw [eq_zero_iff, BitVec.toNat_ofNat, Nat.mod_eq_of_lt h]
    omega
  rw [storedExponent] at hmin
  rw [UnpackedFloat.unpack]
  simp only [unpackMantissa_packComponents, unpackExponent_packComponents,
    unpackSign_packComponents, ofBitVec_toBitVec, zero_ne_allOnes, if_false, if_true, dif_neg hzero,
    BitVec.toNat_ofNat, Nat.mod_eq_of_lt h, Nat.zero_mod]
  congr 1
  push_cast
  omega

theorem unpack_normal (s : Sign) {m e : ℕ} (hm : 0 < m)
    (hlo : 2 ^ spec.mantissaBitsWithoutImplicit ≤ m) (hlt : m < 2 ^ spec.mantissaBits)
    (he : 0 < e) (he' : e + 1 < 2 ^ spec.exponentBits) :
    UnpackedFloat.unpack spec (packComponents spec s (BitVec.ofNat _ e) (BitVec.ofNat _ m)) =
      .finite s m (e - (spec.exponentBias + spec.mantissaBitsWithoutImplicit)) hm := by
  have hp := two_pow_mantissaBits spec
  have hmod : 2 ^ spec.mantissaBitsWithoutImplicit +
      m % 2 ^ spec.mantissaBitsWithoutImplicit = m := by
    rw [Nat.mod_eq_sub_mod hlo, Nat.mod_eq_of_lt (by omega)]
    omega
  have hexp : (BitVec.ofNat spec.exponentBits e).toNat = e := by
    rw [BitVec.toNat_ofNat, Nat.mod_eq_of_lt (by omega)]
  have hones : ¬ (BitVec.ofNat spec.exponentBits e = -1#_) := by
    rw [eq_allOnes_iff, hexp]
    omega
  have hzero : ¬ (BitVec.ofNat spec.exponentBits e = 0#_) := by
    rw [eq_zero_iff, hexp]
    omega
  rw [UnpackedFloat.unpack]
  simp only [unpackMantissa_packComponents, unpackExponent_packComponents,
    unpackSign_packComponents, ofBitVec_toBitVec, if_neg hones, if_neg hzero, hexp,
    toNat_append_implicit, BitVec.toNat_ofNat, hmod]

/-- What is packed in canonical form and within the range is read back. -/
theorem unpack_pack {u : UnpackedFloat} (h : Canonical spec u) (hr : InRange spec u) :
    UnpackedFloat.unpack spec (UnpackedFloat.pack spec u) = u := by
  cases u with
  | notANumber => exact unpack_notANumber
  | infinity s => exact unpack_infinity s
  | zero s => exact unpack_zero s
  | finite s m e hm =>
    have hmin := storedExponent_minExponent spec
    obtain ⟨hlt, hle, hlo⟩ := h
    have hlog := log2_add_one_eq_mantissaBits hm hlt
    simp only [InRange, storedExponent] at hr hmin
    rw [UnpackedFloat.pack]
    rw [if_neg (by omega)]
    by_cases hn : 2 ^ spec.mantissaBitsWithoutImplicit ≤ m
    · rw [if_pos (hlog.2 hn), unpack_normal s hm hn hlt (by omega) (by omega)]
      congr 1
      omega
    · rw [if_neg (fun h => hn (hlog.1 h)), unpack_subnormal s hm (by omega)]
      congr 1
      exact (hlo.resolve_left hn).symm

theorem unpack_pack_beyond {s : Sign} {m : ℕ} {e : ℤ} {hm : 0 < m}
    (h : ¬ InRange spec (.finite s m e hm)) :
    UnpackedFloat.unpack spec (UnpackedFloat.pack spec (.finite s m e hm)) = .infinity s := by
  simp only [InRange, storedExponent] at h
  rw [UnpackedFloat.pack, if_pos (by omega)]
  exact unpack_infinity s

theorem exponent_le_of_eq {m m' : ℕ} {e e' : ℤ} (h : (m : ℝ) * 2 ^ e = m' * 2 ^ e')
    (hlt : m' < 2 ^ spec.mantissaBits) (hmin : spec.minExponent ≤ e')
    (hn : 2 ^ spec.mantissaBitsWithoutImplicit ≤ m ∨ e = spec.minExponent) : e ≤ e' := by
  by_contra! hgt
  have hnormal : 2 ^ spec.mantissaBitsWithoutImplicit ≤ m := hn.resolve_right (by omega)
  have htwo : (2 : ℝ) ≤ 2 ^ (e - e') := by
    calc (2 : ℝ) = 2 ^ (1 : ℤ) := (zpow_one 2).symm
      _ ≤ 2 ^ (e - e') := zpow_le_zpow_right₀ one_le_two (by omega)
  have hquotient : (m' : ℝ) = m * 2 ^ (e - e') := by
    rw [zpow_sub₀ two_ne_zero, mul_div_assoc', h, mul_div_cancel_right₀]
    positivity
  have hlong : (2 * m : ℝ) ≤ m' := by
    rw [hquotient, mul_comm]
    exact mul_le_mul_of_nonneg_left htwo m.cast_nonneg
  have hlong : 2 * m ≤ m' := by exact_mod_cast hlong
  rw [two_pow_mantissaBits] at hlt
  omega

theorem Canonical.eq_of_real_eq {u v : UnpackedFloat} (hu : Canonical spec u)
    (hv : Canonical spec v) (h : real u = real v) (h0 : real u ≠ 0) : u = v := by
  have h0' : real v ≠ 0 := h ▸ h0
  cases u with
  | infinity | notANumber | zero => exact absurd rfl h0
  | finite s m e hm =>
    cases v with
    | infinity | notANumber | zero => exact absurd rfl h0'
    | finite s' m' e' hm' =>
      have hpos : (0 : ℝ) < m * 2 ^ e := by positivity
      have hpos' : (0 : ℝ) < m' * 2 ^ e' := by positivity
      have hsame : s = s' ∧ (m : ℝ) * 2 ^ e = m' * 2 ^ e' := by
        cases s <;> cases s' <;> simp only [real, signed] at h
        · exact ⟨rfl, neg_inj.1 h⟩
        · linarith
        · linarith
        · exact ⟨rfl, h⟩
      obtain ⟨rfl, hvalue⟩ := hsame
      obtain rfl : e = e' := le_antisymm (exponent_le_of_eq hvalue hv.1 hv.2.1 hu.2.2)
        (exponent_le_of_eq hvalue.symm hu.1 hu.2.1 hv.2.2)
      have hmantissa : (m : ℝ) = m' := mul_right_cancel₀ (by positivity) hvalue
      obtain rfl : m = m' := by exact_mod_cast hmantissa
      rfl

end Relief.Binary
