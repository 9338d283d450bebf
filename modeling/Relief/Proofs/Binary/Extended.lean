import Relief.Proofs.Binary.Packing

namespace Relief.Binary

open Float.Model Float.Model.UnpackedFloat

variable {spec : Format} {u v : UnpackedFloat}

/-- The extended real number of an unpacked value; 0 for what is not a number. -/
noncomputable def extended : UnpackedFloat → EReal
  | .infinity .positive => ⊤
  | .infinity .negative => ⊥
  | .finite s m e h => real (.finite s m e h)
  | .zero _ => 0
  | .notANumber => 0

theorem extended_of_isFinite (h : u.isFinite = true) : extended u = real u := by
  cases u with
  | finite s m e hm => rfl
  | zero s => rfl
  | infinity s => cases h
  | notANumber => cases h

section Order

theorem real_pos {m : ℕ} {e : ℤ} (hm : 0 < m) : 0 < real (.finite .positive m e hm) := by
  have : (0 : ℝ) < m := by exact_mod_cast hm
  exact mul_pos this (by positivity)

theorem real_negative {m : ℕ} {e : ℤ} (hm : 0 < m) : real (.finite .negative m e hm) < 0 :=
  neg_neg_of_pos (real_pos (e := e) hm)

theorem real_finite_ne_zero {s : Sign} {m : ℕ} {e : ℤ} (hm : 0 < m) :
    real (.finite s m e hm) ≠ 0 := by
  cases s with
  | positive => exact (real_pos hm).ne'
  | negative => exact (real_negative hm).ne

theorem real_lt_of_exponent_lt {m m' : ℕ} {e e' : ℤ} {hm : 0 < m} {hm' : 0 < m'}
    (h : Canonical spec (.finite .positive m e hm))
    (h' : Canonical spec (.finite .positive m' e' hm')) (he : e < e') :
    real (.finite .positive m e hm) < real (.finite .positive m' e' hm') := by
  have hlo := h'.2.2.resolve_right (by have := h.2.1; omega)
  have h₁ : (m : ℝ) < 2 ^ spec.mantissaBits := by exact_mod_cast h.1
  have h₂ : (2 : ℝ) ^ spec.mantissaBitsWithoutImplicit ≤ m' := by exact_mod_cast hlo
  have hp : (2 : ℝ) ^ spec.mantissaBits = 2 ^ spec.mantissaBitsWithoutImplicit * 2 := by
    exact_mod_cast (two_pow_mantissaBits spec).trans (Nat.mul_comm _ _)
  calc (m : ℝ) * 2 ^ e
      < 2 ^ spec.mantissaBits * 2 ^ e := by gcongr
    _ = 2 ^ spec.mantissaBitsWithoutImplicit * 2 ^ (e + 1) := by
        rw [hp, zpow_add_one₀ (by norm_num)]
        ring
    _ ≤ m' * 2 ^ e' := by
        gcongr
        · norm_num
        · omega

theorem compares_positive {m m' : ℕ} {e e' : ℤ} {hm : 0 < m} {hm' : 0 < m'}
    (h : Canonical spec (.finite .positive m e hm))
    (h' : Canonical spec (.finite .positive m' e' hm')) :
    ((compare e e').then (compare m m')).Compares (real (.finite .positive m e hm))
      (real (.finite .positive m' e' hm')) := by
  rcases lt_trichotomy e e' with he | rfl | he
  · rw [compare_lt_iff_lt.2 he]
    exact real_lt_of_exponent_lt h h' he
  · have hp : (0 : ℝ) < 2 ^ e := by positivity
    rw [compare_eq_iff_eq.2 rfl, Ordering.eq_then]
    rcases lt_trichotomy m m' with hlt | rfl | hlt
    · rw [compare_lt_iff_lt.2 hlt]
      exact mul_lt_mul_of_pos_right (by exact_mod_cast hlt) hp
    · rw [compare_eq_iff_eq.2 rfl]
      exact rfl
    · rw [compare_gt_iff_gt.2 hlt]
      exact mul_lt_mul_of_pos_right (by exact_mod_cast hlt) hp
  · rw [compare_gt_iff_gt.2 he]
    exact real_lt_of_exponent_lt h' h he

theorem compares_neg {o : Ordering} {x y : ℝ} (h : o.Compares x y) : o.swap.Compares (-x) (-y) := by
  cases o with
  | lt => exact neg_lt_neg h
  | eq => exact congrArg Neg.neg h
  | gt => exact neg_lt_neg h

theorem compares_coe {o : Ordering} {x y : ℝ} (h : o.Compares x y) :
    o.Compares (x : EReal) (y : EReal) := by
  cases o with
  | lt => exact EReal.coe_lt_coe_iff.2 h
  | eq => exact congrArg _ h
  | gt => exact EReal.coe_lt_coe_iff.2 h

theorem compares_finite {s s' : Sign} {m m' : ℕ} {e e' : ℤ} {hm : 0 < m} {hm' : 0 < m'}
    (h : Canonical spec (.finite s m e hm)) (h' : Canonical spec (.finite s' m' e' hm')) :
    ∃ o, UnpackedFloat.compare (.finite s m e hm) (.finite s' m' e' hm') = some o ∧
      o.Compares (real (.finite s m e hm)) (real (.finite s' m' e' hm')) := by
  cases s with
  | positive =>
    cases s' with
    | positive => exact ⟨_, rfl, compares_positive h h'⟩
    | negative => exact ⟨_, rfl, (real_negative hm').trans (real_pos hm)⟩
  | negative =>
    cases s' with
    | positive => exact ⟨_, rfl, (real_negative hm).trans (real_pos hm')⟩
    | negative =>
      have hc : Ordering.Compares _ (real (.finite .positive m e hm))
          (real (.finite .positive m' e' hm')) := compares_positive h h'
      exact ⟨_, rfl, compares_neg hc⟩

theorem compares_extended (hu : Canonical spec u) (hv : Canonical spec v)
    (hnu : u.isNaN = false) (hnv : v.isNaN = false) :
    ∃ o, u.compare v = some o ∧ o.Compares (extended u) (extended v) := by
  cases u with
  | notANumber => cases hnu
  | infinity s =>
    cases v with
    | notANumber => cases hnv
    | infinity s' =>
      cases s <;> cases s'
      · exact ⟨.eq, rfl, rfl⟩
      · exact ⟨.lt, rfl, bot_lt_top⟩
      · exact ⟨.gt, rfl, bot_lt_top⟩
      · exact ⟨.eq, rfl, rfl⟩
    | zero s' => cases s <;> exact ⟨_, rfl, by simp [extended]⟩
    | finite s' m e hm => cases s <;> exact ⟨_, rfl, by simp [extended]⟩
  | zero s =>
    cases v with
    | notANumber => cases hnv
    | infinity s' => cases s' <;> exact ⟨_, rfl, by simp [extended]⟩
    | zero s' => exact ⟨_, rfl, rfl⟩
    | finite s' m e hm =>
      cases s' with
      | positive => exact ⟨_, rfl, EReal.coe_pos.2 (real_pos hm)⟩
      | negative => exact ⟨_, rfl, EReal.coe_neg'.2 (real_negative hm)⟩
  | finite s m e hm =>
    cases v with
    | notANumber => cases hnv
    | infinity s' => cases s' <;> exact ⟨_, rfl, by simp [extended]⟩
    | zero s' =>
      cases s with
      | positive => exact ⟨_, rfl, EReal.coe_pos.2 (real_pos hm)⟩
      | negative => exact ⟨_, rfl, EReal.coe_neg'.2 (real_negative hm)⟩
    | finite s' m' e' hm' =>
      obtain ⟨o, ho, hc⟩ := compares_finite hu hv
      exact ⟨o, ho, compares_coe hc⟩

theorem compare_of_isNaN (h : ¬ (u.isNaN = false ∧ v.isNaN = false)) : u.compare v = none := by
  cases u with
  | notANumber => rfl
  | infinity s | zero s | finite s m e hm =>
    cases v with
    | notANumber => rfl
    | infinity s' | zero s' | finite s' m' e' hm' => exact absurd ⟨rfl, rfl⟩ h

theorem lt_eq_true_iff (hu : Canonical spec u) (hv : Canonical spec v) :
    u.lt v = true ↔ (u.isNaN = false ∧ v.isNaN = false) ∧ extended u < extended v := by
  by_cases h : u.isNaN = false ∧ v.isNaN = false
  · obtain ⟨o, ho, hc⟩ := compares_extended hu hv h.1 h.2
    rw [UnpackedFloat.lt, ho, and_iff_right h, ← hc.eq_lt]
    cases o <;> decide
  · rw [UnpackedFloat.lt, compare_of_isNaN h]
    simp [h]

theorem le_eq_true_iff (hu : Canonical spec u) (hv : Canonical spec v) :
    u.le v = true ↔ (u.isNaN = false ∧ v.isNaN = false) ∧ extended u ≤ extended v := by
  by_cases h : u.isNaN = false ∧ v.isNaN = false
  · obtain ⟨o, ho, hc⟩ := compares_extended hu hv h.1 h.2
    rw [UnpackedFloat.le, ho, and_iff_right h, ← not_lt, ← hc.eq_gt]
    cases o <;> decide
  · rw [UnpackedFloat.le, compare_of_isNaN h]
    simp [h]

theorem beq_eq_true_iff (hu : Canonical spec u) (hv : Canonical spec v) :
    u.beq v = true ↔ (u.isNaN = false ∧ v.isNaN = false) ∧ extended u = extended v := by
  by_cases h : u.isNaN = false ∧ v.isNaN = false
  · obtain ⟨o, ho, hc⟩ := compares_extended hu hv h.1 h.2
    rw [UnpackedFloat.beq, ho, and_iff_right h, ← hc.eq_eq]
    cases o <;> decide
  · rw [UnpackedFloat.beq, compare_of_isNaN h]
    simp [h]

end Order

section Range

/-- What lies beyond the range becomes infinite. -/
noncomputable def clip (spec : Format) (x : EReal) : EReal :=
  if limit spec ≤ x then ⊤ else if x ≤ -limit spec then ⊥ else x

theorem limit_pos (spec : Format) : 0 < limit spec := by
  rw [limit]
  positivity

theorem clip_of_le {x : EReal} (h : limit spec ≤ x) : clip spec x = ⊤ :=
  if_pos h

theorem clip_of_le_neg {x : EReal} (h : x ≤ -limit spec) : clip spec x = ⊥ := by
  have hl := limit_pos spec
  have hl' : (-limit spec : EReal) < limit spec := by exact_mod_cast (neg_neg_of_pos hl).trans hl
  rw [clip, if_neg (not_le.2 (h.trans_lt hl')), if_pos h]

theorem clip_of_lt {x : EReal} (h : -limit spec < x) (h' : x < limit spec) : clip spec x = x := by
  rw [clip, if_neg (not_le.2 h'), if_neg (not_le.2 h)]

theorem clip_mono {x y : EReal} (h : x ≤ y) : clip spec x ≤ clip spec y := by
  rcases le_or_gt (limit spec : EReal) y with hy | hy
  · rw [clip_of_le hy]
    exact le_top
  · rcases le_or_gt x (-limit spec) with hx | hx
    · rw [clip_of_le_neg hx]
      exact bot_le
    · rw [clip_of_lt hx (h.trans_lt hy), clip_of_lt (hx.trans_le h) hy]
      exact h

theorem limit_eq (spec : Format) :
    limit spec = 2 ^ spec.mantissaBits *
      2 ^ ((2 ^ spec.exponentBits : ℕ) - 2 - spec.exponentBias -
        spec.mantissaBitsWithoutImplicit : ℤ) := by
  rw [limit, ← zpow_natCast, ← zpow_natCast, ← zpow_add₀ (by norm_num), two_pow_exponentBits,
    Format.mantissaBits]
  congr 1
  push_cast
  ring

theorem inRange_iff {s : Sign} {m : ℕ} {e : ℤ} {hm : 0 < m} (hw : 1 < spec.exponentBits)
    (h : Canonical spec (.finite s m e hm)) :
    InRange spec (.finite s m e hm) ↔ (m : ℝ) * 2 ^ e < limit spec := by
  have hp := two_pow_mantissaBits spec
  have hmin := storedExponent_minExponent spec
  have hw' : 2 ^ 2 ≤ 2 ^ spec.exponentBits := Nat.pow_le_pow_right (by norm_num) hw
  obtain ⟨hlt, hle, hlo⟩ := h
  have hlt' : (m : ℝ) < 2 ^ spec.mantissaBits := by exact_mod_cast hlt
  simp only [InRange, storedExponent] at hmin ⊢
  rw [limit_eq]
  constructor
  · intro hr
    calc (m : ℝ) * 2 ^ e
        < 2 ^ spec.mantissaBits * 2 ^ e := by gcongr
      _ ≤ _ := by
          gcongr
          · norm_num
          · omega
  · intro hr
    by_contra hn
    have hlo' : (2 : ℝ) ^ spec.mantissaBitsWithoutImplicit ≤ m := by
      exact_mod_cast hlo.resolve_right (by omega)
    have hp' : (2 : ℝ) ^ spec.mantissaBits = 2 ^ spec.mantissaBitsWithoutImplicit * 2 := by
      exact_mod_cast hp.trans (Nat.mul_comm _ _)
    apply hr.not_ge
    rw [hp', mul_assoc, mul_comm (2 : ℝ), ← zpow_add_one₀ (by norm_num)]
    gcongr
    · norm_num
    · omega

theorem clip_coe {x : ℝ} (h : |x| < limit spec) : clip spec x = x := by
  rw [abs_lt] at h
  exact clip_of_lt (by exact_mod_cast h.1) (by exact_mod_cast h.2)

theorem eq_of_clip_eq {r t : ℝ} (h : clip spec r = t) : r = t := by
  rcases le_or_gt (limit spec : EReal) r with hhi | hhi
  · rw [clip_of_le hhi] at h
    exact absurd h (EReal.coe_ne_top t).symm
  · rcases le_or_gt (r : EReal) (-limit spec) with hlo | hlo
    · rw [clip_of_le_neg hlo] at h
      exact absurd h (EReal.coe_ne_bot t).symm
    · rw [clip_of_lt hlo hhi] at h
      exact EReal.coe_eq_coe_iff.1 h

theorem abs_real_lt_limit (hw : 1 < spec.exponentBits) (h : Canonical spec u)
    (hr : InRange spec u) : |real u| < limit spec := by
  cases u with
  | finite s m e hm =>
    rw [← real_abs]
    exact (inRange_iff hw h).1 hr
  | infinity s | zero s | notANumber => simpa [real] using limit_pos spec

theorem clip_extended (hw : 1 < spec.exponentBits) (h : Canonical spec u) (hr : InRange spec u) :
    clip spec (extended u) = extended u := by
  have hl := abs_real_lt_limit hw h hr
  cases u with
  | finite s m e hm => exact clip_coe hl
  | zero s | notANumber => exact clip_coe (x := 0) hl
  | infinity s =>
    cases s with
    | positive => exact clip_of_le le_top
    | negative => exact clip_of_le_neg bot_le

theorem extended_unpack_pack (hw : 1 < spec.exponentBits) (h : Canonical spec u) :
    extended (UnpackedFloat.unpack spec (UnpackedFloat.pack spec u)) = clip spec (extended u) := by
  by_cases hr : InRange spec u
  · rw [unpack_pack h hr, clip_extended hw h hr]
  · cases u with
    | finite s m e hm =>
      rw [unpack_pack_beyond hr]
      rw [inRange_iff hw h, not_lt] at hr
      cases s with
      | positive => exact (clip_of_le (EReal.coe_le_coe_iff.2 hr)).symm
      | negative => exact (clip_of_le_neg (EReal.coe_le_coe_iff.2 (neg_le_neg hr))).symm
    | infinity s | zero s | notANumber => exact absurd trivial hr

theorem isNaN_unpack_pack (h : Canonical spec u) :
    (UnpackedFloat.unpack spec (UnpackedFloat.pack spec u)).isNaN = u.isNaN := by
  by_cases hr : InRange spec u
  · rw [unpack_pack h hr]
  · cases u with
    | finite s m e hm =>
      rw [unpack_pack_beyond hr]
      rfl
    | infinity s | zero s | notANumber => exact absurd trivial hr

end Range

section Delivered

/-- What a computation with an exact result delivers: its rounded value, infinite beyond the range.
-/
noncomputable def delivered (spec : Format) (x : EReal) : EReal :=
  if x = ⊤ ∨ x = ⊥ then x else clip spec (rounded spec x.toReal)

@[simp] theorem delivered_top : delivered spec ⊤ = ⊤ :=
  if_pos (.inl rfl)

@[simp] theorem delivered_bot : delivered spec ⊥ = ⊥ :=
  if_pos (.inr rfl)

@[simp] theorem delivered_coe (x : ℝ) : delivered spec x = clip spec (rounded spec x) := by
  rw [delivered, if_neg (by simp), EReal.toReal_coe]

theorem delivered_mono {x y : EReal} (h : x ≤ y) : delivered spec x ≤ delivered spec y := by
  induction x with
  | bot =>
    rw [delivered_bot]
    exact bot_le
  | top =>
    rw [top_le_iff.1 h]
  | coe x =>
    induction y with
    | bot => exact absurd h (by simp)
    | top =>
      rw [delivered_top]
      exact le_top
    | coe y =>
      rw [delivered_coe, delivered_coe]
      exact clip_mono (EReal.coe_le_coe_iff.2 (rounded_mono (EReal.coe_le_coe_iff.1 h)))

theorem delivered_extended (hw : 1 < spec.exponentBits) (h : Canonical spec u)
    (hr : InRange spec u) : delivered spec (extended u) = extended u := by
  have hc := clip_extended hw h hr
  have hx := h.representable.rounded_eq
  cases u with
  | finite s m e hm =>
    rw [extended_of_isFinite rfl] at hc ⊢
    rw [delivered_coe, hx, hc]
  | zero s =>
    rw [extended_of_isFinite rfl] at hc ⊢
    rw [delivered_coe, hx, hc]
  | notANumber =>
    rw [show extended .notANumber = ((0 : ℝ) : EReal) from rfl] at hc ⊢
    rw [delivered_coe, rounded_zero, hc]
  | infinity s =>
    cases s with
    | positive => exact delivered_top
    | negative => exact delivered_bot

/-- Packed and read back, the value is a number: the one that the exact result delivers. -/
structure Delivers (spec : Format) (u : UnpackedFloat) (x : EReal) : Prop where
  isNaN : (UnpackedFloat.unpack spec (UnpackedFloat.pack spec u)).isNaN = false
  extended_eq : extended (UnpackedFloat.unpack spec (UnpackedFloat.pack spec u)) = delivered spec x

theorem Rounds.delivers {x : ℝ} (hw : 1 < spec.exponentBits) (h : Rounds spec u x) :
    Delivers spec u x where
  isNaN := by
    rw [isNaN_unpack_pack h.canonical]
    cases u with
    | finite s m e hm => rfl
    | zero s => rfl
    | infinity s => cases h.isFinite
    | notANumber => cases h.isFinite
  extended_eq := by
    rw [extended_unpack_pack hw h.canonical, extended_of_isFinite h.isFinite, h.real_eq,
      delivered_coe]

theorem delivers_infinity (s : Sign) : Delivers spec (.infinity s) (extended (.infinity s)) where
  isNaN := by
    change (UnpackedFloat.unpack spec (packedInfinity spec s)).isNaN = false
    rw [unpack_infinity]
    rfl
  extended_eq := by
    change extended (UnpackedFloat.unpack spec (packedInfinity spec s)) = _
    rw [unpack_infinity]
    cases s with
    | positive => exact delivered_top.symm
    | negative => exact delivered_bot.symm

theorem isFinite_or_top (hn : u.isNaN = false) (hb : extended u ≠ ⊥) :
    u.isFinite = true ∨ u = .infinity .positive := by
  cases u with
  | finite s m e hm => exact .inl rfl
  | zero s => exact .inl rfl
  | notANumber => cases hn
  | infinity s =>
    cases s with
    | positive => exact .inr rfl
    | negative => exact absurd rfl hb

theorem isFinite_or_bot (hn : u.isNaN = false) (ht : extended u ≠ ⊤) :
    u.isFinite = true ∨ u = .infinity .negative := by
  cases u with
  | finite s m e hm => exact .inl rfl
  | zero s => exact .inl rfl
  | notANumber => cases hn
  | infinity s =>
    cases s with
    | positive => exact absurd rfl ht
    | negative => exact .inr rfl

theorem delivers_add (hw : 1 < spec.exponentBits) (hu : Canonical spec u) (hv : Canonical spec v)
    (hnu : u.isNaN = false) (hnv : v.isNaN = false) (hbu : extended u ≠ ⊥)
    (hbv : extended v ≠ ⊥) :
    Delivers spec (UnpackedFloat.add spec u v) (extended u + extended v) := by
  have htop : Delivers spec (.infinity .positive) ⊤ := delivers_infinity .positive
  rcases isFinite_or_top hnu hbu with hu' | rfl
  · rcases isFinite_or_top hnv hbv with hv' | rfl
    · have h := (rounds_add hu hv hu' hv').delivers hw
      rwa [EReal.coe_add, ← extended_of_isFinite hu', ← extended_of_isFinite hv'] at h
    · have h : UnpackedFloat.add spec u (.infinity .positive) = .infinity .positive := by
        cases u with
        | finite | zero => rfl
        | infinity | notANumber => cases hu'
      rwa [h, extended_of_isFinite hu', extended, EReal.coe_add_top]
  · rcases isFinite_or_top hnv hbv with hv' | rfl
    · have h : UnpackedFloat.add spec (.infinity .positive) v = .infinity .positive := by
        cases v with
        | finite | zero => rfl
        | infinity | notANumber => cases hv'
      rwa [h, extended_of_isFinite hv', extended, EReal.top_add_coe]
    · exact htop

theorem delivers_sub (hw : 1 < spec.exponentBits) (hu : Canonical spec u) (hv : Canonical spec v)
    (hnu : u.isNaN = false) (hnv : v.isNaN = false) (hbu : extended u ≠ ⊥)
    (htv : extended v ≠ ⊤) :
    Delivers spec (UnpackedFloat.sub spec u v) (extended u - extended v) := by
  have htop : Delivers spec (.infinity .positive) ⊤ := delivers_infinity .positive
  rcases isFinite_or_top hnu hbu with hu' | rfl
  · rcases isFinite_or_bot hnv htv with hv' | rfl
    · have h := (rounds_sub hu hv hu' hv').delivers hw
      rwa [EReal.coe_sub, ← extended_of_isFinite hu', ← extended_of_isFinite hv'] at h
    · have h : UnpackedFloat.sub spec u (.infinity .negative) = .infinity .positive := by
        cases u with
        | finite | zero => rfl
        | infinity | notANumber => cases hu'
      rwa [h, extended_of_isFinite hu', extended, EReal.coe_sub_bot]
  · rcases isFinite_or_bot hnv htv with hv' | rfl
    · have h : UnpackedFloat.sub spec (.infinity .positive) v = .infinity .positive := by
        cases v with
        | finite | zero => rfl
        | infinity | notANumber => cases hv'
      rwa [h, extended_of_isFinite hv', extended, EReal.top_sub_coe]
    · exact htop

/-- A difference falls to negative infinity where an infinity is subtracted or was there before. -/
theorem sub_eq_negative (hu : u.isNaN = false) (hv : v.isNaN = false)
    (h : extended u = ⊥ ∧ extended v ≠ ⊥ ∨ extended u ≠ ⊤ ∧ extended v = ⊤) :
    UnpackedFloat.sub spec u v = .infinity .negative := by
  have hcoe (w : UnpackedFloat) (hw : w.isFinite = true) : extended w ≠ ⊥ ∧ extended w ≠ ⊤ := by
    rw [extended_of_isFinite hw]
    exact ⟨EReal.coe_ne_bot _, EReal.coe_ne_top _⟩
  rcases h with ⟨hb, hv'⟩ | ⟨hu', ht⟩
  · have hu'' : u = .infinity .negative := by
      rcases isFinite_or_bot hu (hb ▸ bot_ne_top) with h | h
      · exact absurd hb (hcoe u h).1
      · exact h
    subst hu''
    rcases isFinite_or_top hv hv' with h | rfl
    · cases v with
      | finite | zero => rfl
      | infinity | notANumber => cases h
    · rfl
  · have hv'' : v = .infinity .positive := by
      rcases isFinite_or_top hv (ht ▸ top_ne_bot) with h | h
      · exact absurd ht (hcoe v h).2
      · exact h
    subst hv''
    rcases isFinite_or_bot hu hu' with h | rfl
    · cases u with
      | finite | zero => rfl
      | infinity | notANumber => cases h
    · rfl

end Delivered

end Relief.Binary
