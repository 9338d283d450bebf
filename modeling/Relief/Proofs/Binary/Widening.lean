import Relief.Proofs.Binary.Value

namespace Relief.Binary

open Float.Model Float.Model.UnpackedFloat

/-- The extended real number of a binary32; 0 for what is not a number. -/
noncomputable def singleValue (x : Float32) : EReal :=
  extended x.toModel.unpack

section Order

variable {x y : Float32}

theorem canonical_single (x : Float32) : Canonical .binary32 x.toModel.unpack :=
  canonical_unpack _

theorem inRange_single (x : Float32) : InRange .binary32 x.toModel.unpack :=
  inRange_unpack (by decide) _

theorem single_lt_iff :
    x < y ↔ (x.isNaN = false ∧ y.isNaN = false) ∧ singleValue x < singleValue y :=
  decide_eq_true_iff.trans (lt_eq_true_iff (canonical_single x) (canonical_single y))

theorem single_le_iff :
    x ≤ y ↔ (x.isNaN = false ∧ y.isNaN = false) ∧ singleValue x ≤ singleValue y :=
  decide_eq_true_iff.trans (le_eq_true_iff (canonical_single x) (canonical_single y))

theorem single_beq_iff :
    (x == y) = true ↔ (x.isNaN = false ∧ y.isNaN = false) ∧ singleValue x = singleValue y :=
  beq_eq_true_iff (canonical_single x) (canonical_single y)

end Order

section Fit

variable {spec : Format} {u : UnpackedFloat}

theorem delivers_fit (hw : 1 < spec.exponentBits) (hn : u.isNaN = false) :
    Delivers spec (fit spec u) (extended u) := by
  cases u with
  | notANumber => cases hn
  | infinity s => exact delivers_infinity s
  | zero s =>
    have h : Rounds spec (.zero s) 0 := ⟨rfl, trivial, rounded_zero.symm⟩
    exact h.delivers hw
  | finite s m e hm =>
    have h : Rounds spec (UnpackedFloat.normalize spec (s.apply m) e s) _ :=
      rounds_normalize (s.apply m) e s
    rw [cast_apply, ← signed_mul, Int.cast_natCast] at h
    exact h.delivers hw

end Fit

section Passage

theorem representable_widened {r : ℝ} (h : Representable .binary32 r) :
    Representable .binary64 r := by
  obtain ⟨n, g, hn, hg, rfl⟩ := h
  exact ⟨n, g, hn.trans (by decide), le_trans (by decide) hg, rfl⟩

theorem delivered_singleValue (x : Float32) :
    delivered .binary64 (singleValue x) = singleValue x := by
  have hr := representable_widened (canonical_single x).representable
  have hl : limit .binary32 ≤ 2 ^ 1024 := pow_le_pow_right₀ (by norm_num) (by decide)
  have hd := delivered_representable hr
    ((abs_real_lt_limit (by decide) (canonical_single x) (inRange_single x)).trans_le hl)
  rw [singleValue]
  cases hu : x.toModel.unpack with
  | finite s m e hm =>
    rw [hu] at hd
    exact hd
  | zero s =>
    rw [hu] at hd
    exact hd
  | notANumber =>
    rw [hu] at hd
    exact hd
  | infinity s =>
    cases s with
    | positive => exact delivered_top
    | negative => exact delivered_bot

theorem value_widen {x : Float32} (h : x.isNaN = false) :
    (widen x).isNaN = false ∧ value (widen x) = singleValue x := by
  have hd : Delivers .binary64 (fit .binary64 x.toModel.unpack) _ := delivers_fit (by decide) h
  exact ⟨hd.isNaN, hd.extended_eq.trans (delivered_singleValue x)⟩

theorem singleValue_narrow {y : Float} (h : y.isNaN = false) :
    (narrow y).isNaN = false ∧ singleValue (narrow y) = delivered .binary32 (value y) := by
  have hd : Delivers .binary32 (fit .binary32 y.toModel.unpack) _ := delivers_fit (by decide) h
  exact ⟨hd.isNaN, hd.extended_eq⟩

theorem narrow_mono {x y : Float} (h : x ≤ y) : narrow x ≤ narrow y := by
  obtain ⟨⟨hnx, hny⟩, hle⟩ := le_iff.1 h
  obtain ⟨hn, hv⟩ := singleValue_narrow hnx
  obtain ⟨hn', hv'⟩ := singleValue_narrow hny
  rw [single_le_iff, hv, hv']
  exact ⟨⟨hn, hn'⟩, delivered_mono hle⟩

theorem narrow_nonneg {y : Float} (h : y.isNaN = false) (h0 : 0 ≤ value y) : 0.0 ≤ narrow y := by
  have hzero : narrow 0.0 = 0.0 := by decide +kernel
  rw [← hzero]
  exact narrow_mono (le_iff.2 ⟨⟨isNaN_zero, h⟩, value_zero ▸ h0⟩)

end Passage

end Relief.Binary
