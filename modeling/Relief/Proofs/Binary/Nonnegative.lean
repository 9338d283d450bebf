import Relief.Proofs.Binary.Bounds
import Relief.Proofs.Binary.Iteration
import Relief.Proofs.Binary.Opposite
import Relief.Proofs.Binary.Whole
import Relief.Proofs.Binary.Widening

namespace Relief.Binary

open Float.Model Float.Model.UnpackedFloat

variable {x y z s r : Float}

section Operands

theorem unpack_of_isNaN (h : ¬ x.isNaN = false) : x.toModel.unpack = .notANumber := by
  change ¬ x.toModel.unpack.isNaN = false at h
  cases hu : x.toModel.unpack with
  | notANumber => rfl
  | infinity | zero | finite =>
    rw [hu] at h
    exact absurd rfl h

/-- An operation that keeps what is no number yields numbers from numbers alone. -/
theorem numbers_of_result {f : UnpackedFloat → UnpackedFloat → UnpackedFloat}
    (hl : ∀ v, f .notANumber v = .notANumber) (hr : ∀ u, f u .notANumber = .notANumber)
    (hf : r = .ofModel (.pack (f x.toModel.unpack y.toModel.unpack))) (hn : r.isNaN = false) :
    x.isNaN = false ∧ y.isNaN = false := by
  have hnot : f x.toModel.unpack y.toModel.unpack ≠ .notANumber := by
    intro hu
    rw [hf, hu] at hn
    exact absurd hn (by decide)
  constructor
  · by_contra hx
    rw [unpack_of_isNaN hx] at hnot
    exact hnot (hl _)
  · by_contra hy
    rw [unpack_of_isNaN hy] at hnot
    exact hnot (hr _)

theorem numbers_of_add (h : (x + y).isNaN = false) : x.isNaN = false ∧ y.isNaN = false :=
  numbers_of_result (f := UnpackedFloat.add .binary64) (fun _ => rfl) (fun u => by cases u <;> rfl)
    rfl h

theorem numbers_of_sub (h : (x - y).isNaN = false) : x.isNaN = false ∧ y.isNaN = false :=
  numbers_of_result (f := UnpackedFloat.sub .binary64) (fun _ => rfl) (fun u => by cases u <;> rfl)
    rfl h

theorem numbers_of_mul (h : (x * y).isNaN = false) : x.isNaN = false ∧ y.isNaN = false :=
  numbers_of_result (f := UnpackedFloat.mul .binary64) (fun _ => rfl) (fun u => by cases u <;> rfl)
    rfl h

theorem isNaN_sub_of_isNaN (h : ¬ x.isNaN = false) (y : Float) : (x - y).isNaN = true := by
  by_contra hn
  exact h (numbers_of_sub (eq_false_of_ne_true hn)).1

theorem isNaN_sub_tops (hx : x.isNaN = false) (hy : y.isNaN = false) (htx : value x = ⊤)
    (hty : value y = ⊤) : (x - y).isNaN = true := by
  have hsub : UnpackedFloat.sub .binary64 x.toModel.unpack y.toModel.unpack = .notANumber := by
    rw [unpack_of_top hx htx, unpack_of_top hy hty]
    rfl
  change (Float.ofModel (.pack (UnpackedFloat.sub .binary64 x.toModel.unpack
    y.toModel.unpack))).isNaN = true
  rw [hsub]
  decide

end Operands

theorem nonneg_of_not_neg (hn : x.isNaN = false) (h : ¬ x < 0.0) : 0.0 ≤ x :=
  le_of_not_lt_of_number hn isNaN_zero h

theorem not_neg_of_nonneg (h : 0.0 ≤ x) : ¬ x < 0.0 :=
  fun hneg => absurd (lt_iff.1 (trans_le_lt h hneg)).2 (lt_irrefl _)

theorem add_ne_bot (hx : value x ≠ ⊥) (hs : ¬ s < 0.0) : value (x + s) ≠ ⊥ := by
  by_cases hn : (x + s).isNaN = false
  · obtain ⟨hnx, hns⟩ := numbers_of_add hn
    exact ne_bot_of_le_ne_bot hx (le_value_add hnx hx (nonneg_of_not_neg hns hs)).2
  · rw [value, unpack_of_isNaN hn]
    exact EReal.zero_ne_bot

theorem not_add_lt (h : ¬ x < z) (hs : ¬ s < 0.0) : ¬ x + s < z := by
  intro hlt
  obtain ⟨⟨hn, hz⟩, hv⟩ := lt_iff.1 hlt
  obtain ⟨hx, hns⟩ := numbers_of_add hn
  apply h
  rw [lt_iff_of_number hx hz]
  by_cases hb : value x = ⊥
  · exact (hb ▸ bot_le).trans_lt hv
  · exact (le_value_add hx hb (nonneg_of_not_neg hns hs)).2.trans_lt hv

theorem not_lt_sub (h : ¬ z < x) (hs : ¬ s < 0.0) : ¬ z < x - s := by
  intro hlt
  obtain ⟨⟨hz, hn⟩, hv⟩ := lt_iff.1 hlt
  obtain ⟨hx, hns⟩ := numbers_of_sub hn
  apply h
  rw [lt_iff_of_number hz hx]
  have hfinite : value x ≠ ⊤ ∨ value s ≠ ⊤ := by
    by_contra hboth
    rw [not_or, not_not, not_not] at hboth
    have hnan := isNaN_sub_tops hx hns hboth.1 hboth.2
    rw [hn] at hnan
    cases hnan
  exact hv.trans_le (value_sub_le hx (nonneg_of_not_neg hns hs) hfinite).2

/-- What is not negative is a zero, a positive number or infinitely large. -/
theorem unpack_of_nonneg (h : 0.0 ≤ x) : (∃ σ, x.toModel.unpack = .zero σ) ∨
    (∃ m e hm, x.toModel.unpack = .finite .positive m e hm) ∨
      x.toModel.unpack = .infinity .positive := by
  obtain ⟨⟨-, hn⟩, hv⟩ := le_iff.1 h
  rw [value_zero] at hv
  have hb : value x ≠ ⊥ := ne_bot_of_gt (EReal.bot_lt_zero.trans_le hv)
  rcases isFinite_or_top hn hb with hf | ht
  · rw [value_of_isFinite (show x.isFinite = true from hf), EReal.coe_nonneg, number] at hv
    cases hu : x.toModel.unpack with
    | zero σ => exact .inl ⟨σ, rfl⟩
    | infinity | notANumber =>
      rw [hu] at hf
      cases hf
    | finite σ m e hm =>
      cases σ with
      | positive => exact .inr (.inl ⟨m, e, hm, rfl⟩)
      | negative =>
        rw [hu] at hv
        exact absurd hv (not_le.2 (real_negative hm))
  · exact .inr (.inr ht)

theorem not_mul_neg (hx : ¬ x < 0.0) (hy : ¬ y < 0.0) : ¬ x * y < 0.0 := by
  intro hlt
  obtain ⟨⟨hn, -⟩, hv⟩ := lt_iff.1 hlt
  rw [value_zero] at hv
  obtain ⟨hnx, hny⟩ := numbers_of_mul hn
  have hx0 := nonneg_of_not_neg hnx hx
  have hy0 := nonneg_of_not_neg hny hy
  by_cases hf : x.isFinite = true ∧ y.isFinite = true
  · have hprod : delivered .binary64 _ ≤ delivered .binary64 _ :=
      delivered_mono (EReal.coe_le_coe_iff.2 (mul_nonneg
        ((le_iff_number isFinite_zero hf.1).1 hx0) ((le_iff_number isFinite_zero hf.2).1 hy0)))
    rw [EReal.coe_zero, delivered_zero, ← (value_mul hf.1 hf.2).2] at hprod
    exact absurd hv (not_lt.2 hprod)
  -- with an infinity among the factors the product is infinite too, or no number
  · have hmul : UnpackedFloat.mul .binary64 x.toModel.unpack y.toModel.unpack =
        .infinity .positive ∨ UnpackedFloat.mul .binary64 x.toModel.unpack y.toModel.unpack =
        .notANumber := by
      change ¬ (x.toModel.unpack.isFinite = true ∧ y.toModel.unpack.isFinite = true) at hf
      rcases unpack_of_nonneg hx0 with ⟨σ, hu⟩ | ⟨m, e, hm, hu⟩ | hu <;>
        rcases unpack_of_nonneg hy0 with ⟨τ, hv⟩ | ⟨n, g, hn, hv⟩ | hv <;>
        rw [hu, hv] at hf ⊢
      · exact absurd ⟨rfl, rfl⟩ hf
      · exact absurd ⟨rfl, rfl⟩ hf
      · exact .inr rfl
      · exact absurd ⟨rfl, rfl⟩ hf
      · exact absurd ⟨rfl, rfl⟩ hf
      · exact .inl rfl
      · exact .inr rfl
      · exact .inl rfl
      · exact .inl rfl
    change Float.ofModel (.pack (UnpackedFloat.mul .binary64 x.toModel.unpack
      y.toModel.unpack)) < 0.0 at hlt
    rcases hmul with h | h
    · rw [h] at hlt
      exact absurd hlt (by decide)
    · rw [h] at hlt
      exact absurd hlt (by decide)

section Zeros

theorem unpack_of_beq_zero (h : (x == 0.0) = true) : ∃ σ, x.toModel.unpack = .zero σ := by
  obtain ⟨⟨hn, -⟩, hv⟩ := beq_iff.1 h
  rw [value_zero] at hv
  have h0 : 0.0 ≤ x := le_iff.2 ⟨⟨isNaN_zero, hn⟩, value_zero ▸ hv.ge⟩
  rw [value] at hv
  rcases unpack_of_nonneg h0 with ⟨σ, hu⟩ | ⟨m, e, hm, hu⟩ | hu
  · exact ⟨σ, hu⟩
  · rw [hu] at hv
    have hpos : (0 : ℝ) < m * 2 ^ e := by positivity
    exact absurd (EReal.coe_eq_zero.1 hv) hpos.ne'
  · rw [hu] at hv
    exact absurd hv EReal.top_ne_zero

theorem div_beq_zero (h : (x == 0.0) = true) (hn : (x / y).isNaN = false) :
    (x / y == 0.0) = true := by
  obtain ⟨σ, hu⟩ := unpack_of_beq_zero h
  have hdiv : (∃ τ, UnpackedFloat.div .binary64 x.toModel.unpack y.toModel.unpack = .zero τ) ∨
      UnpackedFloat.div .binary64 x.toModel.unpack y.toModel.unpack = .notANumber := by
    rw [hu]
    cases y.toModel.unpack with
    | notANumber | zero => exact .inr rfl
    | infinity | finite => exact .inl ⟨_, rfl⟩
  change (Float.ofModel (.pack (UnpackedFloat.div .binary64 x.toModel.unpack
    y.toModel.unpack))).isNaN = false at hn
  change (Float.ofModel (.pack (UnpackedFloat.div .binary64 x.toModel.unpack
    y.toModel.unpack)) == 0.0) = true
  rcases hdiv with ⟨τ, h⟩ | h
  · rw [h]
    cases τ <;> decide
  · rw [h] at hn
    exact absurd hn (by decide)

theorem sub_beq_zero (hx : x.isFinite = true) (h : (x == y) = true) : (x - y == 0.0) = true := by
  obtain ⟨⟨-, hny⟩, hv⟩ := beq_iff.1 h
  rw [value_of_isFinite hx] at hv
  obtain ⟨hy, hnumber⟩ := isFinite_of_value_eq hny hv.symm
  obtain ⟨hn, hsub⟩ := value_sub_number hx hy
  rw [hnumber, sub_self, EReal.coe_zero, delivered_zero] at hsub
  exact beq_iff.2 ⟨⟨hn, isNaN_zero⟩, hsub.trans value_zero.symm⟩

theorem zero_add_of_beq_zero (h : (x == 0.0) = true) : 0.0 + x = 0.0 := by
  obtain ⟨σ, hu⟩ := unpack_of_beq_zero h
  change Float.ofModel (.pack (UnpackedFloat.add .binary64 (0.0 : Float).toModel.unpack
    x.toModel.unpack)) = 0.0
  rw [hu]
  cases σ <;> decide

theorem zero_div_natCast {n : ℕ} (h : 1 ≤ n) : 0.0 / (n : Float) = 0.0 := by
  have h1 := one_le_value_natCast h
  have hpos : (0 : EReal) < value (n : Float) := one_pos.trans_le h1
  change Float.ofModel (.pack (UnpackedFloat.div .binary64 (0.0 : Float).toModel.unpack
    (n : Float).toModel.unpack)) = 0.0
  rcases unpack_of_nonneg (natCast_nonneg n) with ⟨σ, hu⟩ | ⟨m, e, hm, hu⟩ | hu
  · rw [value, hu] at hpos
    exact absurd hpos (lt_irrefl 0)
  · have hdiv : UnpackedFloat.div .binary64 (0.0 : Float).toModel.unpack
        (.finite .positive m e hm) = .zero .positive := rfl
    rw [hu, hdiv]
    decide
  · rw [hu]
    decide

end Zeros

section Narrowing

variable {c : Float}

theorem narrow_beq_zero (h : (x == 0.0) = true) : (narrow x == 0.0) = true := by
  obtain ⟨σ, hu⟩ := unpack_of_beq_zero h
  rw [narrow, hu]
  cases σ with
  | positive => decide
  | negative => decide

theorem not_narrow_beq_zero_of_le (h : x ≤ c) (hc : narrow c < 0.0) :
    ¬ (narrow x == 0.0) = true := by
  intro heq
  have hle := (single_le_iff.1 (narrow_mono h)).2
  exact (hle.trans_lt (single_lt_iff.1 hc).2).ne (single_beq_iff.1 heq).2

theorem not_narrow_beq_zero_of_ge (h : c ≤ x) (hc : 0.0 < narrow c) :
    ¬ (narrow x == 0.0) = true := by
  intro heq
  have hle := (single_le_iff.1 (narrow_mono h)).2
  exact ((single_lt_iff.1 hc).2.trans_le hle).ne' (single_beq_iff.1 heq).2

end Narrowing

end Relief.Binary
