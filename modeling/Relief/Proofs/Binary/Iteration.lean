import Relief.Proofs.Binary.Value

namespace Relief.Binary

open Float.Model Float.Model.UnpackedFloat

variable {x y s : Float}

section Infinite

variable {spec : Format} {u v : UnpackedFloat}

theorem infinity_add (σ : Sign) (v : UnpackedFloat) :
    UnpackedFloat.add spec (.infinity σ) v = .infinity σ ∨
      UnpackedFloat.add spec (.infinity σ) v = .notANumber := by
  cases v with
  | notANumber => exact .inr rfl
  | zero | finite => exact .inl rfl
  | infinity σ' =>
    cases σ <;> cases σ'
    · exact .inl rfl
    · exact .inr rfl
    · exact .inr rfl
    · exact .inl rfl

theorem add_infinity (u : UnpackedFloat) (σ : Sign) :
    UnpackedFloat.add spec u (.infinity σ) = .infinity σ ∨
      UnpackedFloat.add spec u (.infinity σ) = .notANumber := by
  cases u with
  | notANumber => exact .inr rfl
  | zero | finite => exact .inl rfl
  | infinity σ' =>
    cases σ <;> cases σ'
    · exact .inl rfl
    · exact .inr rfl
    · exact .inr rfl
    · exact .inl rfl

theorem isFinite_unpack_special (h : (∃ σ, u = .infinity σ) ∨ u = .notANumber) :
    ¬ (UnpackedFloat.unpack spec (UnpackedFloat.pack spec u)).isFinite = true := by
  rcases h with ⟨σ, rfl⟩ | rfl
  · rw [UnpackedFloat.pack, unpack_infinity]
    exact Bool.false_ne_true
  · rw [UnpackedFloat.pack, unpack_notANumber]
    exact Bool.false_ne_true

theorem isFinite_of_add (h : (x + s).isFinite = true) : x.isFinite = true ∧ s.isFinite = true := by
  change (UnpackedFloat.unpack .binary64 (UnpackedFloat.pack .binary64
    (UnpackedFloat.add .binary64 x.toModel.unpack s.toModel.unpack))).isFinite = true at h
  constructor
  · by_contra hx
    refine isFinite_unpack_special ?_ h
    change ¬ x.toModel.unpack.isFinite = true at hx
    cases hu : x.toModel.unpack with
    | zero | finite => exact absurd (hu ▸ rfl) hx
    | notANumber => exact .inr rfl
    | infinity σ => exact (infinity_add σ _).imp_left fun h => ⟨σ, h⟩
  · by_contra hs
    refine isFinite_unpack_special ?_ h
    change ¬ s.toModel.unpack.isFinite = true at hs
    cases hu : s.toModel.unpack with
    | zero | finite => exact absurd (hu ▸ rfl) hs
    | notANumber =>
      refine .inr ?_
      cases x.toModel.unpack <;> rfl
    | infinity σ => exact (add_infinity _ σ).imp_left fun h => ⟨σ, h⟩

theorem number_add (h : (x + s).isFinite = true) :
    number (x + s) = rounded .binary64 (number x + number s) := by
  obtain ⟨hx, hs⟩ := isFinite_of_add h
  have hv := (value_add_number hx hs).2
  rw [value_of_isFinite h, delivered_coe] at hv
  exact (eq_of_clip_eq hv.symm).symm

theorem mul_special (h : u.isFinite = false ∨ v.isFinite = false) :
    (∃ σ, UnpackedFloat.mul spec u v = .infinity σ) ∨
      UnpackedFloat.mul spec u v = .notANumber := by
  cases u with
  | notANumber => exact .inr rfl
  | infinity =>
    cases v with
    | notANumber | zero => exact .inr rfl
    | infinity | finite => exact .inl ⟨_, rfl⟩
  | zero =>
    cases v with
    | notANumber | infinity => exact .inr rfl
    | zero | finite => exact absurd h (by simp [UnpackedFloat.isFinite])
  | finite =>
    cases v with
    | notANumber => exact .inr rfl
    | infinity => exact .inl ⟨_, rfl⟩
    | zero | finite => exact absurd h (by simp [UnpackedFloat.isFinite])

theorem isFinite_of_mul (h : (x * s).isFinite = true) : x.isFinite = true ∧ s.isFinite = true := by
  rw [← Bool.and_eq_true]
  by_contra hnot
  rw [Bool.not_eq_true, Bool.and_eq_false_iff] at hnot
  exact isFinite_unpack_special (@mul_special .binary64 _ _ hnot) h

theorem value_infinite_add (hn : x.isNaN = false) (hf : ¬ x.isFinite = true)
    (hs : (x + s).isNaN = false) : value (x + s) = value x := by
  change ¬ x.toModel.unpack.isFinite = true at hf
  change x.toModel.unpack.isNaN = false at hn
  change (UnpackedFloat.unpack .binary64 (UnpackedFloat.pack .binary64
    (UnpackedFloat.add .binary64 x.toModel.unpack s.toModel.unpack))).isNaN = false at hs
  change extended (UnpackedFloat.unpack .binary64 (UnpackedFloat.pack .binary64
    (UnpackedFloat.add .binary64 x.toModel.unpack s.toModel.unpack))) = extended x.toModel.unpack
  cases hu : x.toModel.unpack with
  | zero | finite => exact absurd (hu ▸ rfl) hf
  | notANumber =>
    rw [hu] at hn
    cases hn
  | infinity σ =>
    rw [hu] at hs
    have hcases : UnpackedFloat.add .binary64 _ _ = _ ∨ _ := infinity_add σ s.toModel.unpack
    rcases hcases with h | h
    · rw [h, UnpackedFloat.pack, unpack_infinity]
    · rw [h, UnpackedFloat.pack, unpack_notANumber] at hs
      cases hs

theorem unpack_eq_of_infinite (hn : x.isNaN = false) (hf : ¬ x.isFinite = true)
    (hy : y.isNaN = false) (hv : value y = value x) : y.toModel.unpack = x.toModel.unpack := by
  change ¬ x.toModel.unpack.isFinite = true at hf
  change x.toModel.unpack.isNaN = false at hn
  change y.toModel.unpack.isNaN = false at hy
  rw [value, value] at hv
  cases hx : x.toModel.unpack with
  | zero | finite => exact absurd (hx ▸ rfl) hf
  | notANumber =>
    rw [hx] at hn
    cases hn
  | infinity σ =>
    rw [hx] at hv
    cases σ with
    | positive =>
      refine (isFinite_or_top hy (hv ▸ top_ne_bot)).resolve_left ?_
      intro h
      rw [extended_of_isFinite h] at hv
      exact EReal.coe_ne_top _ hv
    | negative =>
      refine (isFinite_or_bot hy (hv ▸ bot_ne_top)).resolve_left ?_
      intro h
      rw [extended_of_isFinite h] at hv
      exact EReal.coe_ne_bot _ hv

end Infinite

section Progress

variable {a r σ : ℝ}

theorem abs_le_mul_abs_sub (ha : Representable .binary64 a) (hr : Representable .binary64 r)
    (h : r ≠ a) : |a| ≤ 2 ^ 54 * |r - a| := by
  by_contra! hlt
  have hpos : 0 < |r - a| := abs_pos.2 (sub_ne_zero.2 h)
  have ha0 : 0 < |a| := by linarith
  -- `2 ^ (e - 1)` is below both, so both are multiples of `2 ^ (e - 53)`
  obtain ⟨e, hlo, hhi⟩ : ∃ e : ℤ, 2 ^ e ≤ |a| ∧ |a| < 2 ^ (e + 1) :=
    ⟨Int.log 2 |a|, by exact_mod_cast Int.zpow_log_le_self one_lt_two ha0,
      by exact_mod_cast Int.lt_zpow_succ_log_self one_lt_two |a|⟩
  have hhalf : (2 : ℝ) ^ e = 2 * 2 ^ (e - 1) := by
    rw [← zpow_one_add₀ two_ne_zero]
    congr 1
    omega
  have hunit : (2 : ℝ) ^ (e + 1) = 2 ^ 54 * 2 ^ (e - 53) := by
    rw [← zpow_natCast, ← zpow_add₀ two_ne_zero]
    congr 1
    push_cast
    omega
  have hscale : (e - 53 + 52 : ℤ) = e - 1 := by omega
  have hra : |a| - |r| ≤ |r - a| := by
    rw [abs_sub_comm]
    exact abs_sub_abs_le_abs_sub a r
  have hp : (0 : ℝ) < 2 ^ (e - 1) := by positivity
  obtain ⟨n, hn⟩ := exists_units_of_le (g := e - 53) ha (by rw [hscale]; linarith)
  obtain ⟨m, hm⟩ := exists_units_of_le (g := e - 53) hr (by rw [hscale]; linarith)
  have hgap : 2 ^ (e - 53) ≤ |r - a| := by
    rcases lt_or_gt_of_ne h with hlt | hlt
    · rw [abs_sub_comm]
      exact (zpow_le_sub ⟨m, hm⟩ ⟨n, hn⟩ hlt).trans (le_abs_self _)
    · exact (zpow_le_sub ⟨n, hn⟩ ⟨m, hm⟩ hlt).trans (le_abs_self _)
  linarith

theorem zpow_minExponent_le_abs (hσ : Representable .binary64 σ) (h : σ ≠ 0) :
    2 ^ Format.minExponent .binary64 ≤ |σ| := by
  rcases lt_or_gt_of_ne h with hneg | hpos
  · have hle := zpow_minExponent_le_sub hσ .zero hneg
    rw [zero_sub] at hle
    exact hle.trans (neg_le_abs σ)
  · have hle := zpow_minExponent_le_sub .zero hσ hpos
    rw [sub_zero] at hle
    exact hle.trans (le_abs_self σ)

/-- A step that is not lost in rounding leads on by a quarter of its length, from a number that is
not too large for it. -/
theorem rounded_add_progress (ha : Representable .binary64 a) (hσ : Representable .binary64 σ)
    (h : rounded .binary64 (a + σ) ≠ a) :
    |σ| / 4 ≤ |rounded .binary64 (a + σ) - a| ∧ |a| ≤ 2 ^ 55 * |σ| := by
  have hr := rounded_representable .binary64 (a + σ)
  have hmax := abs_rounded_sub_le_max .binary64 (a + σ)
  have hnear := abs_rounded_sub_le_abs ha (a + σ)
  have hσ0 : σ ≠ 0 := by
    rintro rfl
    rw [add_zero] at h
    exact h ha.rounded_eq
  generalize rounded .binary64 (a + σ) = r at h hr hmax hnear ⊢
  rw [sub_add_cancel_left, abs_neg] at hnear
  have hlarge := abs_le_mul_abs_sub ha hr h
  have hlarge' := abs_le_mul_abs_sub hr ha h.symm
  rw [abs_sub_comm] at hlarge'
  have hahead : |r - a| ≤ |r - (a + σ)| + |σ| := by
    have hadd := abs_add_le (r - (a + σ)) σ
    rwa [sub_add_eq_sub_sub, sub_add_cancel, ← sub_add_eq_sub_sub] at hadd
  have hback : |σ| ≤ |r - a| + |r - (a + σ)| := by
    have hsub := abs_sub (r - a) (r - (a + σ))
    rwa [sub_sub_sub_cancel_left, add_sub_cancel_left] at hsub
  refine ⟨?_, by linarith⟩
  rcases le_max_iff.1 hmax with herr | herr
  -- an error relative to the sum is small beside the way, as the way is not small beside the sum
  · have hsum : |a + σ| ≤ |r| + |r - (a + σ)| := by
      have hsub := abs_sub r (r - (a + σ))
      rwa [sub_sub_cancel] at hsub
    have h53 : Format.mantissaBits .binary64 = 53 := rfl
    rw [h53] at herr
    linarith
  -- otherwise the error is at most half the least unit, and the step is at least that unit
  · have hunit := zpow_minExponent_le_abs hσ hσ0
    rw [zpow_sub_one₀ two_ne_zero] at herr
    linarith

theorem mul_le_sub {q : ℕ → ℝ} {n : ℕ} {c : ℝ} (h : ∀ k < n, c ≤ q (k + 1) - q k) :
    n * c ≤ q n - q 0 := by
  have hsum := Finset.card_nsmul_le_sum (Finset.range n) _ c
    fun k hk => h k (Finset.mem_range.1 hk)
  rwa [Finset.card_range, nsmul_eq_mul, Finset.sum_range_sub] at hsum

theorem mul_le_abs_sub {p : ℕ → ℝ} {n : ℕ} (hσ : Representable .binary64 σ)
    (hp : ∀ k, Representable .binary64 (p k))
    (hstep : ∀ k < n, p (k + 1) = rounded .binary64 (p k + σ) ∧ p (k + 1) ≠ p k) :
    n * (|σ| / 4) ≤ |p n - p 0| := by
  have hprogress (k : ℕ) (hk : k < n) : |σ| / 4 ≤ |p (k + 1) - p k| := by
    obtain ⟨heq, hne⟩ := hstep k hk
    rw [heq] at hne ⊢
    exact (rounded_add_progress (hp k) hσ hne).1
  -- rounding respects the order, so all steps lead the same way
  rcases le_total 0 σ with h0 | h0
  · refine (mul_le_sub fun k hk => ?_).trans (le_abs_self (p n - p 0))
    have hle : p k ≤ p (k + 1) := by
      rw [(hstep k hk).1]
      exact (hp k).rounded_eq.symm.trans_le (rounded_mono (le_add_of_nonneg_right h0))
    exact (hprogress k hk).trans_eq (abs_of_nonneg (sub_nonneg.2 hle))
  · have hback : n * (|σ| / 4) ≤ -p n - -p 0 := by
      refine mul_le_sub (q := fun k => -p k) fun k hk => ?_
      have hle : p (k + 1) ≤ p k := by
        rw [(hstep k hk).1]
        exact (rounded_mono (add_le_of_nonpos_right h0)).trans_eq (hp k).rounded_eq
      rw [neg_sub_neg, ← neg_sub]
      exact (hprogress k hk).trans_eq (abs_of_nonpos (sub_nonpos.2 hle))
    rw [neg_sub_neg, ← neg_sub] at hback
    exact hback.trans (neg_le_abs _)

end Progress

section Iteration

/-- The places reached by steps of one length. -/
def steps (s x : Float) (k : ℕ) : Float :=
  (· + s)^[k] x

theorem steps_succ (s x : Float) (k : ℕ) : steps s x (k + 1) = steps s x k + s :=
  Function.iterate_succ_apply' _ _ _

/-- The next step does not lead away. -/
def Held (s x : Float) : Prop :=
  (x + s == x) = true

theorem Held.congr (h : Held s x) (hy : y.isNaN = false) (hv : value y = value x) :
    Held s y ∧ (y + s).isNaN = false ∧ value (y + s) = value x := by
  obtain ⟨⟨hn, hnx⟩, heq⟩ := beq_iff.1 h
  by_cases hf : x.isFinite = true
  · have hxs := (isFinite_of_value_eq hn (heq.trans (value_of_isFinite hf))).1
    have hs := (isFinite_of_add hxs).2
    obtain ⟨hyf, hyn⟩ := isFinite_of_value_eq hy (hv.trans (value_of_isFinite hf))
    obtain ⟨hny, hvy⟩ := value_add_number hyf hs
    rw [hyn, ← (value_add_number hf hs).2, heq] at hvy
    exact ⟨beq_iff.2 ⟨⟨hny, hy⟩, hvy.trans hv.symm⟩, hny, hvy⟩
  · have hu := unpack_eq_of_infinite hnx hf hy hv
    have hys : y + s = x + s := by
      change Float.ofModel (.pack (UnpackedFloat.add .binary64 y.toModel.unpack _)) = _
      rw [hu]
      rfl
    rw [Held, hys]
    exact ⟨beq_iff.2 ⟨⟨hn, hy⟩, heq.trans hv.symm⟩, hn, heq⟩

theorem Held.steps (h : Held s x) (k : ℕ) :
    (steps s x k).isNaN = false ∧ value (steps s x k) = value x := by
  induction k with
  | zero => exact ⟨(beq_iff.1 h).1.2, rfl⟩
  | succ k ih =>
    rw [steps_succ]
    exact (h.congr ih.1 ih.2).2

theorem steps_add (s x : Float) (k j : ℕ) : Binary.steps s x (k + j) =
    Binary.steps s (Binary.steps s x k) j := by
  rw [Nat.add_comm]
  exact Function.iterate_add_apply _ _ _ _

theorem Held.of_le {k m : ℕ} (h : Held s (Binary.steps s x k)) (hle : k ≤ m) :
    Held s (Binary.steps s x m) ∧ (Binary.steps s x m).isNaN = false ∧
      value (Binary.steps s x m) = value (Binary.steps s x k) := by
  obtain ⟨j, rfl⟩ := Nat.exists_eq_add_of_le hle
  obtain ⟨hn, hv⟩ := h.steps j
  rw [steps_add]
  exact ⟨(h.congr hn hv).1, hn, hv⟩

/-- The number of steps that it takes rounding to hold what it ever holds. -/
def heldWithin : ℕ :=
  2 ^ 59

/-- Each step that is felt leads a quarter of its length on, and none is felt from a number that is
more than `2 ^ 55` times as large. -/
theorem held_within (h : ∀ k ≤ heldWithin, (steps s x k).isNaN = false) :
    Held s (steps s x heldWithin) := by
  by_contra hno
  have hfree (k : ℕ) (hk : k ≤ heldWithin) : ¬ Held s (steps s x k) :=
    fun hheld => hno (hheld.of_le hk).1
  have hne (k : ℕ) (hk : k < heldWithin) :
      value (steps s x k + s) ≠ value (steps s x k) := by
    intro heq
    have hnan := h (k + 1) hk
    rw [steps_succ] at hnan
    exact hfree k hk.le (beq_iff.2 ⟨⟨hnan, h k hk.le⟩, heq⟩)
  have hf (k : ℕ) (hk : k < heldWithin) : (steps s x k).isFinite = true := by
    by_contra hinf
    have hnan := h (k + 1) hk
    rw [steps_succ] at hnan
    exact hne k hk (value_infinite_add (h k hk.le) hinf hnan)
  have hs : s.isFinite = true := by
    have hfirst := hf 1 (by decide)
    rw [steps_succ] at hfirst
    exact (isFinite_of_add hfirst).2
  have hstep (k : ℕ) (hk : k < heldWithin - 1) :
      number (steps s x (k + 1)) = rounded .binary64 (number (steps s x k) + number s) ∧
        number (steps s x (k + 1)) ≠ number (steps s x k) := by
    have hlt : k + 1 < heldWithin := by omega
    have hnext := hf (k + 1) hlt
    have hdiff := hne k (by omega)
    rw [steps_succ] at hnext ⊢
    refine ⟨number_add hnext, fun heq => hdiff ?_⟩
    rw [value_of_isFinite hnext, value_of_isFinite (hf k (by omega)), heq]
  have hlarge (k : ℕ) (hk : k < heldWithin - 1) :
      |number (steps s x k)| ≤ 2 ^ 55 * |number s| := by
    obtain ⟨heq, hdiff⟩ := hstep k hk
    rw [heq] at hdiff
    exact (rounded_add_progress (representable_number _) (representable_number s) hdiff).2
  have hfar := mul_le_abs_sub (representable_number s) (fun k => representable_number (steps s x k))
    fun k (hk : k < heldWithin - 2) => hstep k (by omega)
  have hnear := abs_sub (number (steps s x (heldWithin - 2))) (number (steps s x 0))
  have hcount : ((heldWithin - 2 : ℕ) : ℝ) = 2 ^ 59 - 2 := by
    rw [heldWithin]
    norm_num
  rw [hcount] at hfar
  have hzero : |number s| ≤ 0 := by
    have hfirst := hlarge 0 (by decide)
    have hlast := hlarge (heldWithin - 2) (by decide)
    linarith
  obtain ⟨heq, hdiff⟩ := hstep 0 (by decide)
  rw [abs_nonpos_iff.1 hzero, add_zero, (representable_number _).rounded_eq] at heq
  exact hdiff heq

end Iteration

end Relief.Binary
