import Relief.Proofs.Binary.Widening

namespace Relief.Binary

open Float.Model Float.Model.UnpackedFloat

section Delivered

variable {spec : Format}

theorem clip_neg (x : EReal) : clip spec (-x) = -clip spec x := by
  rcases le_or_gt (limit spec : EReal) x with h | h
  · rw [clip_of_le h, clip_of_le_neg (EReal.neg_le_neg_iff.2 h), EReal.neg_top]
  · rcases le_or_gt x (-limit spec) with h' | h'
    · rw [clip_of_le_neg h', clip_of_le (EReal.le_neg_of_le_neg h'), EReal.neg_bot]
    · rw [clip_of_lt h' h, clip_of_lt (EReal.neg_lt_neg_iff.2 h) (EReal.neg_lt_of_neg_lt h')]

theorem delivered_neg (x : EReal) : delivered spec (-x) = -delivered spec x := by
  induction x with
  | bot => rw [EReal.neg_bot, delivered_top, delivered_bot, EReal.neg_bot]
  | top => rw [EReal.neg_top, delivered_top, delivered_bot, EReal.neg_top]
  | coe r =>
    rw [← EReal.coe_neg, delivered_coe, delivered_coe, rounded_neg, EReal.coe_neg, clip_neg]

theorem delivered_zero : delivered spec 0 = 0 := by
  rw [← EReal.coe_zero, delivered_coe, rounded_zero]
  exact clip_coe (abs_zero.trans_lt (limit_pos _))

theorem delivered_abs {r t : ℝ} (h : delivered spec r = t) :
    delivered spec ((|r| : ℝ) : EReal) = ((|t| : ℝ) : EReal) := by
  rcases le_total 0 r with h0 | h0
  · have ht : delivered spec 0 ≤ delivered spec r := delivered_mono (EReal.coe_nonneg.2 h0)
    rw [delivered_zero, h] at ht
    rw [abs_of_nonneg h0, abs_of_nonneg (EReal.coe_nonneg.1 ht), h]
  · have ht : delivered spec r ≤ delivered spec 0 := delivered_mono (EReal.coe_nonpos.2 h0)
    rw [delivered_zero, h] at ht
    rw [abs_of_nonpos h0, abs_of_nonpos (EReal.coe_nonpos.1 ht), EReal.coe_neg, delivered_neg, h,
      EReal.coe_neg]

end Delivered

section Unpacked

variable {spec : Format} {u v w : UnpackedFloat}

/-- Opposite numbers, or both no number. -/
def Opposed (u v : UnpackedFloat) : Prop :=
  v.isNaN = u.isNaN ∧ extended v = -extended u

theorem extended_neg (u : UnpackedFloat) : extended u.neg = -extended u := by
  cases u with
  | notANumber => exact neg_zero.symm
  | zero s => exact neg_zero.symm
  | finite s m e hm =>
    rw [extended_of_isFinite rfl, extended_of_isFinite rfl, real_neg, EReal.coe_neg]
  | infinity s =>
    cases s with
    | positive => exact EReal.neg_top.symm
    | negative => exact EReal.neg_bot.symm

theorem opposed_neg (u : UnpackedFloat) : Opposed u u.neg := by
  refine ⟨?_, extended_neg u⟩
  cases u <;> rfl

theorem eq_infinity_of_extended {s : Sign} (h : extended u = extended (.infinity s)) :
    u = .infinity s := by
  have hcoe (r : ℝ) : (r : EReal) ≠ extended (.infinity s) := by
    cases s with
    | positive => exact EReal.coe_ne_top r
    | negative => exact EReal.coe_ne_bot r
  cases u with
  | notANumber => exact absurd h (hcoe 0)
  | zero => exact absurd h (hcoe 0)
  | finite s' m e hm => exact absurd h (hcoe _)
  | infinity s' => cases s <;> cases s' <;> first | rfl | cases h

theorem Opposed.real_eq (h : Opposed u v) (hu : u.isFinite = true) :
    v.isFinite = true ∧ real v = -real u := by
  obtain ⟨hn, he⟩ := h
  rw [isNaN_eq_false hu] at hn
  rw [extended_of_isFinite hu, ← EReal.coe_neg] at he
  have hv : v.isFinite = true := by
    refine (isFinite_or_top hn (he ▸ EReal.coe_ne_bot _)).resolve_right fun ht => ?_
    rw [ht] at he
    exact EReal.coe_ne_top _ he.symm
  rw [extended_of_isFinite hv] at he
  exact ⟨hv, EReal.coe_eq_coe_iff.1 he⟩

theorem Opposed.kinds (h : Opposed u v) :
    (u = .notANumber ∧ v = .notANumber) ∨ (∃ s, u = .infinity s ∧ v = .infinity (-s)) ∨
      (∃ s s', u = .zero s ∧ v = .zero s') ∨
      ∃ s m e hm m' e' hm', u = .finite s m e hm ∧ v = .finite (-s) m' e' hm' ∧
        real v = -real u := by
  cases u with
  | notANumber =>
    cases v with
    | notANumber => exact .inl ⟨rfl, rfl⟩
    | infinity | zero | finite => cases h.1
  | infinity s =>
    exact .inr (.inl ⟨s, rfl, eq_infinity_of_extended (h.2.trans (extended_neg _).symm)⟩)
  | zero s =>
    obtain ⟨hv, hr⟩ := h.real_eq rfl
    cases v with
    | zero s' => exact .inr (.inr (.inl ⟨s, s', rfl, rfl⟩))
    | finite s' m e hm =>
      rw [real_zero, neg_zero] at hr
      exact absurd hr (real_finite_ne_zero hm)
    | infinity | notANumber => cases hv
  | finite s m e hm =>
    obtain ⟨hv, hr⟩ := h.real_eq rfl
    cases v with
    | zero s' =>
      rw [real_zero, eq_comm, neg_eq_zero] at hr
      exact absurd hr (real_finite_ne_zero hm)
    | finite s' m' e' hm' =>
      refine .inr (.inr (.inr ⟨s, m, e, hm, m', e', hm', rfl, ?_, hr⟩))
      have hpos : 0 < real (.finite .positive m e hm) := real_pos hm
      have hpos' : 0 < real (.finite .positive m' e' hm') := real_pos hm'
      have hneg : real (.finite .negative m e hm) < 0 := real_negative hm
      have hneg' : real (.finite .negative m' e' hm') < 0 := real_negative hm'
      cases s <;> cases s' <;> first | rfl | (exfalso; linarith)
    | infinity | notANumber => cases hv

theorem Delivers.opposed {a b : UnpackedFloat} {x : EReal} (ha : Delivers spec a x)
    (hb : Delivers spec b (-x)) :
    Opposed (UnpackedFloat.unpack spec (UnpackedFloat.pack spec a))
      (UnpackedFloat.unpack spec (UnpackedFloat.pack spec b)) := by
  refine ⟨hb.isNaN.trans ha.isNaN.symm, ?_⟩
  rw [ha.extended_eq, hb.extended_eq, delivered_neg]

def repacked (spec : Format) (u : UnpackedFloat) : UnpackedFloat :=
  UnpackedFloat.unpack spec (UnpackedFloat.pack spec u)

theorem opposed_repacked_special (hu : u.isFinite = false ∨ ∃ s, u = .zero s) :
    Opposed (repacked spec u) (repacked spec u.neg) := by
  have heq : repacked spec u = u ∧ repacked spec u.neg = u.neg := by
    cases u with
    | notANumber => exact ⟨unpack_notANumber, unpack_notANumber⟩
    | infinity s => exact ⟨unpack_infinity s, unpack_infinity (-s)⟩
    | zero s => exact ⟨unpack_zero s, unpack_zero (-s)⟩
    | finite s m e hm => exact absurd hu (by simp [UnpackedFloat.isFinite])
  rw [heq.1, heq.2]
  exact opposed_neg u

theorem Opposed.div (hspec : 1 < spec.exponentBits) (hu : Canonical spec u)
    (hv : Canonical spec v) (hw : Canonical spec w) (h : Opposed u v) :
    Opposed (repacked spec (UnpackedFloat.div spec u w))
      (repacked spec (UnpackedFloat.div spec v w)) := by
  have hnan : Opposed (repacked spec .notANumber) (repacked spec .notANumber) :=
    opposed_repacked_special (.inl rfl)
  have hinf (s t : Sign) :
      Opposed (repacked spec (.infinity (s / t))) (repacked spec (.infinity (-s / t))) := by
    have hsign : -s / t = -(s / t) := by cases s <;> cases t <;> rfl
    rw [hsign]
    exact opposed_repacked_special (.inl rfl)
  have hzero (s s' : Sign) : Opposed (repacked spec (.zero s)) (repacked spec (.zero s')) := by
    rw [repacked, repacked, UnpackedFloat.pack, UnpackedFloat.pack, unpack_zero, unpack_zero]
    exact ⟨rfl, neg_zero.symm⟩
  rcases h.kinds with ⟨rfl, rfl⟩ | ⟨s, rfl, rfl⟩ | ⟨s, s', rfl, rfl⟩ |
    ⟨s, m, e, hm, m', e', hm', rfl, rfl, hr⟩
  · exact hnan
  · cases w with
    | notANumber | infinity => exact hnan
    | zero t | finite t => exact hinf s t
  · cases w with
    | notANumber | zero => exact hnan
    | infinity t | finite t => exact hzero _ _
  · cases w with
    | notANumber => exact hnan
    | infinity t => exact hzero _ _
    | zero t => exact hinf s t
    | finite t n g hn =>
      have h0 : real (.finite t n g hn) ≠ 0 := real_finite_ne_zero hn
      have hdiv := (rounds_div hv hw rfl rfl h0).delivers hspec
      rw [hr, neg_div, EReal.coe_neg] at hdiv
      exact ((rounds_div hu hw rfl rfl h0).delivers hspec).opposed hdiv

end Unpacked

section Float

variable {x x' y y' : Float}

/-- Opposite numbers, zeros without a sign, or both no number. -/
def Opposite (x y : Float) : Prop :=
  x.isNaN = true ∧ y.isNaN = true ∨ (y == -x) = true

instance (x y : Float) : Decidable (Opposite x y) :=
  inferInstanceAs (Decidable (_ ∨ _))

theorem isNaN_neg (x : Float) : (-x).isNaN = x.isNaN := by
  change (-x).toModel.unpack.isNaN = x.toModel.unpack.isNaN
  rw [unpack_neg]
  exact (opposed_neg _).1

theorem value_neg (x : Float) : value (-x) = -value x := by
  rw [value, unpack_neg, extended_neg, value]

theorem value_of_isNaN (h : x.isNaN = true) : value x = 0 := by
  change x.toModel.unpack.isNaN = true at h
  rw [value]
  cases hu : x.toModel.unpack with
  | notANumber => rfl
  | infinity | zero | finite =>
    rw [hu] at h
    cases h

theorem opposite_iff : Opposite x y ↔ y.isNaN = x.isNaN ∧ value y = -value x := by
  rw [Opposite, beq_iff, isNaN_neg, value_neg]
  cases hx : x.isNaN with
  | false => simp
  | true =>
    cases hy : y.isNaN with
    | false => simp
    | true => simp [value_of_isNaN hx, value_of_isNaN hy]

namespace Opposite

theorem symm (h : Opposite x y) : Opposite y x := by
  obtain ⟨hn, hv⟩ := opposite_iff.1 h
  exact opposite_iff.2 ⟨hn.symm, by rw [hv, neg_neg]⟩

theorem number_eq (h : Opposite x y) (hx : x.isFinite = true) :
    y.isFinite = true ∧ number y = -number x := by
  obtain ⟨hn, hv⟩ := opposite_iff.1 h
  rw [value_of_isFinite hx, ← EReal.coe_neg] at hv
  exact isFinite_of_value_eq (hn.trans (isNaN_of_isFinite hx)) hv

theorem lt_iff (hx : Opposite x x') (hy : Opposite y y') : x < y ↔ y' < x' := by
  obtain ⟨hnx, hvx⟩ := opposite_iff.1 hx
  obtain ⟨hny, hvy⟩ := opposite_iff.1 hy
  rw [Binary.lt_iff, Binary.lt_iff, hnx, hny, hvx, hvy, EReal.neg_lt_neg_iff, and_comm (a := _ = _)]

theorem le_iff (hx : Opposite x x') (hy : Opposite y y') : x ≤ y ↔ y' ≤ x' := by
  obtain ⟨hnx, hvx⟩ := opposite_iff.1 hx
  obtain ⟨hny, hvy⟩ := opposite_iff.1 hy
  rw [Binary.le_iff, Binary.le_iff, hnx, hny, hvx, hvy, EReal.neg_le_neg_iff, and_comm (a := _ = _)]

theorem sub (hx : Opposite x x') (hy : Opposite y y') (hfx : x.isFinite = true)
    (hfy : y.isFinite = true) : Opposite (x - y) (x' - y') := by
  obtain ⟨hfx', hx'⟩ := hx.number_eq hfx
  obtain ⟨hfy', hy'⟩ := hy.number_eq hfy
  obtain ⟨hn, hv⟩ := value_sub_number hfx hfy
  obtain ⟨hn', hv'⟩ := value_sub_number hfx' hfy'
  have hneg : -number x - -number y = -(number x - number y) := by ring
  rw [hx', hy', hneg, EReal.coe_neg, delivered_neg, ← hv] at hv'
  exact opposite_iff.2 ⟨hn'.trans hn.symm, hv'⟩

theorem add (hx : Opposite x x') (hy : Opposite y y') (hfx : x.isFinite = true)
    (hfy : y.isFinite = true) : Opposite (x + y) (x' + y') := by
  obtain ⟨hfx', hx'⟩ := hx.number_eq hfx
  obtain ⟨hfy', hy'⟩ := hy.number_eq hfy
  obtain ⟨hn, hv⟩ := value_add_number hfx hfy
  obtain ⟨hn', hv'⟩ := value_add_number hfx' hfy'
  rw [hx', hy', ← neg_add, EReal.coe_neg, delivered_neg, ← hv] at hv'
  exact opposite_iff.2 ⟨hn'.trans hn.symm, hv'⟩

theorem ite {p q : Prop} [Decidable p] [Decidable q] (hpq : p ↔ q) (hx : Opposite x x')
    (hy : Opposite y y') : Opposite (if p then x else y) (if q then x' else y') := by
  by_cases hp : p
  · rw [if_pos hp, if_pos (hpq.1 hp)]
    exact hx
  · rw [if_neg hp, if_neg fun hq => hp (hpq.2 hq)]
    exact hy

theorem div (h : Opposite x x') (d : Float) : Opposite (x / d) (x' / d) :=
  opposite_iff.2 (Opposed.div (by decide) (canonical_toModel x) (canonical_toModel x')
    (canonical_toModel d) (opposite_iff.1 h))

end Opposite

theorem opposite_neg (x : Float) : Opposite x (-x) :=
  opposite_iff.2 ⟨isNaN_neg x, value_neg x⟩

theorem opposite_zero : Opposite 0.0 0.0 := by
  decide +kernel

def IsOdd (f : Float → Float) : Prop :=
  ∀ x y, Opposite x y → Opposite (f x) (f y)

end Float

section Single
variable {x y : Float32}

theorem unpack_neg_single (x : Float32) :
    (-x).toModel.unpack = x.toModel.unpack.neg :=
  unpack_pack (canonical_single x).neg (inRange_neg (inRange_single x))

theorem isNaN_neg_single (x : Float32) : (-x).isNaN = x.isNaN := by
  change (-x).toModel.unpack.isNaN = x.toModel.unpack.isNaN
  rw [unpack_neg_single]
  exact (opposed_neg _).1

theorem singleValue_neg (x : Float32) : singleValue (-x) = -singleValue x := by
  rw [singleValue, unpack_neg_single, extended_neg, singleValue]

end Single

end Relief.Binary
