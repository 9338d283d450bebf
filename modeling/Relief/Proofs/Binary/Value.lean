import Relief.Binary
import Relief.Proofs.Binary.Extended

namespace Relief.Binary

open Float.Model

/-- The extended real number of a binary64; 0 for what is not a number. -/
noncomputable def value (x : Float) : EReal :=
  extended x.toModel.unpack

/-- The real number of a finite binary64. -/
noncomputable def number (x : Float) : ℝ :=
  real x.toModel.unpack

variable {x y : Float}

theorem canonical_toModel (x : Float) : Canonical .binary64 x.toModel.unpack :=
  canonical_unpack _

theorem inRange_toModel (x : Float) : InRange .binary64 x.toModel.unpack :=
  inRange_unpack (by decide) _

@[simp] theorem delivered_value (x : Float) : delivered .binary64 (value x) = value x :=
  delivered_extended (by decide) (canonical_toModel x) (inRange_toModel x)

theorem representable_number (x : Float) : Representable .binary64 (number x) :=
  (canonical_toModel x).representable

theorem limit_binary64 : limit .binary64 = 2 ^ 1024 :=
  rfl

theorem delivered_representable {r : ℝ} (h : Representable .binary64 r)
    (hl : |r| < 2 ^ 1024) : delivered .binary64 r = r := by
  rw [delivered_coe, h.rounded_eq]
  exact clip_coe (limit_binary64 ▸ hl)

/-- A number well within the range is delivered with a small relative error. -/
theorem delivered_near {r a : ℝ} (hr : |r| ≤ a) (h1 : 1 ≤ a) (ha : a ≤ 2 ^ 200) :
    ∃ t : ℝ, delivered .binary64 r = t ∧ |t - r| ≤ a / 2 ^ 53 := by
  have herr : |rounded .binary64 r - r| ≤ a / 2 ^ 53 := by
    refine (abs_rounded_sub_le_max .binary64 r).trans (max_le ?_ ?_)
    · exact div_le_div_of_nonneg_right hr (by positivity)
    · calc (2 : ℝ) ^ (Format.minExponent .binary64 - 1) ≤ 2 ^ (-53 : ℤ) :=
            zpow_le_zpow_right₀ one_le_two (by decide)
        _ = 1 / 2 ^ 53 := by rw [zpow_neg, one_div]; rfl
        _ ≤ a / 2 ^ 53 := div_le_div_of_nonneg_right h1 (by positivity)
  refine ⟨rounded .binary64 r, ?_, herr⟩
  rw [delivered_coe]
  apply clip_coe
  have hsmall : a / 2 ^ 53 ≤ a := div_le_self (by linarith) (one_le_pow₀ one_le_two)
  have htri := abs_add_le (rounded .binary64 r - r) r
  rw [sub_add_cancel] at htri
  calc |rounded .binary64 r| ≤ 2 ^ 200 + 2 ^ 200 := by linarith
    _ = 2 ^ 201 := by ring
    _ < limit .binary64 :=
      (pow_lt_pow_right₀ one_lt_two (by norm_num)).trans_eq limit_binary64.symm

section Order

theorem lt_iff : x < y ↔ (x.isNaN = false ∧ y.isNaN = false) ∧ value x < value y :=
  decide_eq_true_iff.trans (lt_eq_true_iff (canonical_toModel x) (canonical_toModel y))

theorem le_iff : x ≤ y ↔ (x.isNaN = false ∧ y.isNaN = false) ∧ value x ≤ value y :=
  decide_eq_true_iff.trans (le_eq_true_iff (canonical_toModel x) (canonical_toModel y))

theorem beq_iff : (x == y) = true ↔ (x.isNaN = false ∧ y.isNaN = false) ∧ value x = value y :=
  beq_eq_true_iff (canonical_toModel x) (canonical_toModel y)

theorem lt_iff_of_number (hx : x.isNaN = false) (hy : y.isNaN = false) :
    x < y ↔ value x < value y := by
  rw [lt_iff, and_iff_right ⟨hx, hy⟩]

theorem le_iff_of_number (hx : x.isNaN = false) (hy : y.isNaN = false) :
    x ≤ y ↔ value x ≤ value y := by
  rw [le_iff, and_iff_right ⟨hx, hy⟩]

theorem le_self_of_number (h : x.isNaN = false) : x ≤ x :=
  (le_iff_of_number h h).2 le_rfl

theorem le_of_not_lt_of_number (hx : x.isNaN = false) (hy : y.isNaN = false) (h : ¬ x < y) :
    y ≤ x := by
  rw [lt_iff_of_number hx hy, not_lt] at h
  exact (le_iff_of_number hy hx).2 h

theorem trans_le {x y z : Float} (h : x ≤ y) (h' : y ≤ z) : x ≤ z :=
  le_iff.2 ⟨⟨(le_iff.1 h).1.1, (le_iff.1 h').1.2⟩, (le_iff.1 h).2.trans (le_iff.1 h').2⟩

theorem trans_lt {x y z : Float} (h : x < y) (h' : y < z) : x < z :=
  lt_iff.2 ⟨⟨(lt_iff.1 h).1.1, (lt_iff.1 h').1.2⟩, (lt_iff.1 h).2.trans (lt_iff.1 h').2⟩

theorem trans_lt_le {x y z : Float} (h : x < y) (h' : y ≤ z) : x < z :=
  lt_iff.2 ⟨⟨(lt_iff.1 h).1.1, (le_iff.1 h').1.2⟩, (lt_iff.1 h).2.trans_le (le_iff.1 h').2⟩

theorem trans_le_lt {x y z : Float} (h : x ≤ y) (h' : y < z) : x < z :=
  lt_iff.2 ⟨⟨(le_iff.1 h).1.1, (lt_iff.1 h').1.2⟩, (le_iff.1 h).2.trans_lt (lt_iff.1 h').2⟩

theorem lt_imp_le (h : x < y) : x ≤ y :=
  le_iff.2 ⟨(lt_iff.1 h).1, (lt_iff.1 h).2.le⟩

theorem isNaN_zero : (0.0 : Float).isNaN = false := by
  decide

theorem isFinite_zero : (0.0 : Float).isFinite = true := by
  decide

@[simp] theorem value_zero : value 0.0 = 0 :=
  rfl

@[simp] theorem number_zero : number 0.0 = 0 :=
  rfl

end Order

section Finite

theorem isNaN_eq_false {u : UnpackedFloat} (h : u.isFinite = true) : u.isNaN = false := by
  cases u with
  | finite | zero => rfl
  | infinity | notANumber => cases h

theorem isNaN_of_isFinite (h : x.isFinite = true) : x.isNaN = false :=
  isNaN_eq_false h

theorem value_of_isFinite (h : x.isFinite = true) : value x = number x :=
  extended_of_isFinite h

theorem isFinite_iff : x.isFinite = true ↔ x.isNaN = false ∧ value x ≠ ⊥ ∧ value x ≠ ⊤ := by
  constructor
  · intro h
    rw [value_of_isFinite h]
    exact ⟨isNaN_of_isFinite h, EReal.coe_ne_bot _, EReal.coe_ne_top _⟩
  · rintro ⟨hn, hb, ht⟩
    rcases isFinite_or_top hn hb with h | h
    · exact h
    · rw [value, h] at ht
      exact absurd rfl ht

theorem isFinite_of_value_eq {r : ℝ} (hn : x.isNaN = false) (h : value x = r) :
    x.isFinite = true ∧ number x = r := by
  have hf : x.isFinite = true := isFinite_iff.2 ⟨hn, h ▸ EReal.coe_ne_bot r, h ▸ EReal.coe_ne_top r⟩
  rw [value_of_isFinite hf] at h
  exact ⟨hf, EReal.coe_eq_coe_iff.1 h⟩

theorem lt_iff_number (hx : x.isFinite = true) (hy : y.isFinite = true) :
    x < y ↔ number x < number y := by
  rw [lt_iff_of_number (isNaN_of_isFinite hx) (isNaN_of_isFinite hy), value_of_isFinite hx,
    value_of_isFinite hy, EReal.coe_lt_coe_iff]

theorem le_iff_number (hx : x.isFinite = true) (hy : y.isFinite = true) :
    x ≤ y ↔ number x ≤ number y := by
  rw [le_iff_of_number (isNaN_of_isFinite hx) (isNaN_of_isFinite hy), value_of_isFinite hx,
    value_of_isFinite hy, EReal.coe_le_coe_iff]

theorem le_or_lt_of_isFinite (hx : x.isFinite = true) (hy : y.isFinite = true) :
    x ≤ y ∨ y < x := by
  rw [le_iff_number hx hy, lt_iff_number hy hx]
  exact le_or_gt _ _

theorem isFinite_of_between {z : Float} (h : x ≤ y) (h' : y ≤ z) (hx : x.isFinite = true)
    (hz : z.isFinite = true) : y.isFinite = true := by
  obtain ⟨⟨-, hn⟩, hlo⟩ := le_iff.1 h
  obtain ⟨-, hhi⟩ := le_iff.1 h'
  rw [value_of_isFinite hx] at hlo
  rw [value_of_isFinite hz] at hhi
  refine isFinite_iff.2 ⟨hn, ne_bot_of_le_ne_bot (EReal.coe_ne_bot _) hlo, ?_⟩
  exact ne_top_of_le_ne_top (EReal.coe_ne_top _) hhi

end Finite

section Sign

theorem inRange_neg {spec : Format} {u : UnpackedFloat} (h : InRange spec u) :
    InRange spec u.neg := by
  cases u <;> exact h

theorem inRange_abs {spec : Format} {u : UnpackedFloat} (h : InRange spec u) :
    InRange spec u.abs := by
  cases u <;> exact h

theorem unpack_neg (x : Float) : (-x).toModel.unpack = x.toModel.unpack.neg :=
  unpack_pack (canonical_toModel x).neg (inRange_neg (inRange_toModel x))

theorem unpack_abs (x : Float) : x.abs.toModel.unpack = x.toModel.unpack.abs :=
  unpack_pack (canonical_toModel x).abs (inRange_abs (inRange_toModel x))

theorem isFinite_neg (h : x.isFinite = true) : (-x).isFinite = true := by
  rw [← h]
  change (-x).toModel.unpack.isFinite = x.toModel.unpack.isFinite
  rw [unpack_neg]
  cases x.toModel.unpack <;> rfl

theorem isFinite_abs (x : Float) : x.abs.isFinite = x.isFinite := by
  change x.abs.toModel.unpack.isFinite = x.toModel.unpack.isFinite
  rw [unpack_abs]
  cases x.toModel.unpack <;> rfl

theorem number_neg (x : Float) : number (-x) = -number x := by
  rw [number, unpack_neg, real_neg, number]

theorem number_abs (x : Float) : number x.abs = |number x| := by
  rw [number, unpack_abs, real_abs, number]

theorem number_magnitude {v : Float} (h : v.isFinite = true) :
    (magnitude v).isFinite = true ∧ number (magnitude v) = |number v| := by
  have hneg := lt_iff_number h isFinite_zero
  rw [number_zero] at hneg
  rw [magnitude]
  split_ifs with hv
  · rw [number_neg, abs_of_neg (hneg.1 hv)]
    exact ⟨isFinite_neg h, rfl⟩
  · rw [abs_of_nonneg (not_lt.1 fun hc => hv (hneg.2 hc))]
    exact ⟨h, rfl⟩

end Sign

section Sums

theorem value_add (hx : x.isNaN = false) (hy : y.isNaN = false) (hbx : value x ≠ ⊥)
    (hby : value y ≠ ⊥) :
    (x + y).isNaN = false ∧ value (x + y) = delivered .binary64 (value x + value y) := by
  have h := delivers_add (by decide) (canonical_toModel x) (canonical_toModel y) hx hy hbx hby
  exact ⟨h.isNaN, h.extended_eq⟩

theorem value_sub (hx : x.isNaN = false) (hy : y.isNaN = false) (hbx : value x ≠ ⊥)
    (hty : value y ≠ ⊤) :
    (x - y).isNaN = false ∧ value (x - y) = delivered .binary64 (value x - value y) := by
  have h := delivers_sub (by decide) (canonical_toModel x) (canonical_toModel y) hx hy hbx hty
  exact ⟨h.isNaN, h.extended_eq⟩

theorem value_add_number (hx : x.isFinite = true) (hy : y.isFinite = true) :
    (x + y).isNaN = false ∧ value (x + y) = delivered .binary64 ↑(number x + number y) := by
  have h := (rounds_add (canonical_toModel x) (canonical_toModel y) hx hy).delivers (by decide)
  exact ⟨h.isNaN, h.extended_eq⟩

theorem value_sub_number (hx : x.isFinite = true) (hy : y.isFinite = true) :
    (x - y).isNaN = false ∧ value (x - y) = delivered .binary64 ↑(number x - number y) := by
  have h := (rounds_sub (canonical_toModel x) (canonical_toModel y) hx hy).delivers (by decide)
  exact ⟨h.isNaN, h.extended_eq⟩

theorem value_mul (hx : x.isFinite = true) (hy : y.isFinite = true) :
    (x * y).isNaN = false ∧ value (x * y) = delivered .binary64 ↑(number x * number y) := by
  have h := (rounds_mul (canonical_toModel x) (canonical_toModel y) hx hy).delivers (by decide)
  exact ⟨h.isNaN, h.extended_eq⟩

theorem value_div (hx : x.isFinite = true) (hy : y.isFinite = true) (h0 : number y ≠ 0) :
    (x / y).isNaN = false ∧ value (x / y) = delivered .binary64 ↑(number x / number y) := by
  have h := (rounds_div (canonical_toModel x) (canonical_toModel y) hx hy h0).delivers (by decide)
  exact ⟨h.isNaN, h.extended_eq⟩

/-- Sums keep the order of their parts, although they are rounded. -/
theorem add_mono {x' y' : Float} (h : x ≤ y) (h' : x' ≤ y') (hbx : value x ≠ ⊥)
    (hbx' : value x' ≠ ⊥) : x + x' ≤ y + y' := by
  obtain ⟨⟨hnx, hny⟩, hle⟩ := le_iff.1 h
  obtain ⟨⟨hnx', hny'⟩, hle'⟩ := le_iff.1 h'
  obtain ⟨hn, hv⟩ := value_add hnx hnx' hbx hbx'
  obtain ⟨hn', hv'⟩ := value_add hny hny' (ne_bot_of_le_ne_bot hbx hle)
    (ne_bot_of_le_ne_bot hbx' hle')
  rw [le_iff_of_number hn hn', hv, hv']
  exact delivered_mono (add_le_add hle hle')

theorem le_value_add (hx : x.isNaN = false) (hbx : value x ≠ ⊥) (hy : 0.0 ≤ y) :
    (x + y).isNaN = false ∧ value x ≤ value (x + y) := by
  obtain ⟨⟨-, hny⟩, h⟩ := le_iff.1 hy
  rw [value_zero] at h
  obtain ⟨hn, hv⟩ := value_add hx hny hbx (ne_bot_of_gt (EReal.bot_lt_zero.trans_le h))
  refine ⟨hn, ?_⟩
  rw [hv, ← delivered_value x]
  exact delivered_mono (by simpa using le_add_of_nonneg_right h)

theorem mul_mono {c : Float} (h : x ≤ y) (hx : x.isFinite = true) (hy : y.isFinite = true)
    (hc : c.isFinite = true) (h0 : 0 ≤ number c) : x * c ≤ y * c := by
  obtain ⟨hn, hv⟩ := value_mul hx hc
  obtain ⟨hn', hv'⟩ := value_mul hy hc
  rw [le_iff_of_number hn hn', hv, hv']
  rw [le_iff_number hx hy] at h
  exact delivered_mono (EReal.coe_le_coe_iff.2 (mul_le_mul_of_nonneg_right h h0))

theorem exists_units_of_le {r : ℝ} {g : ℤ} (h : Representable .binary64 r)
    (hg : 2 ^ (g + 52) ≤ |r|) : ∃ n : ℤ, r = n * 2 ^ g := by
  have hscale : g + (Format.mantissaBits .binary64 : ℤ) - 1 = g + 52 := by
    have h53 : Format.mantissaBits .binary64 = 53 := rfl
    omega
  exact h.exists_units (.inr (hscale ▸ hg))

theorem zpow_le_sub {r t : ℝ} {g : ℤ} (hr : ∃ n : ℤ, r = n * 2 ^ g) (ht : ∃ n : ℤ, t = n * 2 ^ g)
    (h : r < t) : 2 ^ g ≤ t - r := by
  obtain ⟨n, rfl⟩ := hr
  obtain ⟨m, rfl⟩ := ht
  have hp : (0 : ℝ) < 2 ^ g := zpow_pos two_pos g
  have hlt : n + 1 ≤ m := by exact_mod_cast lt_of_mul_lt_mul_right h hp.le
  have hle : (n : ℝ) + 1 ≤ m := by exact_mod_cast hlt
  rw [← sub_mul]
  exact le_mul_of_one_le_left hp.le (by linarith)

theorem zpow_minExponent_le_sub {r t : ℝ} (hr : Representable .binary64 r)
    (ht : Representable .binary64 t) (h : r < t) : 2 ^ Format.minExponent .binary64 ≤ t - r :=
  zpow_le_sub (hr.exists_units (.inl rfl)) (ht.exists_units (.inl rfl)) h

/-- A positive difference never rounds to zero. -/
theorem value_sub_pos (h : x < y) (hbx : value x ≠ ⊥) :
    (y - x).isNaN = false ∧ 0 < value (y - x) := by
  obtain ⟨⟨hnx, hny⟩, hlt⟩ := lt_iff.1 h
  obtain ⟨hn, hv⟩ := value_sub hny hnx (ne_bot_of_gt hlt) (ne_top_of_lt hlt)
  have hfx : x.isFinite = true := isFinite_iff.2 ⟨hnx, hbx, ne_top_of_lt hlt⟩
  refine ⟨hn, ?_⟩
  rw [hv]
  by_cases hty : value y = ⊤
  · rw [hty, value_of_isFinite hfx, EReal.top_sub_coe, delivered_top]
    exact EReal.coe_lt_top 0
  · have hfy : y.isFinite = true := isFinite_iff.2 ⟨hny, ne_bot_of_gt hlt, hty⟩
    have hunit := zpow_minExponent_le_sub (representable_number x) (representable_number y)
      ((lt_iff_number hfx hfy).1 h)
    have hr : Representable .binary64 (2 ^ Format.minExponent .binary64) :=
      ⟨1, _, by decide, le_rfl, by simp⟩
    have hp : (0 : ℝ) < 2 ^ Format.minExponent .binary64 := by positivity
    have hl : |(2 : ℝ) ^ Format.minExponent .binary64| < 2 ^ 1024 := by
      rw [abs_of_pos hp]
      exact (zpow_le_one_of_nonpos₀ one_le_two (minExponent_nonpos _)).trans_lt
        (one_lt_pow₀ one_lt_two (by norm_num))
    have hmono : delivered .binary64 _ ≤ delivered .binary64 _ :=
      delivered_mono (EReal.coe_le_coe_iff.2 hunit)
    rw [delivered_representable hr hl] at hmono
    rw [value_of_isFinite hfx, value_of_isFinite hfy, ← EReal.coe_sub]
    exact (EReal.coe_pos.2 hp).trans_le hmono

theorem value_sub_le (hx : x.isNaN = false) (hs : 0.0 ≤ y) (h : value x ≠ ⊤ ∨ value y ≠ ⊤) :
    (x - y).isNaN = false ∧ value (x - y) ≤ value x := by
  obtain ⟨⟨-, hny⟩, h0⟩ := le_iff.1 hs
  rw [value_zero] at h0
  by_cases hd : value x ≠ ⊥ ∧ value y ≠ ⊤
  · obtain ⟨hn, hv⟩ := value_sub hx hny hd.1 hd.2
    refine ⟨hn, ?_⟩
    have hle : value x - value y ≤ value x := by
      simpa using EReal.sub_le_sub (le_refl (value x)) h0
    rw [hv, ← delivered_value x]
    exact delivered_mono (by rwa [delivered_value])
  · have hneg : UnpackedFloat.sub .binary64 x.toModel.unpack y.toModel.unpack =
        .infinity .negative := by
      refine sub_eq_negative hx hny ?_
      by_cases hb : value x = ⊥
      · exact .inl ⟨hb, ne_bot_of_gt (EReal.bot_lt_zero.trans_le h0)⟩
      · have ht : value y = ⊤ := not_not.1 fun ht => hd ⟨hb, ht⟩
        exact .inr ⟨h.resolve_right (not_not.2 ht), ht⟩
    have hd : Delivers .binary64 (.infinity .negative) ⊥ := delivers_infinity .negative
    rw [← hneg] at hd
    exact ⟨hd.isNaN, hd.extended_eq.trans_le bot_le⟩

theorem sub_mono_anti {x y z w : Float} (h : x ≤ y) (hzw : w ≤ z) (hbx : value x ≠ ⊥)
    (htz : value z ≠ ⊤) : x - z ≤ y - w := by
  obtain ⟨⟨hnx, hny⟩, hle⟩ := le_iff.1 h
  obtain ⟨⟨hnw, hnz⟩, hle'⟩ := le_iff.1 hzw
  obtain ⟨hn, hv⟩ := value_sub hnx hnz hbx htz
  obtain ⟨hn', hv'⟩ := value_sub hny hnw (ne_bot_of_le_ne_bot hbx hle)
    (ne_top_of_le_ne_top htz hle')
  rw [le_iff_of_number hn hn', hv, hv']
  exact delivered_mono (EReal.sub_le_sub hle hle')

theorem sub_mono {x y z : Float} (h : x ≤ y) (hbx : value x ≠ ⊥) (hz : z.isNaN = false)
    (htz : value z ≠ ⊤) : x - z ≤ y - z :=
  sub_mono_anti h (le_self_of_number hz) hbx htz

theorem nonneg_sub {x z : Float} (h : z ≤ x) (hz : z.isFinite = true) : 0.0 ≤ x - z := by
  obtain ⟨hnz, hbz, htz⟩ := isFinite_iff.1 hz
  have hself : 0.0 ≤ z - z := by
    obtain ⟨hn, hv⟩ := value_sub_number hz hz
    rw [le_iff_of_number isNaN_zero hn, value_zero, hv, sub_self, delivered_coe, rounded_zero,
      clip_coe (by simp [limit_pos])]
    exact le_rfl
  exact trans_le hself (sub_mono h hbz hnz htz)

theorem value_add_of_nonneg (hx : 0.0 ≤ x) (hy : y.isNaN = false) (h0 : 0 < value y) :
    0.0 ≤ x + y ∧ value x ≤ value (x + y) ∧ 0 < value (x + y) := by
  obtain ⟨⟨-, hnx⟩, hx0⟩ := le_iff.1 hx
  rw [value_zero] at hx0
  have hbx : value x ≠ ⊥ := ne_bot_of_gt (EReal.bot_lt_zero.trans_le hx0)
  have hby : value y ≠ ⊥ := ne_bot_of_gt (EReal.bot_lt_zero.trans h0)
  obtain ⟨hn, hle⟩ := le_value_add hnx hbx (le_iff.2 ⟨⟨isNaN_zero, hy⟩, value_zero ▸ h0.le⟩)
  have hpos : 0 < value (x + y) := by
    rw [(value_add hnx hy hbx hby).2]
    apply h0.trans_le
    rw [← delivered_value y]
    exact delivered_mono (by simpa using le_add_of_nonneg_left hx0)
  exact ⟨le_iff.2 ⟨⟨isNaN_zero, hn⟩, value_zero ▸ hpos.le⟩, hle, hpos⟩

end Sums

section Quotients

variable {c d : Float}

theorem value_div_top (hx : x.isFinite = true) (hd : d.isNaN = false) (ht : value d = ⊤) :
    (x / d).isNaN = false ∧ value (x / d) = 0 := by
  have hu : d.toModel.unpack = .infinity .positive :=
    (isFinite_or_top hd (ne_of_eq_of_ne ht top_ne_bot)).resolve_left fun hf =>
      (isFinite_iff.1 hf).2.2 ht
  obtain ⟨s, hs⟩ :
      ∃ s, UnpackedFloat.div .binary64 x.toModel.unpack d.toModel.unpack = .zero s := by
    rw [hu]
    change x.toModel.unpack.isFinite = true at hx
    cases hux : x.toModel.unpack with
    | zero | finite => exact ⟨_, rfl⟩
    | infinity | notANumber =>
      rw [hux] at hx
      cases hx
  have hz : (x / d).toModel.unpack = .zero s := by
    change UnpackedFloat.unpack .binary64 (UnpackedFloat.pack .binary64
      (UnpackedFloat.div .binary64 x.toModel.unpack d.toModel.unpack)) = _
    rw [hs]
    exact unpack_zero s
  constructor
  · change (x / d).toModel.unpack.isNaN = false
    rw [hz]
    rfl
  · rw [value, hz]
    rfl

theorem div_between (hlo : -c ≤ x) (hhi : x ≤ c) (hc : c.isFinite = true) (hnd : d.isNaN = false)
    (h1 : 1 ≤ value d) :
    -c ≤ x / d ∧ x / d ≤ c := by
  have hx : x.isFinite = true := isFinite_of_between hlo hhi (isFinite_neg hc) hc
  rw [le_iff_number (isFinite_neg hc) hx, number_neg] at hlo
  rw [le_iff_number hx hc] at hhi
  obtain ⟨r, hn, hv, hr⟩ : ∃ r : ℝ, (x / d).isNaN = false ∧ value (x / d) = delivered .binary64 r ∧
      -number c ≤ r ∧ r ≤ number c := by
    by_cases ht : value d = ⊤
    · obtain ⟨hn, hv⟩ := value_div_top hx hnd ht
      refine ⟨0, hn, ?_, by linarith, by linarith⟩
      rw [hv, delivered_representable .zero (by simp)]
      rfl
    · have hfd : d.isFinite = true :=
        isFinite_iff.2 ⟨hnd, ne_bot_of_le_ne_bot (EReal.coe_ne_bot 1) h1, ht⟩
      rw [value_of_isFinite hfd] at h1
      have h1 : 1 ≤ number d := EReal.coe_le_coe_iff.1 h1
      have hpos : 0 < number d := one_pos.trans_le h1
      obtain ⟨hn, hv⟩ := value_div hx hfd hpos.ne'
      refine ⟨_, hn, hv, ?_, ?_⟩
      · rw [le_div_iff₀ hpos]
        nlinarith
      · rw [div_le_iff₀ hpos]
        nlinarith
  have hnc := isNaN_of_isFinite hc
  have hnc' := isNaN_of_isFinite (isFinite_neg hc)
  rw [le_iff_of_number hnc' hn, le_iff_of_number hn hnc, hv, ← delivered_value c,
    ← delivered_value (-c), value_of_isFinite hc, value_of_isFinite (isFinite_neg hc), number_neg]
  exact ⟨delivered_mono (EReal.coe_le_coe_iff.2 hr.1), delivered_mono (EReal.coe_le_coe_iff.2 hr.2)⟩

end Quotients

end Relief.Binary
