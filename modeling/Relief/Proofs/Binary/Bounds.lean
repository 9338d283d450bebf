import Relief.Proofs.Binary.Whole

namespace Relief.Binary

open Float.Model Float.Model.UnpackedFloat

section Vanishing

variable {spec : Format} {x : ℝ}

theorem representable_zpow {k : ℤ} (h : spec.minExponent ≤ k) : Representable spec (2 ^ k) := by
  refine ⟨1, k, ?_, h, by simp⟩
  rw [abs_one]
  exact one_lt_pow₀ one_lt_two (by simp [Format.mantissaBits])

theorem rounded_half_least (spec : Format) : rounded spec (2 ^ (spec.minExponent - 1)) = 0 := by
  have hp : (0 : ℝ) < 2 ^ (spec.minExponent - 1) := zpow_pos two_pos _
  have hu : unitExponent spec (2 ^ (spec.minExponent - 1)) = spec.minExponent := by
    have hlog : Int.log 2 ((2 : ℝ) ^ (spec.minExponent - 1)) = spec.minExponent - 1 := by
      exact_mod_cast Int.log_zpow (R := ℝ) one_lt_two (spec.minExponent - 1)
    rw [unitExponent, abs_of_pos hp, hlog]
    omega
  have hhalf : (2 : ℝ) ^ (spec.minExponent - 1) / 2 ^ spec.minExponent = 1 / 2 := by
    rw [zpow_sub_one₀ two_ne_zero]
    field_simp
  have heven : nearestEven (1 / 2) = 0 := by
    rw [nearestEven]
    norm_num
  rw [rounded, hu, hhalf, heven, Int.cast_zero, zero_mul]

theorem rounded_pos_iff : 0 < rounded spec x ↔ 2 ^ (spec.minExponent - 1) < x := by
  have hleast : (2 : ℝ) ^ spec.minExponent = 2 * 2 ^ (spec.minExponent - 1) := by
    rw [← zpow_one_add₀ two_ne_zero]
    congr 1
    ring
  have hp : (0 : ℝ) < 2 ^ (spec.minExponent - 1) := zpow_pos two_pos _
  constructor
  · intro h
    by_contra hx
    exact h.not_ge ((rounded_mono (not_lt.1 hx)).trans_eq (rounded_half_least spec))
  · intro h
    by_contra hr
    -- the least positive number would be nearer
    have hnear := abs_rounded_sub_le_abs (representable_zpow (le_refl spec.minExponent)) x
    rw [abs_of_nonpos (by linarith : rounded spec x - x ≤ 0)] at hnear
    rcases abs_cases ((2 : ℝ) ^ spec.minExponent - x) with ⟨ha, -⟩ | ⟨ha, -⟩ <;> linarith

theorem delivered_pos_iff : 0 < delivered spec x ↔ 2 ^ (spec.minExponent - 1) < x := by
  rw [← rounded_pos_iff, delivered_coe]
  have hl := limit_pos spec
  rcases le_or_gt (limit spec : EReal) (rounded spec x) with h | h
  · rw [clip_of_le h]
    exact iff_of_true (EReal.coe_lt_top 0) (hl.trans_le (EReal.coe_le_coe_iff.1 h))
  · rcases le_or_gt (rounded spec x : EReal) (-limit spec) with h' | h'
    · rw [clip_of_le_neg h']
      have hneg : rounded spec x ≤ -limit spec := by exact_mod_cast h'
      exact iff_of_false (not_lt.2 bot_le) (by linarith)
    · rw [clip_of_lt h' h]
      exact EReal.coe_pos

end Vanishing

section Bounds

def Exact (r : ℝ) : Prop :=
  Representable .binary64 r ∧ |r| < limit .binary64

theorem exact_zero : Exact 0 :=
  ⟨.zero, abs_zero.trans_lt (limit_pos _)⟩

theorem exact_zpow {k : ℤ} (h : -1074 ≤ k) (h' : k < 1024) : Exact (2 ^ k) := by
  refine ⟨representable_zpow h, ?_⟩
  rw [abs_of_pos (zpow_pos two_pos k), limit_binary64, ← zpow_natCast]
  exact zpow_lt_zpow_right₀ one_lt_two h'

theorem Exact.neg {r : ℝ} (h : Exact r) : Exact (-r) :=
  ⟨h.1.neg, by rw [abs_neg]; exact h.2⟩

variable {x y z : Float} {r lo hi : ℝ}

theorem exact_number (x : Float) : Exact (number x) :=
  ⟨representable_number x, abs_real_lt_limit (by decide) (canonical_toModel x) (inRange_toModel x)⟩

/-- A finite number between two real numbers. -/
structure Between (lo hi : ℝ) (x : Float) : Prop where
  isFinite : x.isFinite = true
  lo_le : lo ≤ number x
  le_hi : number x ≤ hi

theorem between_number (hlo : x ≤ y) (hhi : y ≤ z) (hx : x.isFinite = true)
    (hz : z.isFinite = true) : Between (number x) (number z) y := by
  have hy := isFinite_of_between hlo hhi hx hz
  exact ⟨hy, (le_iff_number hx hy).1 hlo, (le_iff_number hy hz).1 hhi⟩

theorem between_one (hlo : -1.0 ≤ x) (hhi : x ≤ 1.0) : Between (-1) 1 x := by
  obtain ⟨hf, hone⟩ := number_one
  have h := between_number hlo hhi (isFinite_neg hf) hf
  rwa [number_neg, hone] at h

theorem Between.mono {lo' hi' : ℝ} (h : Between lo hi x) (hlo : lo' ≤ lo) (hhi : hi ≤ hi') :
    Between lo' hi' x :=
  ⟨h.isFinite, hlo.trans h.lo_le, h.le_hi.trans hhi⟩

theorem number_of_delivered (hlo : Exact lo) (hhi : Exact hi) (h : lo ≤ r) (h' : r ≤ hi)
    (hz : z.isNaN = false ∧ value z = delivered .binary64 r) :
    z.isFinite = true ∧ number z = rounded .binary64 r := by
  obtain ⟨hn, hv⟩ := hz
  have hl : lo ≤ rounded .binary64 r := hlo.1.rounded_eq ▸ rounded_mono h
  have hh : rounded .binary64 r ≤ hi := hhi.1.rounded_eq ▸ rounded_mono h'
  have hlt : |rounded .binary64 r| < limit .binary64 :=
    abs_lt.2 ⟨(abs_lt.1 hlo.2).1.trans_le hl, hh.trans_lt (abs_lt.1 hhi.2).2⟩
  rw [delivered_coe, clip_coe hlt] at hv
  exact isFinite_of_value_eq hn hv

theorem Between.of_delivered (hlo : Exact lo) (hhi : Exact hi) (h : lo ≤ r) (h' : r ≤ hi)
    (hz : z.isNaN = false ∧ value z = delivered .binary64 r) : Between lo hi z := by
  obtain ⟨hf, hn⟩ := number_of_delivered hlo hhi h h' hz
  refine ⟨hf, ?_, ?_⟩
  · rw [hn, ← hlo.1.rounded_eq]
    exact rounded_mono h
  · rw [hn, ← hhi.1.rounded_eq]
    exact rounded_mono h'

theorem between_add (hx : x.isFinite = true) (hy : y.isFinite = true) (hlo : Exact lo)
    (hhi : Exact hi) (h : lo ≤ number x + number y) (h' : number x + number y ≤ hi) :
    Between lo hi (x + y) :=
  .of_delivered hlo hhi h h' (value_add_number hx hy)

theorem between_sub (hx : x.isFinite = true) (hy : y.isFinite = true) (hlo : Exact lo)
    (hhi : Exact hi) (h : lo ≤ number x - number y) (h' : number x - number y ≤ hi) :
    Between lo hi (x - y) :=
  .of_delivered hlo hhi h h' (value_sub_number hx hy)

theorem between_mul (hx : x.isFinite = true) (hy : y.isFinite = true) (hlo : Exact lo)
    (hhi : Exact hi) (h : lo ≤ number x * number y) (h' : number x * number y ≤ hi) :
    Between lo hi (x * y) :=
  .of_delivered hlo hhi h h' (value_mul hx hy)

theorem between_div (hx : x.isFinite = true) (hy : y.isFinite = true) (h0 : number y ≠ 0)
    (hlo : Exact lo) (hhi : Exact hi) (h : lo ≤ number x / number y)
    (h' : number x / number y ≤ hi) : Between lo hi (x / y) :=
  .of_delivered hlo hhi h h' (value_div hx hy h0)

theorem Between.magnitude_le {c : Float} (h : Between (-number c) (number c) x)
    (hc : c.isFinite = true) : magnitude x ≤ c := by
  obtain ⟨hf, hm⟩ := number_magnitude h.isFinite
  rw [le_iff_number hf hc, hm, abs_le]
  exact ⟨h.lo_le, h.le_hi⟩

/-- The middle of two numbers lies between them, although it is rounded twice. -/
theorem between_middle (h : x ≤ y) (hx : x.isFinite = true) (hy : y.isFinite = true)
    (hbx : |number x| < 2 ^ 200) (hby : |number y| < 2 ^ 200) :
    Between (number x) (number y) (0.5 * (x + y)) := by
  have hle := (le_iff_number hx hy).1 h
  have hlo : Exact (2 * number x) := (number_double hx hbx).2 ▸ exact_number (2.0 * x)
  have hhi : Exact (2 * number y) := (number_double hy hby).2 ▸ exact_number (2.0 * y)
  have hsum : Between (2 * number x) (2 * number y) (x + y) :=
    between_add hx hy hlo hhi (by linarith) (by linarith)
  obtain ⟨hf, hhalf⟩ := number_half
  apply between_mul hf hsum.isFinite (exact_number x) (exact_number y)
  · rw [hhalf]
    linarith [hsum.lo_le]
  · rw [hhalf]
    linarith [hsum.le_hi]

theorem mul_pos_iff_number (hx : x.isFinite = true) (hy : y.isFinite = true) :
    0.0 < x * y ↔ 2 ^ (-1075 : ℤ) < number x * number y := by
  obtain ⟨hn, hv⟩ := value_mul hx hy
  rw [lt_iff_of_number isNaN_zero hn, value_zero, hv]
  exact delivered_pos_iff

theorem mul_pos_of_one_le (hx : x.isFinite = true) (hy : y.isFinite = true) (h0 : 0 < number x)
    (h1 : 1 ≤ number y) : 0.0 < x * y := by
  have hleast := zpow_minExponent_le_sub .zero (representable_number x) h0
  rw [sub_zero] at hleast
  rw [mul_pos_iff_number hx hy]
  calc (2 : ℝ) ^ (-1075 : ℤ) < 2 ^ (-1074 : ℤ) := zpow_lt_zpow_right₀ one_lt_two (by decide)
    _ ≤ number x := hleast
    _ ≤ number x * number y := le_mul_of_one_le_right h0.le h1

end Bounds

section Powers

variable {x y : Float} {i j k l : ℤ}

theorem Between.exponent_le (h : Between (2 ^ i) (2 ^ j) x) : i ≤ j :=
  (zpow_le_zpow_iff_right₀ one_lt_two).1 (h.lo_le.trans h.le_hi)

theorem Between.pos (h : Between (2 ^ i) (2 ^ j) x) : 0 < number x :=
  (zpow_pos two_pos i).trans_le h.lo_le

theorem Between.mul_zpow (hx : Between (2 ^ i) (2 ^ j) x) (hy : Between (2 ^ k) (2 ^ l) y)
    (hlo : -1074 ≤ i + k) (hhi : j + l < 1024) :
    Between (2 ^ (i + k)) (2 ^ (j + l)) (x * y) := by
  have hij := hx.exponent_le
  have hkl := hy.exponent_le
  refine between_mul hx.isFinite hy.isFinite (exact_zpow hlo (by omega))
    (exact_zpow (by omega) hhi) ?_ ?_
  · rw [zpow_add₀ two_ne_zero]
    exact mul_le_mul hx.lo_le hy.lo_le (by positivity) hx.pos.le
  · rw [zpow_add₀ two_ne_zero]
    exact mul_le_mul hx.le_hi hy.le_hi hy.pos.le (by positivity)

theorem Between.div_zpow (hx : Between (2 ^ i) (2 ^ j) x) (hy : Between (2 ^ k) (2 ^ l) y)
    (hlo : -1074 ≤ i - l) (hhi : j - k < 1024) :
    Between (2 ^ (i - l)) (2 ^ (j - k)) (x / y) := by
  have hij := hx.exponent_le
  have hkl := hy.exponent_le
  refine between_div hx.isFinite hy.isFinite hy.pos.ne' (exact_zpow hlo (by omega))
    (exact_zpow (by omega) hhi) ?_ ?_
  · rw [zpow_sub₀ two_ne_zero]
    exact div_le_div₀ hx.pos.le hx.lo_le hy.pos hy.le_hi
  · rw [zpow_sub₀ two_ne_zero]
    exact div_le_div₀ (by positivity) hx.le_hi (by positivity) hy.lo_le

theorem between_natCast {n : ℕ} (h : 1 ≤ n) (hle : n ≤ 2 ^ 64) :
    Between (2 ^ (0 : ℤ)) (2 ^ (64 : ℤ)) (n : Float) := by
  have hlo : Exact (2 ^ (0 : ℤ)) := exact_zpow (by decide) (by decide)
  have hhi : Exact (2 ^ (64 : ℤ)) := exact_zpow (by decide) (by decide)
  refine .of_delivered hlo hhi ?_ ?_ (value_natCast n)
  · rw [zpow_zero]
    exact_mod_cast h
  · exact_mod_cast hle

theorem number_of_unpack {x : Float} {m : ℕ} {e : ℤ} {hm : 0 < m}
    (h : x.toModel.unpack = .finite .positive m e hm) : number x = m * 2 ^ e := by
  rw [number, h]
  rfl

theorem between_of_unpack {m : ℕ} {e : ℤ} {hm : 0 < m}
    (h : x.toModel.unpack = .finite .positive m e hm) (hlo : 2 ^ 52 ≤ m)
    (hhi : m ≤ 2 ^ 53) :
    Between (2 ^ (e + 52)) (2 ^ (e + 53)) x := by
  have hn := number_of_unpack h
  have hp : (0 : ℝ) < 2 ^ e := zpow_pos two_pos e
  have hlo' : (2 : ℝ) ^ (52 : ℤ) ≤ m := by exact_mod_cast hlo
  have hhi' : (m : ℝ) ≤ 2 ^ (53 : ℤ) := by exact_mod_cast hhi
  refine ⟨?_, ?_, ?_⟩
  · change x.toModel.unpack.isFinite = true
    rw [h]
    rfl
  · rw [hn, zpow_add₀ two_ne_zero, mul_comm]
    exact mul_le_mul_of_nonneg_right hlo' hp.le
  · rw [hn, zpow_add₀ two_ne_zero, mul_comm (2 ^ e)]
    exact mul_le_mul_of_nonneg_right hhi' hp.le

end Powers

section Infinite

variable {x y : Float}

theorem unpack_of_top (hn : x.isNaN = false) (ht : value x = ⊤) :
    x.toModel.unpack = .infinity .positive :=
  (isFinite_or_top hn (ne_of_eq_of_ne ht top_ne_bot)).resolve_left fun hf =>
    (isFinite_iff.1 hf).2.2 ht

theorem unpack_of_pos (hy : y.isFinite = true) (h : 0 < number y) :
    ∃ m e hm, y.toModel.unpack = .finite .positive m e hm := by
  change y.toModel.unpack.isFinite = true at hy
  rw [number] at h
  cases hu : y.toModel.unpack with
  | finite s m e hm =>
    cases s with
    | positive => exact ⟨m, e, hm, rfl⟩
    | negative =>
      rw [hu] at h
      exact absurd h (real_negative hm).not_gt
  | zero s =>
    rw [hu] at h
    exact absurd h (lt_irrefl 0)
  | infinity | notANumber =>
    rw [hu] at hy
    cases hy

theorem value_top_mul (hn : x.isNaN = false) (ht : value x = ⊤) (hy : y.isFinite = true)
    (h : 0 < number y) : (x * y).isNaN = false ∧ value (x * y) = ⊤ := by
  obtain ⟨m, e, hm, hu⟩ := unpack_of_pos hy h
  have hd : Delivers .binary64 (.infinity .positive) ⊤ := delivers_infinity .positive
  have hmul : UnpackedFloat.mul .binary64 x.toModel.unpack y.toModel.unpack =
      .infinity .positive := by
    rw [unpack_of_top hn ht, hu]
    rfl
  rw [← hmul] at hd
  exact ⟨hd.isNaN, hd.extended_eq.trans delivered_top⟩

theorem value_top_div (hn : x.isNaN = false) (ht : value x = ⊤) (hy : y.isFinite = true)
    (h : 0 < number y) : (x / y).isNaN = false ∧ value (x / y) = ⊤ := by
  obtain ⟨m, e, hm, hu⟩ := unpack_of_pos hy h
  have hd : Delivers .binary64 (.infinity .positive) ⊤ := delivers_infinity .positive
  have hdiv : UnpackedFloat.div .binary64 x.toModel.unpack y.toModel.unpack =
      .infinity .positive := by
    rw [unpack_of_top hn ht, hu]
    rfl
  rw [← hdiv] at hd
  exact ⟨hd.isNaN, hd.extended_eq.trans delivered_top⟩

/-- A number from a real number on, infinity included. -/
def AtLeast (lo : ℝ) (x : Float) : Prop :=
  x.isNaN = false ∧ lo ≤ value x

namespace AtLeast

variable {lo r : ℝ} {i k l : ℤ}

theorem finite_or_top (h : AtLeast lo x) :
    (x.isFinite = true ∧ lo ≤ number x) ∨ value x = ⊤ := by
  obtain ⟨hn, hle⟩ := h
  by_cases ht : value x = ⊤
  · exact .inr ht
  · have hf : x.isFinite = true :=
      isFinite_iff.2 ⟨hn, ne_bot_of_le_ne_bot (EReal.coe_ne_bot _) hle, ht⟩
    rw [value_of_isFinite hf] at hle
    exact .inl ⟨hf, EReal.coe_le_coe_iff.1 hle⟩

theorem pos (h : AtLeast (2 ^ k) x) : 0.0 < x := by
  obtain ⟨hn, hle⟩ := h
  rw [lt_iff_of_number isNaN_zero hn, value_zero]
  exact (EReal.coe_pos.2 (zpow_pos two_pos k)).trans_le hle

theorem of_top (h : x.isNaN = false ∧ value x = ⊤) : AtLeast lo x :=
  ⟨h.1, h.2 ▸ le_top⟩

theorem of_delivered (hexact : Exact lo) (h : lo ≤ r)
    (hx : x.isNaN = false ∧ value x = delivered .binary64 r) : AtLeast lo x := by
  have hle : delivered .binary64 _ ≤ delivered .binary64 _ :=
    delivered_mono (EReal.coe_le_coe_iff.2 h)
  rw [delivered_representable hexact.1 hexact.2, ← hx.2] at hle
  exact ⟨hx.1, hle⟩

theorem mul (hx : AtLeast (2 ^ i) x) (hy : Between (2 ^ k) (2 ^ l) y)
    (hlo : -1074 ≤ i + k) (hhi : i + k < 1024) :
    AtLeast (2 ^ (i + k)) (x * y) := by
  rcases hx.finite_or_top with ⟨hf, hle⟩ | ht
  · refine of_delivered (exact_zpow hlo hhi) ?_ (value_mul hf hy.isFinite)
    have hx0 : 0 ≤ number x := (zpow_pos two_pos i).le.trans hle
    rw [zpow_add₀ two_ne_zero]
    exact mul_le_mul hle hy.lo_le (by positivity) hx0
  · exact of_top (value_top_mul hx.1 ht hy.isFinite hy.pos)

theorem div (hx : AtLeast (2 ^ i) x) (hy : Between (2 ^ k) (2 ^ l) y)
    (hlo : -1074 ≤ i - l) (hhi : i - l < 1024) :
    AtLeast (2 ^ (i - l)) (x / y) := by
  rcases hx.finite_or_top with ⟨hf, hle⟩ | ht
  · refine of_delivered (exact_zpow hlo hhi) ?_ (value_div hf hy.isFinite hy.pos.ne')
    have hx0 : 0 ≤ number x := (zpow_pos two_pos i).le.trans hle
    rw [zpow_sub₀ two_ne_zero]
    exact div_le_div₀ hx0 hle hy.pos hy.le_hi
  · exact of_top (value_top_div hx.1 ht hy.isFinite hy.pos)

end AtLeast

theorem zpow_le_sub_of_far {r t : ℝ} (hr : Representable .binary64 r)
    (ht : Representable .binary64 t) (h : r < t) (hfar : 64 ≤ t) : 2 ^ (-47 : ℤ) ≤ t - r := by
  rcases le_or_gt r 32 with hle | hgt
  · have hgap : (2 : ℝ) ^ (-47 : ℤ) ≤ 1 := zpow_le_one_of_nonpos₀ one_le_two (by decide)
    linarith
  · have hscale : (2 : ℝ) ^ (-47 + 52 : ℤ) = 32 := by norm_num
    have hr' : 2 ^ (-47 + 52 : ℤ) ≤ |r| := hscale.trans_le (hgt.le.trans (le_abs_self r))
    have ht' : 2 ^ (-47 + 52 : ℤ) ≤ |t| :=
      hscale.trans_le ((hgt.trans h).le.trans (le_abs_self t))
    exact zpow_le_sub (exists_units_of_le hr hr') (exists_units_of_le ht ht') h

theorem atLeast_sub (h : x < y) (hx : x.isFinite = true) (hy : y.isFinite = true)
    (hfar : number x ≤ -64 ∨ 64 ≤ number y) : AtLeast (2 ^ (-47 : ℤ)) (y - x) := by
  have hlt := (lt_iff_number hx hy).1 h
  have hrx := representable_number x
  have hry := representable_number y
  refine .of_delivered (exact_zpow (by decide) (by decide)) ?_ (value_sub_number hy hx)
  rcases hfar with hfar | hfar
  · have hgap := zpow_le_sub_of_far hry.neg hrx.neg (neg_lt_neg hlt) (by linarith)
    linarith
  · exact zpow_le_sub_of_far hrx hry hlt hfar

end Infinite

end Relief.Binary
