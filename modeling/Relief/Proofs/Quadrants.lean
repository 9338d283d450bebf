import Relief.Proofs.Bearing

namespace Relief

open Real

noncomputable def normalized (bearing : ℝ) : ℝ :=
  360 * Int.fract (bearing / 360)

/-- The bearings strictly between two neighbouring multiples of 90. -/
def quadrant (k : ℕ) : Set ℝ :=
  Set.Ioo (90 * k) (90 * k + 90)

def Spacing.swapped (spacing : Spacing ℝ) : Spacing ℝ :=
  ⟨spacing.y, spacing.x⟩

section Degrees

variable {x y : ℝ}

theorem toRadians_add (x y : ℝ) : toRadians (x + y) = toRadians x + toRadians y := by
  rw [toRadians_real, toRadians_real, toRadians_real, add_mul]

theorem toRadians_sub (x y : ℝ) : toRadians (x - y) = toRadians x - toRadians y := by
  rw [toRadians_real, toRadians_real, toRadians_real, sub_mul]

theorem toRadians_turns (k : ℤ) : toRadians (360 * k : ℝ) = k * (2 * π) := by
  rw [toRadians_real]
  ring

theorem toRadians_ninety : toRadians (90 : ℝ) = π / 2 := by
  rw [toRadians_real]
  ring

theorem toRadians_lt : toRadians x < toRadians y ↔ x < y := by
  rw [toRadians_real, toRadians_real]
  exact mul_lt_mul_iff_left₀ (by positivity)

theorem toRadians_zero : toRadians (0 : ℝ) = 0 := by
  rw [toRadians_real, zero_mul]

theorem normalized_mem (x : ℝ) : normalized x ∈ Set.Ico 0 360 := by
  have h0 := Int.fract_nonneg (x / 360)
  have h1 := Int.fract_lt_one (x / 360)
  rw [normalized]
  constructor <;> linarith

theorem exists_normalized_eq (x : ℝ) : ∃ k : ℤ, normalized x = x + 360 * k := by
  refine ⟨-⌊x / 360⌋, ?_⟩
  rw [normalized, Int.fract]
  push_cast
  ring

theorem normalized_of_mem (h : x ∈ Set.Ico 0 360) : normalized x = x := by
  obtain ⟨h0, h1⟩ := h
  rw [normalized, Int.fract_eq_self.2 ⟨by positivity, by linarith⟩]
  ring

end Degrees

/-- Of all angles from three quarter turns back to a turn ahead, only those of the first quadrant
have positive sine and cosine. -/
theorem first_quarter {θ : ℝ} (hlo : -(π + π / 2) ≤ θ) (hhi : θ < 2 * π) (hcos : 0 < Real.cos θ)
    (hsin : 0 < Real.sin θ) : 0 < θ ∧ θ < π / 2 := by
  have hpi := Real.pi_pos
  constructor
  · by_contra! h
    rcases le_or_gt (-π) θ with hnear | hfar
    · exact absurd hsin (Real.sin_nonpos_of_nonpos_of_neg_pi_le h hnear).not_gt
    · rw [← Real.cos_neg] at hcos
      have hle := Real.cos_nonpos_of_pi_div_two_le_of_le (x := -θ) (by linarith) (by linarith)
      exact absurd hcos hle.not_gt
  · by_contra! h
    rcases le_or_gt θ (π + π / 2) with hnear | hfar
    · exact absurd hcos (Real.cos_nonpos_of_pi_div_two_le_of_le h hnear).not_gt
    · rw [← Real.sin_sub_two_pi] at hsin
      have hle := Real.sin_nonpos_of_nonpos_of_neg_pi_le (x := θ - 2 * π) (by linarith)
        (by linarith)
      exact absurd hsin hle.not_gt

section Lines

variable {spacing : Spacing ℝ} {x y a b g : ℝ}

/-- Over cells of some spacing the line of a bearing on the ground leads in a direction. -/
def Leads (spacing : Spacing ℝ) (bearing direction : ℝ) : Prop :=
  ∃ r > 0, spacing.x * Real.cos (toRadians bearing) = r * Real.cos (toRadians direction) ∧
    spacing.y * Real.sin (toRadians bearing) = r * Real.sin (toRadians direction)

namespace Leads

theorem add_turns (h : Leads spacing a g) (j k : ℤ) :
    Leads spacing (a + 360 * j) (g + 360 * k) := by
  obtain ⟨r, hr, hcos, hsin⟩ := h
  refine ⟨r, hr, ?_, ?_⟩
  · rw [toRadians_add, toRadians_add, toRadians_turns, toRadians_turns,
      Real.cos_add_int_mul_two_pi, Real.cos_add_int_mul_two_pi, hcos]
  · rw [toRadians_add, toRadians_add, toRadians_turns, toRadians_turns,
      Real.sin_add_int_mul_two_pi, Real.sin_add_int_mul_two_pi, hsin]

theorem unique (hg : Leads spacing a x) (hg' : Leads spacing a y) (hx : x ∈ Set.Ico 0 360)
    (hy : y ∈ Set.Ico 0 360) : x = y := by
  obtain ⟨r, hr, hcos, hsin⟩ := hg
  obtain ⟨s, hs, hcos', hsin'⟩ := hg'
  rw [hcos] at hcos'
  rw [hsin] at hsin'
  have hlength : r = s := by
    have hsq : r ^ 2 = s ^ 2 := by
      calc r ^ 2 = (r * Real.cos (toRadians x)) ^ 2 + (r * Real.sin (toRadians x)) ^ 2 := by
            rw [mul_pow, mul_pow, ← mul_add, Real.cos_sq_add_sin_sq, mul_one]
        _ = s ^ 2 := by
            rw [hcos', hsin', mul_pow, mul_pow, ← mul_add, Real.cos_sq_add_sin_sq, mul_one]
    exact (pow_left_inj₀ hr.le hs.le two_ne_zero).1 hsq
  subst hlength
  have hangle := Real.Angle.cos_sin_inj (mul_left_cancel₀ hr.ne' hcos')
    (mul_left_cancel₀ hr.ne' hsin')
  obtain ⟨k, hk⟩ := Real.Angle.angle_eq_iff_two_pi_dvd_sub.1 hangle
  have hturns : x - y = 360 * k := by
    rw [← toRadians_sub, toRadians_real] at hk
    have hpi := Real.pi_pos
    field_simp at hk
    linarith
  have hk0 : k = 0 := by
    have h1 : (k : ℝ) < 1 := by linarith [hx.2, hy.1]
    have h2 : (-1 : ℝ) < k := by linarith [hx.1, hy.2]
    have h1 : k < 1 := by exact_mod_cast h1
    have h2 : -1 < k := by exact_mod_cast h2
    omega
  rw [hk0, Int.cast_zero, mul_zero] at hturns
  linarith

theorem swap (h : Leads spacing a g) (hx : 0 < spacing.x) (hy : 0 < spacing.y) :
    Leads spacing.swapped g a := by
  obtain ⟨r, hr, hcos, hsin⟩ := h
  refine ⟨spacing.x * spacing.y / r, by positivity, ?_, ?_⟩
  · change spacing.y * Real.cos (toRadians g) = _
    rw [div_mul_eq_mul_div, eq_div_iff hr.ne']
    linear_combination -spacing.y * hcos
  · change spacing.x * Real.sin (toRadians g) = _
    rw [div_mul_eq_mul_div, eq_div_iff hr.ne']
    linear_combination -spacing.x * hsin

theorem quarter_back (h : Leads spacing a g) : Leads spacing.swapped (a - 90) (g - 90) := by
  obtain ⟨r, hr, hcos, hsin⟩ := h
  refine ⟨r, hr, ?_, ?_⟩
  · rw [toRadians_sub, toRadians_sub, toRadians_ninety, Real.cos_sub_pi_div_two,
      Real.cos_sub_pi_div_two]
    exact hsin
  · rw [toRadians_sub, toRadians_sub, toRadians_ninety, Real.sin_sub_pi_div_two,
      Real.sin_sub_pi_div_two, mul_neg, mul_neg]
    exact congrArg Neg.neg hcos

theorem quarters_back (h : Leads spacing a g) (hx : 0 < spacing.x) (hy : 0 < spacing.y) (k : ℕ) :
    ∃ other : Spacing ℝ, 0 < other.x ∧ 0 < other.y ∧ Leads other (a - 90 * k) (g - 90 * k) := by
  induction k with
  | zero => exact ⟨spacing, hx, hy, by simpa using h⟩
  | succ k ih =>
    obtain ⟨other, hx, hy, hother⟩ := ih
    refine ⟨other.swapped, hy, hx, ?_⟩
    have hback := hother.quarter_back
    have hturn (z : ℝ) : z - 90 * (k + 1 : ℕ) = z - 90 * k - 90 := by
      push_cast
      ring
    rwa [hturn, hturn]

theorem mem_quadrant {k : ℕ} (h : Leads spacing a g) (hx : 0 < spacing.x) (hy : 0 < spacing.y)
    (hk : k < 4) (ha : a ∈ quadrant k) (hg : g ∈ Set.Ico 0 360) : g ∈ quadrant k := by
  -- Turned back by whole quarters the bearing lies in the first one, where both its sine and its
  -- cosine are positive.
  obtain ⟨other, hx, hy, r, hr, hcos, hsin⟩ := h.quarters_back hx hy k
  have hk3 : (k : ℝ) ≤ 3 := by exact_mod_cast Nat.le_of_lt_succ hk
  have hpi := Real.pi_pos
  have hrise : 0 < toRadians (a - 90 * k) ∧ toRadians (a - 90 * k) < π / 2 := by
    rw [← toRadians_zero, ← toRadians_ninety, toRadians_lt, toRadians_lt]
    constructor <;> linarith [ha.1, ha.2]
  have hcos_pos : 0 < Real.cos (toRadians (g - 90 * k)) := by
    have hpos := Real.cos_pos_of_mem_Ioo ⟨by linarith [hrise.1], hrise.2⟩
    exact pos_of_mul_pos_right (hcos ▸ mul_pos hx hpos) hr.le
  have hsin_pos : 0 < Real.sin (toRadians (g - 90 * k)) := by
    have hpos := Real.sin_pos_of_pos_of_lt_pi hrise.1 (by linarith [hrise.2])
    exact pos_of_mul_pos_right (hsin ▸ mul_pos hy hpos) hr.le
  have hlo : -(π + π / 2) ≤ toRadians (g - 90 * k) := by
    rw [toRadians_real]
    nlinarith [hg.1]
  have hhi : toRadians (g - 90 * k) < 2 * π := by
    rw [toRadians_real]
    nlinarith [hg.2]
  have hfirst := first_quarter hlo hhi hcos_pos hsin_pos
  rw [← toRadians_zero, ← toRadians_ninety, toRadians_lt, toRadians_lt] at hfirst
  exact ⟨by linarith [hfirst.1], by linarith [hfirst.2]⟩

theorem lt_of_lt {k : ℕ} {g' : ℝ} (hg : Leads spacing a g) (hg' : Leads spacing b g')
    (hx : 0 < spacing.x) (hy : 0 < spacing.y) (ha : a ∈ quadrant k) (hb : b ∈ quadrant k)
    (hgk : g ∈ quadrant k) (hgk' : g' ∈ quadrant k) (hlt : a < b) : g < g' := by
  obtain ⟨r, hr, hcos, hsin⟩ := hg
  obtain ⟨s, hs, hcos', hsin'⟩ := hg'
  have hpi := Real.pi_pos
  have hsource : 0 < Real.sin (toRadians b - toRadians a) := by
    rw [← toRadians_sub, toRadians_real]
    apply Real.sin_pos_of_pos_of_lt_pi
    · nlinarith
    · nlinarith [ha.1, hb.2]
  -- The cross product of two lines is scaled by the area of a cell, so its sign is kept.
  have hcross : r * s * Real.sin (toRadians g' - toRadians g) =
      spacing.x * spacing.y * Real.sin (toRadians b - toRadians a) := by
    calc r * s * Real.sin (toRadians g' - toRadians g) =
          r * Real.cos (toRadians g) * (s * Real.sin (toRadians g')) -
            r * Real.sin (toRadians g) * (s * Real.cos (toRadians g')) := by
          rw [Real.sin_sub]
          ring
      _ = spacing.x * spacing.y * Real.sin (toRadians b - toRadians a) := by
          rw [← hcos, ← hsin, ← hcos', ← hsin', Real.sin_sub]
          ring
  have hpos : 0 < Real.sin (toRadians g' - toRadians g) :=
    pos_of_mul_pos_right (hcross ▸ mul_pos (mul_pos hx hy) hsource) (mul_pos hr hs).le
  by_contra! hle
  rw [← toRadians_sub, toRadians_real] at hpos
  have hnonpos := Real.sin_nonpos_of_nonpos_of_neg_pi_le (x := (g' - g) * (π / 180))
    (by nlinarith) (by nlinarith [hgk.2, hgk'.1])
  exact absurd hpos hnonpos.not_gt

end Leads

end Lines

section Bearings

variable {spacing : Spacing ℝ} {a g : ℝ}

theorem gridBearing_mem (spacing : Spacing ℝ) (bearing : ℝ) :
    gridBearing spacing bearing ∈ Set.Ico 0 360 := by
  rw [gridBearing_eq_wrapped]
  exact (wrapped_real (by norm_num)).2

theorem leads_gridBearing (hx : 0 < spacing.x) (hy : 0 < spacing.y) (bearing : ℝ) :
    Leads spacing bearing (gridBearing spacing bearing) := by
  obtain ⟨k, hk⟩ := gridBearing_eq spacing bearing
  refine ⟨‖gridLine spacing bearing‖, norm_gridLine hx hy, ?_, ?_⟩
  · rw [hk, Real.cos_sub_int_mul_two_pi, Complex.norm_mul_cos_arg]
    rfl
  · rw [hk, Real.sin_sub_int_mul_two_pi, Complex.norm_mul_sin_arg]
    rfl

theorem Leads.gridBearing_eq (h : Leads spacing a g) (hx : 0 < spacing.x) (hy : 0 < spacing.y) :
    gridBearing spacing a = normalized g := by
  obtain ⟨k, hk⟩ := exists_normalized_eq g
  have hnormalized : Leads spacing a (normalized g) := by
    have hturned := h.add_turns 0 k
    rwa [Int.cast_zero, mul_zero, add_zero, ← hk] at hturned
  exact (leads_gridBearing hx hy a).unique hnormalized (gridBearing_mem spacing a)
    (normalized_mem g)

theorem leads_square {d : ℝ} (hd : 0 < d) (bearing : ℝ) : Leads ⟨d, d⟩ bearing bearing :=
  ⟨d, hd, rfl, rfl⟩

theorem leads_multiple (hx : 0 < spacing.x) (hy : 0 < spacing.y) (k : ℤ) :
    Leads spacing (90 * k) (90 * k) := by
  have haxis : Real.sin (toRadians (90 * k)) = 0 ∨ Real.cos (toRadians (90 * k)) = 0 := by
    have htwice : 2 * toRadians (90 * k : ℝ) = k * π := by
      rw [toRadians_real]
      ring
    have hproduct : 2 * Real.sin (toRadians (90 * k)) * Real.cos (toRadians (90 * k)) = 0 := by
      rw [← Real.sin_two_mul, htwice, Real.sin_int_mul_pi]
    rcases mul_eq_zero.1 hproduct with h | h
    · exact .inl ((mul_eq_zero.1 h).resolve_left two_ne_zero)
    · exact .inr h
  rcases haxis with h | h
  · exact ⟨spacing.x, hx, rfl, by rw [h, mul_zero, mul_zero]⟩
  · exact ⟨spacing.y, hy, by rw [h, mul_zero, mul_zero], rfl⟩

theorem gridBearing_swapped (hx : 0 < spacing.x) (hy : 0 < spacing.y) (bearing : ℝ) :
    gridBearing spacing.swapped (gridBearing spacing bearing) = normalized bearing :=
  ((leads_gridBearing hx hy bearing).swap hx hy).gridBearing_eq hy hx

theorem quadrant_subset {k : ℕ} (hk : k < 4) : quadrant k ⊆ Set.Ico 0 360 := by
  have hk3 : (k : ℝ) ≤ 3 := by exact_mod_cast Nat.le_of_lt_succ hk
  intro a ha
  exact ⟨by linarith [ha.1, (Nat.cast_nonneg k : (0 : ℝ) ≤ k)], by linarith [ha.2]⟩

section Quadrant

variable (hx : 0 < spacing.x) (hy : 0 < spacing.y) {k : ℕ} (hk : k < 4)
include hx hy hk

theorem mapsTo_quadrant : Set.MapsTo (gridBearing spacing) (quadrant k) (quadrant k) := by
  intro a ha
  exact (leads_gridBearing hx hy a).mem_quadrant hx hy hk ha (gridBearing_mem spacing a)

theorem leftInvOn_quadrant :
    Set.LeftInvOn (gridBearing spacing.swapped) (gridBearing spacing) (quadrant k) := by
  intro a ha
  rw [gridBearing_swapped hx hy, normalized_of_mem (quadrant_subset hk ha)]

theorem bijOn_quadrant : Set.BijOn (gridBearing spacing) (quadrant k) (quadrant k) := by
  have hright : Set.LeftInvOn (gridBearing spacing.swapped.swapped) (gridBearing spacing.swapped)
      (quadrant k) := leftInvOn_quadrant hy hx hk
  have hback : Set.MapsTo (gridBearing spacing.swapped) (quadrant k) (quadrant k) :=
    mapsTo_quadrant hy hx hk
  exact Set.InvOn.bijOn ⟨leftInvOn_quadrant hx hy hk, hright⟩ (mapsTo_quadrant hx hy hk) hback

theorem strictMonoOn_quadrant : StrictMonoOn (gridBearing spacing) (quadrant k) := by
  intro a ha b hb hlt
  exact (leads_gridBearing hx hy a).lt_of_lt (leads_gridBearing hx hy b) hx hy ha hb
    (mapsTo_quadrant hx hy hk ha) (mapsTo_quadrant hx hy hk hb) hlt

end Quadrant

/-- Square cells bend no bearing, and swapping width and height bends every bearing back. Full turns
change nothing, multiples of 90 stay where they are, and each quadrant between them is bent onto
itself in order. -/
theorem gridBearing_bends_quadrants (spacing : Spacing ℝ) (hx : 0 < spacing.x)
    (hy : 0 < spacing.y) :
    (∀ d > 0, ∀ bearing : ℝ, gridBearing ⟨d, d⟩ bearing = normalized bearing) ∧
    (∀ bearing, gridBearing spacing.swapped (gridBearing spacing bearing) = normalized bearing) ∧
    (∀ bearing (k : ℤ), gridBearing spacing (bearing + 360 * k) = gridBearing spacing bearing) ∧
    (∀ k : ℤ, gridBearing spacing (90 * k) = normalized (90 * k)) ∧
    ∀ k < 4, Set.BijOn (gridBearing spacing) (quadrant k) (quadrant k) ∧
      StrictMonoOn (gridBearing spacing) (quadrant k) := by
  refine ⟨?_, gridBearing_swapped hx hy, ?_, ?_, ?_⟩
  · intro d hd bearing
    exact (leads_square hd bearing).gridBearing_eq hd hd
  · intro bearing k
    have hturned := (leads_gridBearing hx hy bearing).add_turns k 0
    rw [Int.cast_zero, mul_zero, add_zero] at hturned
    rw [hturned.gridBearing_eq hx hy, normalized_of_mem (gridBearing_mem spacing bearing)]
  · intro k
    exact (leads_multiple hx hy k).gridBearing_eq hx hy
  · intro k hk
    exact ⟨bijOn_quadrant hx hy hk, strictMonoOn_quadrant hx hy hk⟩

/-- Cells twice as wide as tall: the west stays the west, and two bearings between it and the north
stay there in their order. -/
theorem gridBearing_bends_quadrants_wide :
    let wide : Spacing ℝ := ⟨2, 1⟩
    0 < wide.x ∧ 0 < wide.y ∧ gridBearing ⟨7, 7⟩ 45 = (45 : ℝ) ∧
      gridBearing wide 270 = 270 ∧ gridBearing wide (-90) = 270 ∧
      gridBearing ⟨1, 2⟩ (gridBearing wide 315) = 315 ∧
      gridBearing wide 300 < gridBearing wide 315 ∧ gridBearing wide 315 < 360 := by
  intro wide
  have hx : 0 < wide.x := two_pos
  have hy : 0 < wide.y := one_pos
  obtain ⟨hsquare, hswap, hturns, hmultiples, hquadrants⟩ :=
    gridBearing_bends_quadrants wide hx hy
  have hsame : gridBearing ⟨7, 7⟩ 45 = (45 : ℝ) := by
    rw [hsquare 7 (by norm_num) 45, normalized_of_mem (by norm_num)]
  have hwest : gridBearing wide 270 = 270 := by
    have hmultiple := hmultiples 3
    norm_num at hmultiple
    rw [hmultiple, normalized_of_mem (by norm_num)]
  have hnegative : gridBearing wide (-90) = 270 := by
    have hturn := hturns (-90) 1
    norm_num at hturn
    rw [← hturn, hwest]
  have hback : gridBearing ⟨1, 2⟩ (gridBearing wide 315) = 315 := by
    have hswapped := hswap 315
    rwa [normalized_of_mem (by norm_num)] at hswapped
  have hmem {b : ℝ} (hb : b ∈ Set.Ioo 270 360) : b ∈ quadrant 3 := by
    rw [quadrant]
    norm_num
    exact hb
  obtain ⟨honto, hmono⟩ := hquadrants 3 (by decide)
  have hlt := hmono (hmem (by norm_num)) (hmem (by norm_num)) (by norm_num : (300 : ℝ) < 315)
  have hbent := (honto.mapsTo (hmem (by norm_num : (315 : ℝ) ∈ Set.Ioo 270 360))).2
  norm_num at hbent
  exact ⟨hx, hy, hsame, hwest, hnegative, hback, hlt, hbent⟩

end Bearings

end Relief
