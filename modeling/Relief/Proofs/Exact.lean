import Relief.Shadow.Sweep
import Relief.Proofs.Binary.Whole

-- stands outside the namespace, in which fields are those of an event
class FloorField (α : Type) extends Field α, LinearOrder α, IsStrictOrderedRing α, FloorRing α

noncomputable instance : FloorField ℝ where

instance : FloorField ℚ where

namespace Relief

open Binary

noncomputable instance realWhole : Whole ℝ where
  isFinite _ := true
  nearest x := halfAway x
  ceil x := ⌈x⌉
  toInt x := if x < 0 then ⌈x⌉ else ⌊x⌋
  remainder x y := x - y * (if x / y < 0 then ⌈x / y⌉ else ⌊x / y⌋ : ℤ)

section Exact

theorem zero_scientific {α : Type} [DivisionRing α] [LinearOrder α] [IsStrictOrderedRing α] :
    (0.0 : α) = 0 := by
  norm_num

theorem magnitude_eq_abs {α : Type} [DivisionRing α] [LinearOrder α] [IsStrictOrderedRing α]
    (x : α) : magnitude x = |x| := by
  rw [magnitude, zero_scientific]
  split_ifs with h
  · exact (abs_of_neg h).symm
  · exact (abs_of_nonneg (not_lt.1 h)).symm

variable {α : Type} [FloorField α]

def roundAway (x : α) : ℤ :=
  if x < 0 then -round (-x) else round x

/-- Numbers near which the whole numbers are exactly those that they are said to be. -/
class ExactWhole (α : Type) [FloorField α] [Whole α] : Prop where
  nearest (x : α) : Whole.nearest x = (roundAway x : α)
  ceil (x : α) : Whole.ceil x = (⌈x⌉ : α)
  toInt_intCast (n : ℤ) : Whole.toInt (n : α) = n

/-- Not half way between two whole numbers. -/
def Untied (x : α) : Prop :=
  ∀ n : ℤ, x - n ≠ n + 1 - x

variable {x : α} {n : ℤ}

theorem Untied.add_intCast (h : Untied x) (n : ℤ) : Untied (x + n) := by
  intro m hm
  refine h (m - n) ?_
  push_cast
  linarith

theorem roundAway_neg (x : α) : roundAway (-x) = -roundAway x := by
  rw [roundAway, roundAway, neg_neg]
  rcases lt_trichotomy x 0 with h | rfl | h
  · rw [if_neg (by linarith), if_pos h, neg_neg]
  · norm_num
  · rw [if_pos (by linarith), if_neg h.not_gt]

theorem roundAway_of_nonneg (h : 0 ≤ x) : roundAway x = round x :=
  if_neg (not_lt.2 h)

theorem Untied.round_neg (h : Untied x) : round (-x) = -round x := by
  rw [round_eq, round_eq, Int.floor_eq_iff]
  have hle := Int.floor_le (x + 1 / 2)
  have hlt := Int.lt_floor_add_one (x + 1 / 2)
  have hne : (⌊x + 1 / 2⌋ : α) ≠ x + 1 / 2 := by
    intro he
    refine h (⌊x + 1 / 2⌋ - 1) ?_
    push_cast
    linarith
  have hlt' : (⌊x + 1 / 2⌋ : α) < x + 1 / 2 := lt_of_le_of_ne hle hne
  push_cast
  constructor <;> linarith

theorem Untied.roundAway_eq (h : Untied x) : roundAway x = round x := by
  rw [roundAway, h.round_neg, neg_neg, ite_self]

theorem roundAway_eq_of_abs_lt (h : |x - n| < 1 / 2) : roundAway x = n := by
  obtain ⟨hlo, hhi⟩ := abs_lt.1 h
  have huntied : Untied x := by
    intro m hm
    have h1 : (m : α) < n := by linarith
    have h2 : (n : α) < m + 1 := by linarith
    have h1 : m < n := by exact_mod_cast h1
    have h2 : n < m + 1 := by exact_mod_cast h2
    omega
  rw [huntied.roundAway_eq, round_eq_iff]
  constructor <;> linarith

theorem roundAway_intCast (n : ℤ) : roundAway (n : α) = n :=
  roundAway_eq_of_abs_lt (by rw [sub_self, abs_zero]; exact one_half_pos)

/-- Whole numbers can be taken out of what is not turned to the other side by them, or is not half
way between two. -/
theorem roundAway_add_intCast (h : 0 ≤ x ∧ 0 ≤ x + n ∨ Untied x) :
    roundAway (x + n) = roundAway x + n := by
  rcases h with ⟨h0, hn⟩ | h
  · rw [roundAway_of_nonneg h0, roundAway_of_nonneg hn, round_add_intCast]
  · rw [h.roundAway_eq, (h.add_intCast n).roundAway_eq, round_add_intCast]

theorem Untied.neg (h : Untied x) : Untied (-x) := by
  intro m hm
  refine h (-m - 1) ?_
  push_cast
  linarith

theorem roundAway_lt {y : α} (h : x + 1 ≤ y) : roundAway x < roundAway y := by
  have hpos {a b : α} (ha : 0 ≤ a) (hab : a + 1 ≤ b) : roundAway a < roundAway b := by
    rw [roundAway_of_nonneg ha, roundAway_of_nonneg (by linarith), ← Int.add_one_le_iff,
      ← round_add_one, round_eq, round_eq]
    exact Int.floor_le_floor (by linarith)
  rcases le_or_gt 0 x with hx | hx
  · exact hpos hx h
  rcases le_or_gt y 0 with hy | hy
  · have hlt : roundAway (-y) < roundAway (-x) := hpos (by linarith) (by linarith)
    rw [roundAway_neg, roundAway_neg] at hlt
    omega
  · -- between the two lies zero, no farther from one than from the other
    rw [roundAway, if_pos hx, roundAway_of_nonneg hy.le, round_eq, round_eq]
    rcases le_or_gt x (-(1 / 2)) with hlow | hlow
    · have h1 : 1 ≤ ⌊-x + 1 / 2⌋ := Int.le_floor.2 (by push_cast; linarith)
      have h2 : 0 ≤ ⌊y + 1 / 2⌋ := Int.floor_nonneg.2 (by linarith)
      omega
    · have h1 : 0 ≤ ⌊-x + 1 / 2⌋ := Int.floor_nonneg.2 (by linarith)
      have h2 : 1 ≤ ⌊y + 1 / 2⌋ := Int.le_floor.2 (by push_cast; linarith)
      omega

theorem roundAway_ne {y : α} (h : 1 ≤ |x - y|) : roundAway x ≠ roundAway y := by
  rcases le_abs.1 h with h | h
  · exact (roundAway_lt (by linarith)).ne'
  · exact (roundAway_lt (by linarith)).ne

theorem roundAway_mono {y : α} (h : x ≤ y) : roundAway x ≤ roundAway y := by
  simp only [roundAway, round_eq]
  split_ifs with hx hy hy
  · exact neg_le_neg (Int.floor_le_floor (by linarith))
  · have hleft : (0 : ℤ) ≤ ⌊-x + 1 / 2⌋ := Int.floor_nonneg.2 (by linarith)
    have hright : (0 : ℤ) ≤ ⌊y + 1 / 2⌋ := Int.floor_nonneg.2 (by linarith)
    omega
  · exact absurd (h.trans_lt hy) hx
  · exact Int.floor_le_floor (by linarith)

/-- Numbers less than one apart have the same nearest whole number or successive ones. -/
theorem roundAway_le_add_one {y : α} (h : y < x + 1) : roundAway y ≤ roundAway x + 1 := by
  have hadd {a : α} (ha : 0 ≤ a) : roundAway (a + 1) = roundAway a + 1 := by
    exact_mod_cast roundAway_add_intCast (n := 1) (.inl ⟨ha, by push_cast; linarith⟩)
  rcases le_or_gt 0 x with hx | hx
  · exact (roundAway_mono h.le).trans_eq (hadd hx)
  rcases le_or_gt y 0 with hy | hy
  · have hle : roundAway (-x) ≤ roundAway (-y + 1) := roundAway_mono (by linarith)
    rw [hadd (by linarith), roundAway_neg, roundAway_neg] at hle
    omega
  · -- on both sides of zero, the one that is farther from it decides
    rcases lt_or_ge y (1 / 2) with hnear | hfar
    · have hzero : roundAway y = 0 :=
        roundAway_eq_of_abs_lt (by push_cast; rw [abs_lt]; constructor <;> linarith)
      have hle : roundAway ((-1 : ℤ) : α) ≤ roundAway x := roundAway_mono (by push_cast; linarith)
      rw [roundAway_intCast] at hle
      omega
    · have hzero : roundAway x = 0 :=
        roundAway_eq_of_abs_lt (by push_cast; rw [abs_lt]; constructor <;> linarith)
      have hle : roundAway y ≤ roundAway ((1 : ℤ) : α) := roundAway_mono (by push_cast; linarith)
      rw [roundAway_intCast] at hle
      omega

variable [Whole α] [ExactWhole α]

theorem Edges.locate_bounded (shape : Shape) (p : Position α) :
    Edges.bounded.locate shape p =
      if (0 ≤ roundAway p.y ∧ 0 ≤ roundAway p.x) ∧
          roundAway p.y < shape.rows ∧ roundAway p.x < shape.cols then
        some ⟨(roundAway p.y).toNat, (roundAway p.x).toNat⟩
      else none := by
  rw [locate, Shape.nearest]
  simp only [ExactWhole.nearest, ExactWhole.toInt_intCast, zero_scientific]
  refine if_congr ?_ rfl rfl
  rw [and_assoc]
  exact and_congr Int.cast_nonneg_iff (and_congr Int.cast_nonneg_iff (by exact_mod_cast Iff.rfl))

theorem Edges.locate_periodic (shape : Shape) (p : Position α) :
    Edges.periodic.locate shape p =
      if 0 ≤ roundAway p.y ∧ roundAway p.y < shape.rows then
        some ⟨(roundAway p.y).toNat, (roundAway p.x % shape.cols).toNat⟩
      else none := by
  rw [locate, Shape.nearestWrapped]
  simp only [ExactWhole.nearest, ExactWhole.toInt_intCast, zero_scientific]
  exact if_congr (and_congr Int.cast_nonneg_iff (by exact_mod_cast Iff.rfl)) rfl rfl

theorem Edges.contains_of_locate_periodic {shape : Shape} {p : Position α} {c : Cell}
    (hcols : 0 < shape.cols) (h : Edges.periodic.locate shape p = some c) :
    shape.Contains c := by
  rw [locate_periodic] at h
  split_ifs at h with hrow
  obtain rfl := Option.some.inj h
  have hpos : (0 : ℤ) < shape.cols := Int.natCast_pos.2 hcols
  refine ⟨(Int.toNat_lt hrow.1).2 hrow.2, (Int.toNat_lt (Int.emod_nonneg _ hpos.ne')).2 ?_⟩
  exact Int.emod_lt_of_pos _ hpos

end Exact

theorem halfAway_eq_roundAway (t : ℝ) : halfAway t = roundAway t := by
  rw [halfAway, roundAway, round_eq, round_eq]

instance : ExactWhole ℝ where
  nearest t := congrArg Int.cast (halfAway_eq_roundAway t)
  ceil _ := rfl
  toInt_intCast n := by
    change (if (n : ℝ) < 0 then ⌈(n : ℝ)⌉ else ⌊(n : ℝ)⌋) = n
    rw [Int.ceil_intCast, Int.floor_intCast, ite_self]

instance rationalWhole : Whole ℚ where
  isFinite _ := true
  nearest x := roundAway x
  ceil x := ⌈x⌉
  toInt x := if x < 0 then ⌈x⌉ else ⌊x⌋
  remainder x y := x - y * (if x / y < 0 then ⌈x / y⌉ else ⌊x / y⌋ : ℤ)

instance : ExactWhole ℚ where
  nearest _ := rfl
  ceil _ := rfl
  toInt_intCast n := by
    change (if (n : ℚ) < 0 then ⌈(n : ℚ)⌉ else ⌊(n : ℚ)⌋) = n
    rw [Int.ceil_intCast, Int.floor_intCast, ite_self]

/-- A number is on a line of so many cells if its nearest whole number counts one of them. -/
def Within (count : ℕ) (t : ℝ) : Prop :=
  0 ≤ halfAway t ∧ halfAway t < count

theorem within_iff {count : ℕ} {t : ℝ} :
    Within count t ↔ -(1 / 2) < t ∧ t < count - 1 / 2 :=
  halfAway_mem_iff

theorem nearest_within_iff {count : ℕ} {t : ℝ} :
    0.0 ≤ (Whole.nearest t : ℝ) ∧ (Whole.nearest t : ℝ) < count ↔ Within count t := by
  rw [zero_scientific]
  change 0 ≤ (halfAway t : ℝ) ∧ (halfAway t : ℝ) < count ↔ _
  exact and_congr Int.cast_nonneg_iff (by exact_mod_cast Iff.rfl)

theorem Edges.isSome_locate_real {edges : Edges} {shape : Shape} {p : Position ℝ} :
    (edges.locate shape p).isSome ↔
      Within shape.rows p.y ∧ (edges = .bounded → Within shape.cols p.x) := by
  rw [← nearest_within_iff, ← nearest_within_iff]
  cases edges with
  | periodic =>
    rw [Edges.locate, Shape.nearestWrapped]
    split_ifs with h
    · exact iff_of_true rfl ⟨h, fun he => by cases he⟩
    · exact iff_of_false Bool.false_ne_true fun hc => h hc.1
  | bounded =>
    rw [Edges.locate, Shape.nearest]
    split_ifs with h
    · exact iff_of_true rfl ⟨⟨h.1, h.2.2.1⟩, fun _ => ⟨h.2.1, h.2.2.2⟩⟩
    · refine iff_of_false Bool.false_ne_true ?_
      rintro ⟨⟨h₁, h₂⟩, h₃⟩
      obtain ⟨h₃, h₄⟩ := h₃ rfl
      exact h ⟨h₁, h₃, h₂, h₄⟩

end Relief
