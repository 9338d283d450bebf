import Relief.Proofs.Exact
import Relief.Proofs.Location

namespace Relief.Shadow

open Binary Float.Model Float.Model.UnpackedFloat

section Seeds

variable {α : Type} [Neg α] [LT α] [LE α] [DecidableLT α] [DecidableLE α] [OfScientific α]
  {motion : Motion α} {shape : Shape} {edges : Edges} {seed : Cell} {count row col n m : ℕ}

def AlongRows (motion : Motion α) (edges : Edges) : Prop :=
  edges = .periodic ∧ magnitude motion.y ≤ minAxisSpeed

def rayAt [Sub α] [NatCast α] (motion : Motion α) (seed : Cell) (k : ℕ) : Position α :=
  (fun p : Position α => ⟨p.x - motion.x, p.y - motion.y⟩)^[k] seed.position

omit [Neg α] [LT α] [LE α] [DecidableLT α] [DecidableLE α] [OfScientific α] in
theorem rayAt_eq [Sub α] [NatCast α] (motion : Motion α) (seed : Cell) (k : ℕ) :
    rayAt motion seed k = ⟨(· - motion.x)^[k] seed.col, (· - motion.y)^[k] seed.row⟩ := by
  induction k with
  | zero => rfl
  | succ k ih =>
    rw [rayAt, Function.iterate_succ_apply', ← rayAt, ih, Function.iterate_succ_apply',
      Function.iterate_succ_apply']

theorem rayAt_exact {α : Type} [CommRing α] (motion : Motion α) (seed : Cell) (k : ℕ) :
    rayAt motion seed k = ⟨seed.col - k * motion.x, seed.row - k * motion.y⟩ := by
  induction k with
  | zero => simp [rayAt, Cell.position]
  | succ k ih =>
    rw [rayAt, Function.iterate_succ_apply', ← rayAt, ih, Position.mk.injEq]
    push_cast
    constructor <;> ring

def Leaves [Sub α] [NatCast α] [Whole α] (motion : Motion α) (shape : Shape) (edges : Edges)
    (n : ℕ) : Prop :=
  ∀ seed ∈ seeds motion shape edges, ∃ k ≤ n, edges.locate shape (rayAt motion seed k) = none

theorem Leaves.mono [Sub α] [NatCast α] [Whole α] (h : Leaves motion shape edges n) (hnm : n ≤ m) :
    Leaves motion shape edges m :=
  fun seed hseed => (h seed hseed).imp fun _ hk => ⟨hk.1.trans hnm, hk.2⟩

/-- The most steps of any budget. -/
def longest (shape : Shape) : ℕ :=
  min (2 * shape.size) (wordValues - 1) + 1

theorem lt_of_mem_outermost (hcount : 0 < count) (h : row ∈ outermost count) : row < count := by
  rw [outermost] at h
  split_ifs at h <;> simp at h <;> omega

theorem contains_of_mem_seeds (hrows : 0 < shape.rows) (hcols : 0 < shape.cols)
    (h : seed ∈ seeds motion shape edges) : shape.Contains seed := by
  unfold seeds at h
  rw [List.mem_append] at h
  rcases h with h | h
  · split_ifs at h with ha
    · obtain ⟨row, hrow, rfl⟩ := List.mem_map.1 h
      exact ⟨List.mem_range.1 hrow, hcols⟩
    · obtain ⟨row, hrow, h⟩ := List.mem_flatMap.1 h
      obtain ⟨col, hcol, rfl⟩ := List.mem_map.1 h
      exact ⟨lt_of_mem_outermost hrows hrow, List.mem_range.1 hcol⟩
  · cases edges with
    | periodic => cases h
    | bounded =>
      obtain ⟨col, hcol, h⟩ := List.mem_flatMap.1 h
      obtain ⟨row, hrow, rfl⟩ := List.mem_map.1 h
      exact ⟨List.mem_range.1 hrow, lt_of_mem_outermost hcols hcol⟩

theorem mem_seeds (h : ¬ AlongRows motion edges) (hrow : row ∈ outermost shape.rows)
    (hcol : col < shape.cols) : ⟨row, col⟩ ∈ seeds motion shape edges := by
  rw [AlongRows] at h
  unfold seeds
  rw [List.mem_append, if_neg h]
  exact .inl (List.mem_flatMap.2 ⟨row, hrow, List.mem_map.2 ⟨col, List.mem_range.2 hcol, rfl⟩⟩)

noncomputable def farthest (count : ℕ) (speed : ℝ) : ℕ :=
  if 0 ≤ speed then count - 1 else 0

theorem farthest_mem_outermost (count : ℕ) (speed : ℝ) :
    farthest count speed ∈ outermost count := by
  rw [farthest, outermost]
  split_ifs with h₁ h₂ h₂
  · simp; omega
  · simp
  · simp
  · simp

theorem farthest_lt (hcount : 0 < count) (speed : ℝ) : farthest count speed < count :=
  lt_of_mem_outermost hcount (farthest_mem_outermost count speed)

end Seeds

section Lines

variable {edges : Edges} {shape : Shape} {speed : Motion ℝ} {slack s t : ℝ} {seed : Cell}
  {count start k n m : ℕ} {on : ℕ → Prop}

theorem not_within (hstart : start < count) (ht : |t - (start - n * s)| ≤ slack)
    (h : count - 1 / 2 + slack ≤ n * |s|) : ¬ Within count t := by
  rw [within_iff]
  rintro ⟨h0, h1⟩
  obtain ⟨hl, hr⟩ := abs_le.1 ht
  have hle : (start : ℝ) + 1 ≤ count := by exact_mod_cast hstart
  have hpos : (0 : ℝ) ≤ start := start.cast_nonneg
  rcases abs_cases s with ⟨hs, -⟩ | ⟨hs, -⟩
  · rw [hs] at h
    linarith
  · rw [hs] at h
    linarith

theorem within_farthest (hcount : 0 < count) (hslack : slack < 1 / 2) (hk : k ≤ n)
    (ht : |t - (farthest count s - k * s)| ≤ slack) (h : n * |s| < count - 1 / 2 - slack) :
    Within count t := by
  rw [within_iff]
  obtain ⟨hl, hr⟩ := abs_le.1 ht
  have hle : (k : ℝ) * |s| ≤ n * |s| :=
    mul_le_mul_of_nonneg_right (Nat.cast_le.2 hk) (abs_nonneg s)
  have h0 : 0 ≤ (k : ℝ) * |s| := by positivity
  rw [farthest] at hl hr
  split_ifs at hl hr with hs
  · rw [abs_of_nonneg hs] at hle h h0
    rw [Nat.cast_sub hcount, Nat.cast_one] at hl hr
    constructor <;> linarith
  · rw [abs_of_neg (not_le.1 hs)] at hle h h0
    rw [Nat.cast_zero] at hl hr
    constructor <;> linarith

/-- So many steps carry a ray across the grid on an axis on which it can leave, and farther by
`slack`. -/
inductive Crosses (edges : Edges) (shape : Shape) (speed : Motion ℝ) (slack : ℝ) (n : ℕ) : Prop
  | rows (h : shape.rows - 1 / 2 + slack ≤ n * |speed.y|)
  | cols (he : edges = .bounded) (h : shape.cols - 1 / 2 + slack ≤ n * |speed.x|)

/-- As long as it stays on the grid a ray is no farther than `slack` from the exact one. -/
def Follows (edges : Edges) (shape : Shape) (speed : Motion ℝ) (slack : ℝ) (n : ℕ) (seed : Cell)
    (on : ℕ → Prop) : Prop :=
  ∀ k ≤ n, (∀ j < k, on j) → ∃ x y : ℝ, |x - (seed.col - k * speed.x)| ≤ slack ∧
    |y - (seed.row - k * speed.y)| ≤ slack ∧
    (on k ↔ Within shape.rows y ∧ (edges = .bounded → Within shape.cols x))

theorem Follows.of_le (h : Follows edges shape speed slack m seed on) (hnm : n ≤ m) :
    Follows edges shape speed slack n seed on :=
  fun k hk => h k (hk.trans hnm)

theorem Follows.exists_off (h : Follows edges shape speed slack n seed on)
    (hseed : shape.Contains seed) (hc : Crosses edges shape speed slack n) : ∃ k ≤ n, ¬ on k := by
  by_contra hall
  push Not at hall
  obtain ⟨x, y, hx, hy, hon⟩ := h n le_rfl fun j hj => hall j hj.le
  obtain ⟨hrow, hcol⟩ := hon.1 (hall n le_rfl)
  cases hc with
  | rows hc => exact not_within hseed.1 hy hc hrow
  | cols he hc => exact not_within hseed.2 hx hc (hcol he)

theorem Follows.stays
    (h : Follows edges shape speed slack n
      ⟨farthest shape.rows speed.y, farthest shape.cols speed.x⟩ on)
    (hrows : 0 < shape.rows) (hcols : 0 < shape.cols) (hslack : slack < 1 / 2)
    (hc : ¬ Crosses edges shape speed (-slack) n) (hk : k ≤ n) : on k := by
  have hrow := not_le.1 fun h => hc (.rows h)
  have hcol (he : edges = .bounded) := not_le.1 fun h => hc (.cols he h)
  simp only [← sub_eq_add_neg] at hrow hcol
  -- a ray is known to follow its line only as long as it has not left the grid
  induction k using Nat.strong_induction_on with
  | h k ih =>
    obtain ⟨x, y, hx, hy, hon⟩ := h k hk fun j hj => ih j hj (hj.le.trans hk)
    exact hon.2 ⟨within_farthest hrows hslack hk hy hrow,
      fun he => within_farthest hcols hslack hk hx (hcol he)⟩

end Lines

section Budgets

variable {α : Type} [Mul α] [Div α] [Neg α] [LT α] [LE α] [DecidableLT α] [DecidableLE α]
  [NatCast α] [OfScientific α] [Whole α] {motion : Motion α} {shape : Shape} {edges : Edges}
  {speed : Motion ℝ} {slack : ℝ} {b n : ℕ}

/-- What a budget counts: the steps across the rows, across the columns of a grid that does not
wrap, or twice across columns that do. -/
def Counts (motion : Motion α) (shape : Shape) (edges : Edges) (s : α) : Prop :=
  ¬ AlongRows motion edges ∧
      (minAxisSpeed < magnitude motion.y ∧ s = (shape.rows : α) / magnitude motion.y ∨
        edges = .bounded ∧ minAxisSpeed < magnitude motion.x ∧
          s = (shape.cols : α) / magnitude motion.x) ∨
    AlongRows motion edges ∧ minAxisSpeed < magnitude motion.x ∧
      s = 2.0 * ((shape.cols : α) / magnitude motion.x)

omit [Mul α] [LE α] [DecidableLE α] [Whole α] in
theorem crossing_eq_some {cells : ℕ} {v s : α} (h : crossing cells v = some s) :
    minAxisSpeed < magnitude v ∧ s = (cells : α) / magnitude v := by
  rw [crossing] at h
  split_ifs at h with hv
  exact ⟨hv, (Option.some.inj h).symm⟩

omit [Mul α] [Div α] [Neg α] [LE α] [DecidableLE α] [NatCast α] [OfScientific α] [Whole α] in
theorem lesser_eq_some {a c : Option α} {s : α} (h : lesser a c = some s) :
    a = some s ∨ c = some s := by
  cases a with
  | none => exact .inr h
  | some a =>
    cases c with
    | none => exact .inl h
    | some c =>
      rw [lesser] at h
      split_ifs at h
      · exact .inr h
      · exact .inl h

theorem exists_counts (hy : minAxisSpeed < magnitude motion.y ↔ ¬ magnitude motion.y ≤ minAxisSpeed)
    (h : budget? motion shape edges = some b) :
    ∃ s, Counts motion shape edges s ∧
      b = (Whole.toInt (Whole.ceil
        (if (↑(longest shape - 1) : α) < s then ↑(longest shape - 1) else s))).toNat + 1 := by
  obtain ⟨s, hs, rfl⟩ := Option.map_eq_some_iff.1 h
  refine ⟨s, ?_, rfl⟩
  cases edges with
  | bounded =>
    refine .inl ⟨fun ha => (by cases ha.1), ?_⟩
    rcases lesser_eq_some hs with hs | hs
    · exact .inr ⟨rfl, crossing_eq_some hs⟩
    · exact .inl (crossing_eq_some hs)
  | periodic =>
    cases hd : crossing shape.rows motion.y with
    | some t =>
      rw [hd] at hs
      obtain rfl : t = s := Option.some.inj hs
      obtain ⟨hv, ht⟩ := crossing_eq_some hd
      exact .inl ⟨fun ha => hy.1 hv ha.2, .inl ⟨hv, ht⟩⟩
    | none =>
      rw [hd] at hs
      obtain ⟨t, ht, rfl⟩ := Option.map_eq_some_iff.1 hs
      obtain ⟨hv, rfl⟩ := crossing_eq_some ht
      refine .inr ⟨⟨rfl, ?_⟩, hv, rfl⟩
      by_contra hle
      rw [crossing, if_pos (hy.2 hle)] at hd
      cases hd

/-- So many steps do what the budget is for, but for a small part `u` of the way. -/
inductive Spans (motion : Motion α) (shape : Shape) (edges : Edges) (speed : Motion ℝ)
    (u steps : ℝ) : Prop
  | rows (ha : ¬ AlongRows motion edges) (h : shape.rows * (1 - u) ≤ steps * |speed.y|)
  | cols (ha : ¬ AlongRows motion edges) (he : edges = .bounded)
      (h : shape.cols * (1 - u) ≤ steps * |speed.x|)
  | laps (ha : AlongRows motion edges) (h : 2 * shape.cols * (1 - u) ≤ steps * |speed.x|)

end Budgets

section Suffices

variable {α : Type} [Sub α] [Neg α] [LT α] [LE α] [DecidableLT α] [DecidableLE α] [NatCast α]
  [OfScientific α] [Whole α] {motion : Motion α} {shape : Shape} {edges : Edges}
  {speed : Motion ℝ} {slack u steps : ℝ} {b n : ℕ}

theorem leaves_and_crosses (hrows : 0 < shape.rows) (hcols : 0 < shape.cols)
    (hslack : slack < 1 / 2) (ha : ¬ AlongRows motion edges)
    (hfollows : ∀ seed, shape.Contains seed → Follows edges shape speed slack n seed
      fun k => (edges.locate shape (rayAt motion seed k)).isSome) :
    (Crosses edges shape speed slack n → Leaves motion shape edges n) ∧
      (Leaves motion shape edges n → Crosses edges shape speed (-slack) n) := by
  constructor
  · intro hc seed hseed
    have hin := contains_of_mem_seeds hrows hcols hseed
    obtain ⟨k, hk, hoff⟩ := (hfollows seed hin).exists_off hin hc
    exact ⟨k, hk, Option.not_isSome_iff_eq_none.1 hoff⟩
  · intro hl
    by_contra hc
    have hlt := farthest_lt hcols speed.x
    obtain ⟨k, hk, hoff⟩ := hl _ (mem_seeds ha (farthest_mem_outermost shape.rows speed.y) hlt)
    have hon := (hfollows _ ⟨farthest_lt hrows _, hlt⟩).stays hrows hcols hslack hc hk
    rw [hoff] at hon
    cases hon

omit [Sub α] [DecidableLE α] [NatCast α] [Whole α] in
theorem Spans.crosses (h : Spans motion shape edges speed u steps) (ha : ¬ AlongRows motion edges)
    (hn : steps + 1 ≤ n) (hrow : shape.rows * u + slack ≤ 1 / 2)
    (hcol : shape.cols * u + slack ≤ 1 / 2) : Crosses edges shape speed slack n := by
  have hmul (s : ℝ) : steps * |s| + |s| ≤ n * |s| := by
    rw [← add_one_mul]
    exact mul_le_mul_of_nonneg_right hn (abs_nonneg s)
  cases h with
  | rows _ h => exact .rows (by linarith [hmul speed.y, abs_nonneg speed.y])
  | cols _ he h => exact .cols he (by linarith [hmul speed.x, abs_nonneg speed.x])
  | laps h => exact absurd h ha

omit [Sub α] [DecidableLE α] [NatCast α] [Whole α] in
theorem Spans.two_laps (h : Spans motion shape edges speed u steps) (ha : AlongRows motion edges)
    (hpos : 0 < n) (hn : steps + 1 ≤ n) (hm : n < longest shape) (hu : 0 ≤ u)
    (hlong : longest shape * u ≤ 1) : 2 * shape.cols ≤ n * |speed.x| := by
  cases h with
  | rows h | cols h => exact absurd ha h
  | laps _ h =>
    have hcols : (0 : ℝ) ≤ shape.cols := shape.cols.cast_nonneg
    have hone : steps * |speed.x| + |speed.x| ≤ n * |speed.x| := by
      rw [← add_one_mul]
      exact mul_le_mul_of_nonneg_right hn (abs_nonneg _)
    -- a ray slower than the part left over would need more than the longest budget
    have hpart : 2 * shape.cols * u ≤ |speed.x| := by
      by_contra hlt
      rw [not_le] at hlt
      have h₁ : (n : ℝ) * |speed.x| < n * (2 * shape.cols * u) :=
        mul_lt_mul_of_pos_left hlt (Nat.cast_pos.2 hpos)
      have h₂ : ((n : ℝ) + 1) * u ≤ 1 :=
        (mul_le_mul_of_nonneg_right (by exact_mod_cast hm) hu).trans hlong
      have h₃ : 2 * shape.cols * (((n : ℝ) + 1) * u) ≤ 2 * shape.cols :=
        mul_le_of_le_one_right (by linarith) h₂
      linarith [abs_nonneg speed.x]
    linarith

/-- What tells whether a budget suffices: whether the longest one does, and for that the crossing of
the grid but for the slack. -/
structure Sufficiency (motion : Motion α) (shape : Shape) (edges : Edges) (speed : Motion ℝ)
    (slack : ℝ) (b : ℕ) : Prop where
  leaves : ¬ AlongRows motion edges →
    (Leaves motion shape edges b ↔ Leaves motion shape edges (longest shape))
  of_crosses : ¬ AlongRows motion edges →
    Crosses edges shape speed slack (longest shape) → Leaves motion shape edges (longest shape)
  crosses : ¬ AlongRows motion edges →
    Leaves motion shape edges (longest shape) → Crosses edges shape speed (-slack) (longest shape)
  laps : AlongRows motion edges →
    (2 * shape.cols ≤ b * |speed.x| ↔ 2 * shape.cols ≤ longest shape * |speed.x|)

theorem budget_bounds (hb : b = ⌈min steps ↑(longest shape - 1)⌉₊ + 1) :
    b ≤ longest shape ∧ (b < longest shape → steps + 1 ≤ b) := by
  have hpos : 0 < longest shape := Nat.succ_pos _
  rcases le_total steps ↑(longest shape - 1) with h | h
  · rw [min_eq_left h] at hb
    have hle : ⌈steps⌉₊ ≤ longest shape - 1 := Nat.ceil_le.2 h
    refine ⟨by omega, fun _ => ?_⟩
    rw [hb]
    push_cast
    linarith [Nat.le_ceil steps]
  · rw [min_eq_right h, Nat.ceil_natCast] at hb
    exact ⟨by omega, fun hc => absurd hc (by omega)⟩

theorem Spans.sufficiency (hspans : Spans motion shape edges speed u steps)
    (hrows : 0 < shape.rows) (hcols : 0 < shape.cols) (hslack : slack < 1 / 2)
    (hb : b = ⌈min steps ↑(longest shape - 1)⌉₊ + 1) (hu : 0 ≤ u) (hlong : longest shape * u ≤ 1)
    (hrow : shape.rows * u + slack ≤ 1 / 2) (hcol : shape.cols * u + slack ≤ 1 / 2)
    (hfollows : ∀ seed, shape.Contains seed → Follows edges shape speed slack (longest shape) seed
      fun k => (edges.locate shape (rayAt motion seed k)).isSome) :
    Sufficiency motion shape edges speed slack b := by
  obtain ⟨hle, hless⟩ := budget_bounds hb
  refine ⟨fun ha => ⟨fun h => h.mono hle, fun h => ?_⟩,
    fun ha => (leaves_and_crosses hrows hcols hslack ha hfollows).1,
    fun ha => (leaves_and_crosses hrows hcols hslack ha hfollows).2, fun ha => ?_⟩
  · rcases hle.eq_or_lt with heq | hlt
    · rwa [heq]
    · refine (leaves_and_crosses hrows hcols hslack ha fun seed hseed => ?_).1
        (hspans.crosses ha (hless hlt) hrow hcol)
      exact (hfollows seed hseed).of_le hle
  · rcases hle.eq_or_lt with heq | hlt
    · rw [heq]
    · have hlaps := hspans.two_laps ha (hb ▸ Nat.succ_pos _) (hless hlt) hlt hu hlong
      refine iff_of_true hlaps (hlaps.trans ?_)
      exact mul_le_mul_of_nonneg_right (Nat.cast_le.2 hle) (abs_nonneg _)

end Suffices

section Exact

variable {motion : Motion ℝ} {shape : Shape} {edges : Edges} {b : ℕ}

theorem follows_real (motion : Motion ℝ) (n : ℕ) (seed : Cell) :
    Follows edges shape motion 0 n seed
      fun k => (edges.locate shape (rayAt motion seed k)).isSome := by
  intro k _ _
  refine ⟨seed.col - k * motion.x, seed.row - k * motion.y, by simp, by simp, ?_⟩
  dsimp only
  rw [rayAt_exact]
  exact Edges.isSome_locate_real

theorem minAxisSpeed_real_pos : 0 < (minAxisSpeed : ℝ) := by
  rw [minAxisSpeed]
  norm_num

theorem lt_magnitude_real {v : ℝ} : minAxisSpeed < magnitude v ↔ ¬ magnitude v ≤ minAxisSpeed :=
  not_le.symm

theorem ne_zero_of_lt_magnitude {v : ℝ} (h : minAxisSpeed < magnitude v) : |v| ≠ 0 :=
  magnitude_eq_abs v ▸ (minAxisSpeed_real_pos.trans h).ne'

theorem toInt_ceil_real (t : ℝ) : Whole.toInt (Whole.ceil t) = ⌈t⌉ := by
  change (if (⌈t⌉ : ℝ) < 0 then ⌈(⌈t⌉ : ℝ)⌉ else ⌊(⌈t⌉ : ℝ)⌋) = _
  rw [Int.ceil_intCast, Int.floor_intCast, ite_self]

theorem spans_of_counts {s : ℝ} (h : Counts motion shape edges s) :
    Spans motion shape edges motion 0 s := by
  have hall {count : ℕ} {v : ℝ} (hv : minAxisSpeed < magnitude v) :
      (count : ℝ) * (1 - 0) ≤ count / magnitude v * |v| := by
    rw [sub_zero, mul_one, magnitude_eq_abs, div_mul_cancel₀ _ (ne_zero_of_lt_magnitude hv)]
  rcases h with ⟨ha, ⟨hv, rfl⟩ | ⟨he, hv, rfl⟩⟩ | ⟨ha, hv, rfl⟩
  · exact .rows ha (hall hv)
  · exact .cols ha he (hall hv)
  · refine .laps ha ?_
    rw [mul_assoc, show (2.0 : ℝ) = 2 by norm_num, mul_assoc]
    exact mul_le_mul_of_nonneg_left (hall hv) zero_le_two

theorem sufficiency_real (hrows : 0 < shape.rows) (hcols : 0 < shape.cols)
    (h : budget? motion shape edges = some b) : Sufficiency motion shape edges motion 0 b := by
  obtain ⟨s, hs, hb⟩ := exists_counts lt_magnitude_real h
  rw [toInt_ceil_real, Int.ceil_toNat, ← min_def_lt, min_comm] at hb
  exact (spans_of_counts hs).sufficiency hrows hcols one_half_pos hb le_rfl (by simp) (by norm_num)
    (by norm_num) fun seed _ => follows_real motion _ seed

end Exact

section Binary64

variable {motion : Motion Float} {shape : Shape} {edges : Edges} {x v s : Float} {count b n k : ℕ}

theorem number_minAxisSpeed :
    (minAxisSpeed : Float).isFinite = true ∧ 1 / 2 ^ 30 ≤ number minAxisSpeed := by
  have h : (minAxisSpeed : Float).toModel.unpack =
      .finite .positive 4835703278458517 (-82) (by norm_num) := rfl
  refine ⟨by decide, ?_⟩
  rw [number, h, real, signed]
  norm_num

/-- Each step on a line of so many cells adds an error of half a unit of the last place at most. -/
theorem number_iterate_sub (hs : s.isFinite = true) (hs1 : |number s| ≤ 1) (hc : k < count)
    (hcount : count ≤ 2 ^ 52) (n : ℕ)
    (hon : ∀ j < n, OnLine count ((· - s)^[j] (k : Float))) :
    ((· - s)^[n] (k : Float)).isFinite = true ∧
      |number ((· - s)^[n] (k : Float)) - (k - n * number s)| ≤ n * ((count + 1) / 2 ^ 53) := by
  induction n with
  | zero =>
    obtain ⟨hf, hn⟩ := number_natCast (n := k) (by omega)
    exact ⟨hf, by simp [hn]⟩
  | succ n ih =>
    obtain ⟨hf, herr⟩ := ih fun j hj => hon j (hj.trans n.lt_succ_self)
    obtain ⟨-, hw⟩ := (onLine_iff_within (by omega)).1 (hon n n.lt_succ_self)
    obtain ⟨h0, h1⟩ := within_iff.1 hw
    rw [Function.iterate_succ_apply']
    generalize (· - s)^[n] (k : Float) = t at *
    obtain ⟨hnan, hv⟩ := value_sub_number hf hs
    obtain ⟨hl, hr⟩ := abs_le.1 hs1
    have hcount' : (count : ℝ) ≤ 2 ^ 52 := by exact_mod_cast hcount
    have hone : (1 : ℝ) ≤ count := Nat.one_le_cast.2 (Nat.one_le_of_lt hc)
    -- the error of a difference is bounded because the place before is still on the line
    have hle : |number t - number s| ≤ count + 1 := by
      rw [abs_le]
      constructor <;> linarith
    obtain ⟨r, hd, hnear⟩ := delivered_near hle (by linarith) (by linarith)
    obtain ⟨hf', hn'⟩ := isFinite_of_value_eq hnan (hv.trans hd)
    refine ⟨hf', ?_⟩
    rw [hn']
    obtain ⟨h₁, h₂⟩ := abs_le.1 herr
    obtain ⟨h₃, h₄⟩ := abs_le.1 hnear
    rw [abs_le]
    push_cast
    constructor <;> linarith

theorem number_quotient (hv : v.isFinite = true) (hv1 : |number v| ≤ 1)
    (hfast : minAxisSpeed < magnitude v) (h0 : 0 < count) (hcount : count ≤ 2 ^ 52) :
    ((count : Float) / magnitude v).isFinite = true ∧
      0 ≤ number ((count : Float) / magnitude v) ∧
      number ((count : Float) / magnitude v) < 2 ^ 200 ∧
      count * (1 - 1 / 2 ^ 53) ≤ number ((count : Float) / magnitude v) * |number v| := by
  obtain ⟨hmf, hmn⟩ := number_magnitude hv
  obtain ⟨haf, han⟩ := number_minAxisSpeed
  obtain ⟨hcf, hcn⟩ := number_natCast (n := count) (by omega)
  rw [lt_iff_number haf hmf, hmn] at hfast
  have hpos : 0 < |number v| := (by positivity : (0 : ℝ) < 1 / 2 ^ 30).trans_le (han.trans hfast.le)
  obtain ⟨hnan, hval⟩ := value_div hcf hmf (hmn ▸ hpos.ne')
  rw [hcn, hmn] at hval
  have hone : (1 : ℝ) ≤ count := Nat.one_le_cast.2 h0
  have hcount' : (count : ℝ) ≤ 2 ^ 52 := by exact_mod_cast hcount
  have hge : (count : ℝ) ≤ count / |number v| := le_div_self (by linarith) hpos hv1
  have hle : (count : ℝ) / |number v| ≤ 2 ^ 82 := by
    rw [div_le_iff₀ hpos]
    calc (count : ℝ) ≤ 2 ^ 82 * (1 / 2 ^ 30) := hcount'.trans_eq (by norm_num)
      _ ≤ 2 ^ 82 * |number v| := mul_le_mul_of_nonneg_left (han.trans hfast.le) (by positivity)
  obtain ⟨r, hd, hnear⟩ := delivered_near (abs_of_nonneg (by linarith)).le (hone.trans hge)
    (hle.trans (by norm_num))
  obtain ⟨hf, hn⟩ := isFinite_of_value_eq hnan (hval.trans hd)
  obtain ⟨hl, hr⟩ := abs_le.1 hnear
  have hsmall : (count : ℝ) / |number v| / 2 ^ 53 ≤ count / |number v| :=
    div_le_self (by linarith) (one_le_pow₀ one_le_two)
  rw [hn]
  refine ⟨hf, by linarith, by linarith, ?_⟩
  · calc (count : ℝ) * (1 - 1 / 2 ^ 53) = (count / |number v| - count / |number v| / 2 ^ 53) *
          |number v| := by field_simp
      _ ≤ r * |number v| := mul_le_mul_of_nonneg_right (by linarith) hpos.le

theorem spans_binary64 (hx : motion.x.isFinite = true) (hx1 : |number motion.x| ≤ 1)
    (hy : motion.y.isFinite = true) (hy1 : |number motion.y| ≤ 1) (hrows : 0 < shape.rows)
    (hcols : 0 < shape.cols) (hrows' : shape.rows ≤ 2 ^ 52) (hcols' : shape.cols ≤ 2 ^ 52)
    (hs : Counts motion shape edges s) :
    s.isFinite = true ∧ 0 ≤ number s ∧
      Spans motion shape edges ⟨number motion.x, number motion.y⟩ (1 / 2 ^ 53) (number s) := by
  rcases hs with ⟨ha, ⟨hv, rfl⟩ | ⟨he, hv, rfl⟩⟩ | ⟨ha, hv, rfl⟩
  · obtain ⟨hf, h0, -, hle⟩ := number_quotient hy hy1 hv hrows hrows'
    exact ⟨hf, h0, .rows ha hle⟩
  · obtain ⟨hf, h0, -, hle⟩ := number_quotient hx hx1 hv hcols hcols'
    exact ⟨hf, h0, .cols ha he hle⟩
  · obtain ⟨hf, h0, hlt, hle⟩ := number_quotient hx hx1 hv hcols hcols'
    obtain ⟨hdf, hdn⟩ := number_double hf (by rwa [abs_of_nonneg h0])
    rw [hdn]
    exact ⟨hdf, by linarith, .laps ha (by linarith)⟩

theorem follows_binary64 (hx : motion.x.isFinite = true) (hx1 : |number motion.x| ≤ 1)
    (hy : motion.y.isFinite = true) (hy1 : |number motion.y| ≤ 1) (hrows : shape.rows ≤ 2 ^ 52)
    (hcols : shape.cols ≤ 2 ^ 52) {slack : ℝ} (hrow : n * ((shape.rows + 1) / 2 ^ 53) ≤ slack)
    (hcol : n * ((shape.cols + 1) / 2 ^ 53) ≤ slack) (seed : Cell) (hseed : shape.Contains seed) :
    Follows edges shape ⟨number motion.x, number motion.y⟩ slack n seed
      fun k => (edges.locate shape (rayAt motion seed k)).isSome := by
  intro k hk hon
  simp only [rayAt_eq, Edges.isSome_locate_iff] at hon ⊢
  have hsmall {count : ℕ} (h : n * (((count : ℝ) + 1) / 2 ^ 53) ≤ slack) :
      k * (((count : ℝ) + 1) / 2 ^ 53) ≤ slack :=
    (mul_le_mul_of_nonneg_right (Nat.cast_le.2 hk) (by positivity)).trans h
  obtain ⟨hyf, hyn⟩ := number_iterate_sub hy hy1 hseed.1 hrows k fun j hj => (hon j hj).1
  have hline : OnLine shape.rows ((· - motion.y)^[k] (seed.row : Float)) ↔ _ :=
    onLine_iff_within (by omega)
  rw [and_iff_right hyf] at hline
  cases edges with
  | periodic =>
    refine ⟨seed.col - k * number motion.x, _, ?_, hyn.trans (hsmall hrow), ?_⟩
    · rw [sub_self, abs_zero]
      exact (by positivity : (0 : ℝ) ≤ n * ((shape.rows + 1) / 2 ^ 53)).trans hrow
    · simp [hline]
  | bounded =>
    obtain ⟨hxf, hxn⟩ := number_iterate_sub hx hx1 hseed.2 hcols k fun j hj => (hon j hj).2 rfl
    have hline' : OnLine shape.cols ((· - motion.x)^[k] (seed.col : Float)) ↔ _ :=
      onLine_iff_within (by omega)
    rw [and_iff_right hxf] at hline'
    exact ⟨_, _, hxn.trans (hsmall hcol), hyn.trans (hsmall hrow), by rw [hline, hline']⟩

theorem lt_magnitude_binary64 (hv : v.isFinite = true) :
    minAxisSpeed < magnitude v ↔ ¬ magnitude v ≤ minAxisSpeed := by
  rw [lt_iff_number number_minAxisSpeed.1 (number_magnitude hv).1,
    le_iff_number (number_magnitude hv).1 number_minAxisSpeed.1, not_le]

theorem toNat_toInt_ceil (hs : s.isFinite = true) (h0 : 0 ≤ number s) (hlt : number s < 2 ^ 52) :
    (Whole.toInt (Whole.ceil s)).toNat = ⌈number s⌉₊ := by
  obtain ⟨hf, hn⟩ := number_ceil_of_nonneg hs h0 hlt
  apply toNat_toInt_eq hf (hn.trans (natCast_ceil_eq_intCast_ceil h0).symm)
  have hle : ⌈number s⌉₊ ≤ 2 ^ 52 := Nat.ceil_le.2 (by exact_mod_cast hlt.le)
  omega

noncomputable def drift (shape : Shape) : ℝ :=
  (longest shape * (max shape.rows shape.cols + 1) : ℕ) / (2 ^ 53 : ℕ)

theorem toNat_toInt_ceil_capped {most : ℕ} (hmost : most < 2 ^ 52) (hs : s.isFinite = true)
    (h0 : 0 ≤ number s) :
    (Whole.toInt (Whole.ceil (if (most : Float) < s then (most : Float) else s))).toNat =
      ⌈min (number s) most⌉₊ := by
  obtain ⟨hmf, hmn⟩ := number_natCast (n := most) (by omega)
  have hmost' : (most : ℝ) < 2 ^ 52 := by exact_mod_cast hmost
  have hlt := lt_iff_number hmf hs
  rw [hmn] at hlt
  split_ifs with hc
  · rw [toNat_toInt_ceil hmf (hmn ▸ most.cast_nonneg) (hmn ▸ hmost'), hmn,
      min_eq_right (hlt.1 hc).le]
  · have hle := not_lt.1 fun h => hc (hlt.2 h)
    rw [toNat_toInt_ceil hs h0 (hle.trans_lt hmost'), min_eq_left hle]

theorem sufficiency_binary64 (hrows : 0 < shape.rows) (hcols : 0 < shape.cols)
    (hx : motion.x.isFinite = true) (hx1 : |number motion.x| ≤ 1)
    (hy : motion.y.isFinite = true) (hy1 : |number motion.y| ≤ 1)
    (hsize : longest shape * (max shape.rows shape.cols + 1) ≤ 2 ^ 51)
    (h : budget? motion shape edges = some b) :
    Sufficiency motion shape edges ⟨number motion.x, number motion.y⟩ (drift shape) b := by
  have hpos : 0 < longest shape := Nat.succ_pos _
  have hcount {count : ℕ} (hc : count ≤ max shape.rows shape.cols) : count ≤ 2 ^ 51 :=
    (hc.trans (Nat.le_succ _)).trans ((Nat.le_mul_of_pos_left _ hpos).trans hsize)
  have hrow := hcount (le_max_left _ _)
  have hcol := hcount (le_max_right _ _)
  have hlong : longest shape ≤ 2 ^ 51 := (Nat.le_mul_of_pos_right _ (Nat.succ_pos _)).trans hsize
  have hdrift : drift shape ≤ 1 / 4 := by
    have hsize' : ((longest shape * (max shape.rows shape.cols + 1) : ℕ) : ℝ) ≤ 2 ^ 51 := by
      exact_mod_cast hsize
    rw [drift, div_le_iff₀ (by positivity)]
    norm_num at hsize' ⊢
    linarith
  have hpart {count : ℕ} (hc : count ≤ 2 ^ 51) : (count : ℝ) * (1 / 2 ^ 53) ≤ 1 / 4 := by
    have hc' : (count : ℝ) ≤ 2 ^ 51 := by exact_mod_cast hc
    linarith
  have hstray {count : ℕ} (hc : count ≤ max shape.rows shape.cols) :
      (longest shape : ℝ) * ((count + 1) / 2 ^ 53) ≤ drift shape := by
    have hmul := Nat.mul_le_mul_left (longest shape) (Nat.succ_le_succ hc)
    rw [drift, ← mul_div_assoc, Nat.cast_pow, Nat.cast_two]
    exact div_le_div_of_nonneg_right (by exact_mod_cast hmul) (by positivity)
  obtain ⟨s, hs, hb⟩ := exists_counts (lt_magnitude_binary64 hy) h
  obtain ⟨hf, h0, hspans⟩ := spans_binary64 hx hx1 hy hy1 hrows hcols (by omega) (by omega) hs
  rw [toNat_toInt_ceil_capped (by omega) hf h0] at hb
  refine hspans.sufficiency hrows hcols (by linarith) hb (by positivity) ?_ ?_ ?_ ?_
  · linarith [hpart hlong]
  · linarith [hpart hrow]
  · linarith [hpart hcol]
  · exact fun seed hseed => follows_binary64 hx hx1 hy hy1 (by omega) (by omega)
      (hstray (le_max_left _ _)) (hstray (le_max_right _ _)) seed hseed

end Binary64

/-- A budget suffices if and only if the longest one does, and this if and only if it crosses the
grid: exactly so over real numbers, and but for the drift in binary64. -/
theorem budget_suffices_iff (shape : Shape) (edges : Edges) (b : ℕ) (hrows : 0 < shape.rows)
    (hcols : 0 < shape.cols) :
    (∀ motion : Motion ℝ, budget? motion shape edges = some b →
      Sufficiency motion shape edges motion 0 b) ∧
    ∀ motion : Motion Float, motion.x.isFinite = true → |number motion.x| ≤ 1 →
      motion.y.isFinite = true → |number motion.y| ≤ 1 →
      longest shape * (max shape.rows shape.cols + 1) ≤ 2 ^ 51 →
      budget? motion shape edges = some b →
      Sufficiency motion shape edges ⟨number motion.x, number motion.y⟩ (drift shape) b :=
  ⟨fun _ h => sufficiency_real hrows hcols h,
    fun _ hx hx1 hy hy1 hsize h => sufficiency_binary64 hrows hcols hx hx1 hy hy1 hsize h⟩

theorem number_thousandth :
    (0.001 : Float).isFinite = true ∧ |number 0.001| ≤ 1 / 999 := by
  have h : (0.001 : Float).toModel.unpack =
      .finite .positive 4611686018427388 (-62) (by norm_num) := rfl
  refine ⟨by decide, ?_⟩
  rw [number, h, real, signed]
  norm_num

/-- Under a steep sun the ray from a far corner is still on the grid when the budget ends, and on a
single row a ray does not make two laps. -/
theorem budget_suffices_iff_steep :
    0 < 5 ∧ budget? (⟨0.001, 0.001⟩ : Motion Float) ⟨5, 5⟩ .bounded = some 51 ∧
      ¬ Leaves (⟨0.001, 0.001⟩ : Motion Float) ⟨5, 5⟩ .bounded 51 ∧
      budget? (⟨0.5, 0.0⟩ : Motion Float) ⟨1, 4⟩ .periodic = some 9 ∧
      ¬ 2 * (4 : ℝ) ≤ 9 * |number 0.5| := by
  obtain ⟨hf, hn⟩ := number_thousandth
  have hsteep : budget? (⟨0.001, 0.001⟩ : Motion Float) ⟨5, 5⟩ .bounded = some 51 := by
    decide +kernel
  have hrow : budget? (⟨0.5, 0.0⟩ : Motion Float) ⟨1, 4⟩ .periodic = some 9 := by
    decide +kernel
  have h := (budget_suffices_iff ⟨5, 5⟩ .bounded 51 (by norm_num) (by norm_num)).2
    ⟨0.001, 0.001⟩ hf (hn.trans (by norm_num)) hf (hn.trans (by norm_num)) (by decide) hsteep
  refine ⟨by norm_num, hsteep, fun hl => ?_, hrow, ?_⟩
  · have ha : ¬ AlongRows (⟨0.001, 0.001⟩ : Motion Float) .bounded := fun ha => by cases ha.1
    have hlong : longest ⟨5, 5⟩ = 51 := by decide
    have hc := h.crosses ha ((h.leaves ha).1 hl)
    have hdrift : drift ⟨5, 5⟩ ≤ 1 := by
      rw [drift, hlong]
      norm_num
    cases hc with
    | rows hc | cols _ hc =>
      rw [hlong] at hc
      norm_num at hc
      linarith
  · rw [number_half.2]
    norm_num

end Relief.Shadow
