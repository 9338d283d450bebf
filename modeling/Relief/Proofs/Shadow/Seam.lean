import Relief.Proofs.Shadow.Laps
import Relief.Proofs.Shadow.Turned

namespace Relief.Shadow

section Rays

variable {α : Type} [FloorField α] [Whole α] [ExactWhole α] {β : Type} [DivisionRing β]
  [LinearOrder β] {terrain : Terrain β} {shape : Shape} {motion : Motion α} {fall : β}
  {cell seed : Cell} {σ : ℤ} {a m n row q : ℕ} {f : ℕ → Cell} {w : ℕ → Option β}

omit [Whole α] [ExactWhole α] in
theorem roundAway_div (hm : m = 1 ∨ m = 2) (j : ℕ) :
    roundAway ((j : α) / m) = ((j ⌈/⌉ m : ℕ) : ℤ) := by
  have hpos : 0 < m := by omega
  obtain ⟨hup, hlow⟩ := (ceilDiv_eq_iff hpos).1 (rfl : j ⌈/⌉ m = _)
  rw [roundAway_of_nonneg (by positivity), round_eq, Int.floor_eq_iff]
  generalize j ⌈/⌉ m = c at hup hlow
  rcases hm with rfl | rfl
  · obtain rfl : j = c := by omega
    push_cast
    constructor <;> linarith
  · have h1 : (2 * c : α) ≤ j + 1 := by exact_mod_cast (by omega : 2 * c ≤ j + 1)
    have h2 : (j : α) ≤ 2 * c := by exact_mod_cast hup
    push_cast
    constructor <;> linarith

theorem trail_alongRow (hm : m = 1 ∨ m = 2) (hσ : σ = 1 ∨ σ = -1) (hx : motion.x = -(σ / m))
    (hy : (n : α) * |motion.y| < 1 / 2) (hrow : row < shape.rows) :
    trail shape motion .periodic (n + 1) ⟨row, 0⟩ =
      (List.range (n + 1)).map fun j => shape.turn (σ * (j ⌈/⌉ m : ℕ)) ⟨row, 0⟩ := by
  refine path_eq_map_range fun j hj => ?_
  change Edges.periodic.locate shape (rayAt motion ⟨row, 0⟩ j) = _
  have hrows : roundAway ((row : α) - j * motion.y) = row := by
    have hle : (j : α) * |motion.y| ≤ n * |motion.y| :=
      mul_le_mul_of_nonneg_right (Nat.cast_le.2 (Nat.le_of_lt_succ hj)) (abs_nonneg _)
    refine roundAway_eq_of_abs_lt ?_
    rw [Int.cast_natCast, sub_sub_cancel_left, abs_neg, abs_mul, Nat.abs_cast]
    exact hle.trans_lt hy
  have hcols : roundAway (((0 : ℕ) : α) - j * motion.x) = σ * (j ⌈/⌉ m : ℕ) := by
    rw [hx, Nat.cast_zero, zero_sub, mul_neg, neg_neg]
    rcases hσ with rfl | rfl
    · rw [Int.cast_one, mul_one_div, roundAway_div hm, one_mul]
    · rw [Int.cast_neg, Int.cast_one, neg_div, mul_neg, mul_one_div, roundAway_neg,
        roundAway_div hm, neg_one_mul]
  rw [rayAt_exact, Edges.locate_periodic]
  dsimp only
  rw [hrows, hcols, if_pos ⟨Int.natCast_nonneg _, Int.ofNat_lt.2 hrow⟩, Int.toNat_natCast,
    Shape.turn, Nat.cast_zero, zero_add]

omit [ExactWhole α] in
theorem marksFrom_eq (h : trail terrain.shape motion .periodic n seed = (List.range n).map f) :
    marksFrom terrain motion fall .periodic n cell seed = (List.range n).filterMap fun j =>
      if f j = cell then markAt fall (fun i => terrain.height (f i)) j else none := by
  have hget {j : ℕ} (hj : j < n) : ((List.range n).map f)[j]? = some (f j) := by
    rw [List.getElem?_map, List.getElem?_range hj]
    rfl
  rw [marksFrom, h, List.length_map, List.length_range]
  refine List.filterMap_congr fun j hj => ?_
  have hj := List.mem_range.1 hj
  have hmark : markAt fall (heightsOf terrain ((List.range n).map f)) j =
      markAt fall (fun i => terrain.height (f i)) j :=
    markAt_congr fun i hi => heightsOf_eq (hget (hi.trans_lt hj))
  simp only [markOn, hget hj, Option.some_inj, hmark]

theorem marksFrom_alongRow (hm : m = 1 ∨ m = 2) (hσ : σ = 1 ∨ σ = -1)
    (hx : motion.x = -(σ / m)) (hrow : row < terrain.shape.rows)
    (hy : ((2 * (m * terrain.shape.cols) : ℕ) : α) * |motion.y| < 1 / 2)
    (hheight : ∀ i : ℕ, terrain.height (terrain.shape.turn (σ * i) ⟨row, 0⟩) = w (i + a))
    (hcell : ∀ i : ℕ, terrain.shape.turn (σ * i) ⟨row, 0⟩ = cell ↔
      i + a ≡ q [MOD terrain.shape.cols]) :
    marksFrom terrain motion fall .periodic (2 * (m * terrain.shape.cols) + 1) cell ⟨row, 0⟩ =
      lapMarks fall w m terrain.shape.cols a q := by
  rw [marksFrom_eq (trail_alongRow hm hσ hx hy hrow), lapMarks]
  refine List.filterMap_congr fun j _ => ?_
  simp only [hheight, hcell]
  rfl

omit [ExactWhole α] in
theorem marksFrom_eq_nil (h : trail terrain.shape motion .periodic n seed = (List.range n).map f)
    (hrow : ∀ j, (f j).row = seed.row) (hne : seed.row ≠ cell.row) :
    marksFrom terrain motion fall .periodic n cell seed = [] := by
  rw [marksFrom_eq h, List.filterMap_eq_nil_iff]
  refine fun j _ => if_neg ?_
  rintro rfl
  exact hne (hrow j).symm

theorem mul_modEq_iff (hσ : σ = 1 ∨ σ = -1) {x y : ℕ} :
    σ * x ≡ σ * y [ZMOD n] ↔ x ≡ y [MOD n] := by
  rw [← Int.natCast_modEq_iff]
  refine ⟨fun h => ?_, fun h => h.mul_left σ⟩
  have hone (v : ℤ) : σ * (σ * v) = v := by rcases hσ with rfl | rfl <;> ring
  have hmul := h.mul_left σ
  rwa [hone, hone] at hmul

theorem exists_columns (hcols : 0 < shape.cols) (hσ : σ = 1 ∨ σ = -1) (v : ℤ) :
    ∃ a : ℕ, σ * a ≡ v [ZMOD shape.cols] := by
  refine ⟨(σ * v % shape.cols).toNat, ?_⟩
  rw [Int.toNat_of_nonneg (Int.emod_nonneg _ (Int.natCast_pos.2 hcols).ne')]
  have hmod := (Int.mod_modEq (σ * v) shape.cols).mul_left σ
  have hone : σ * (σ * v) = v := by rcases hσ with rfl | rfl <;> ring
  rwa [hone] at hmod

theorem exists_turn_eq (hσ : σ = 1 ∨ σ = -1) (hcell : shape.Contains cell) :
    ∃ q : ℕ, ∀ i : ℕ, shape.turn (σ * i) ⟨cell.row, 0⟩ = cell ↔ i ≡ q [MOD shape.cols] := by
  have hcols : 0 < shape.cols := Nat.zero_lt_of_lt hcell.2
  obtain ⟨q, hq⟩ := exists_columns hcols hσ cell.col
  have hstart : shape.turn (σ * q) ⟨cell.row, 0⟩ = cell := by
    have hturn : shape.turn cell.col ⟨cell.row, 0⟩ = shape.turn 0 cell := by
      rw [Shape.turn, Shape.turn, Nat.cast_zero, zero_add, add_zero]
    rw [(Shape.turn_eq_iff hcols).2 hq, hturn, Shape.turn_zero hcell]
  refine ⟨q, fun i => ?_⟩
  rw [← mul_modEq_iff hσ, ← Shape.turn_eq_iff hcols, hstart]

variable [IsStrictOrderedRing β]

/-- The last mark of a ray along a row turns along with the terrain. -/
theorem getLast?_marksFrom_turned (hm : m = 1 ∨ m = 2) (hσ : σ = 1 ∨ σ = -1)
    (hx : motion.x = -(σ / m)) (hrow : row < terrain.shape.rows)
    (hy : ((2 * (m * terrain.shape.cols) : ℕ) : α) * |motion.y| < 1 / 2) (hfall : 0 ≤ fall)
    (hcell : terrain.shape.Contains cell) (k : ℤ) :
    let budget := 2 * (m * terrain.shape.cols) + 1
    (marksFrom (terrain.turned k) motion fall .periodic budget (terrain.shape.turn k cell)
        ⟨row, 0⟩).getLast? =
      (marksFrom terrain motion fall .periodic budget cell ⟨row, 0⟩).getLast? := by
  intro budget
  have hcols : 0 < terrain.shape.cols := Nat.zero_lt_of_lt hcell.2
  by_cases hne : row = cell.row
  · -- both rays go round the same terrain, which the one enters `a` columns later
    subst hne
    obtain ⟨q, hq⟩ := exists_turn_eq hσ hcell
    obtain ⟨a, ha⟩ := exists_columns hcols hσ (-k)
    have hback (i : ℕ) : terrain.shape.turn (-k) (terrain.shape.turn (σ * i) ⟨cell.row, 0⟩) =
        terrain.shape.turn (σ * (i + a : ℕ)) ⟨cell.row, 0⟩ := by
      rw [Shape.turn_turn hcols, Shape.turn_eq_iff hcols, Nat.cast_add, mul_add, add_comm]
      exact ha.symm.add_left _
    have hstart : terrain.shape.Contains ⟨cell.row, 0⟩ := ⟨hrow, hcols⟩
    obtain ⟨w, hw⟩ : ∃ w : ℕ → Option β, ∀ i : ℕ,
        terrain.height (terrain.shape.turn (σ * i) ⟨cell.row, 0⟩) = w i := ⟨_, fun _ => rfl⟩
    have hper : w.Periodic terrain.shape.cols := by
      intro i
      rw [← hw, ← hw, (Shape.turn_eq_iff hcols).2 ((mul_modEq_iff hσ).2 Nat.add_modEq_right)]
    have hturned : marksFrom (terrain.turned k) motion fall .periodic budget
        (terrain.shape.turn k cell) ⟨cell.row, 0⟩ = lapMarks fall w m terrain.shape.cols a q := by
      refine marksFrom_alongRow hm hσ hx hrow hy ?_ ?_
      · exact fun i => (congrArg terrain.height (hback i)).trans (hw (i + a))
      · intro i
        have hiff := hq (i + a)
        rwa [← hback, Shape.turn_neg_eq_iff hcell (Shape.contains_turn _ hstart)] at hiff
    have hplain : marksFrom terrain motion fall .periodic budget cell ⟨cell.row, 0⟩ =
        lapMarks fall w m terrain.shape.cols 0 q :=
      marksFrom_alongRow hm hσ hx hrow hy hw hq
    rw [hturned, hplain]
    exact getLast?_lapMarks_eq hper (by omega) hcols hfall a 0 q
  · have hrows (j : ℕ) : (terrain.shape.turn (σ * (j ⌈/⌉ m : ℕ)) ⟨row, 0⟩).row = row := rfl
    have htrail := trail_alongRow hm hσ hx hy hrow
    have hturned : marksFrom (terrain.turned k) motion fall .periodic budget
        (terrain.shape.turn k cell) ⟨row, 0⟩ = [] := marksFrom_eq_nil htrail hrows hne
    rw [hturned, marksFrom_eq_nil htrail hrows hne]

end Rays

section Runs

variable {α : Type} [FloorField α] [Whole α] [ExactWhole α] {shape : Shape} {motion : Motion α}
  {m : ℕ}

omit [Whole α] [ExactWhole α] in
theorem seeds_alongRows (h : AlongRows motion .periodic) :
    seeds motion shape .periodic = (List.range shape.rows).map (⟨·, 0⟩) := by
  rw [AlongRows] at h
  unfold seeds
  dsimp only
  rw [if_pos h, List.append_nil]

theorem budget_alongRows (h : AlongRows motion .periodic) (hm : m = 1 ∨ m = 2)
    (hx : |motion.x| = 1 / m) (hrows : m ≤ shape.rows)
    (hsize : 2 * (m * shape.cols) < wordValues) :
    budget? motion shape .periodic = some (2 * (m * shape.cols) + 1) := by
  have hspeed : minAxisSpeed < magnitude motion.x := by
    rw [magnitude_eq_abs, hx, minAxisSpeed]
    rcases hm with rfl | rfl <;> norm_num
  have hdown : crossing shape.rows motion.y = none := if_neg h.2.not_gt
  have hacross : crossing shape.cols motion.x = some ((shape.cols : α) / magnitude motion.x) :=
    if_pos hspeed
  have hsteps : (2.0 : α) * (shape.cols / magnitude motion.x) =
      ((2 * (m * shape.cols) : ℕ) : α) := by
    rw [magnitude_eq_abs, hx]
    push_cast
    norm_num
    ring
  have hmost : 2 * (m * shape.cols) ≤ min (2 * shape.size) (wordValues - 1) := by
    refine le_min (Nat.mul_le_mul_left 2 (Nat.mul_le_mul_right _ hrows)) ?_
    omega
  have hlaps (s : α) : ((none : Option α) <|> some s) = some s := rfl
  rw [budget?, hdown, hacross]
  simp only [Option.map_some, hlaps, hsteps]
  rw [if_neg (not_lt.2 (Nat.cast_le.2 hmost)), ExactWhole.ceil, ExactWhole.toInt_intCast,
    Int.ceil_natCast, Int.toNat_natCast]

variable {β : Type} [DivisionRing β] [LinearOrder β] [IsStrictOrderedRing β] {terrain : Terrain β}
  {fall : β} {highest : Option β} {cell : Cell} {k : ℤ}

theorem seamless_alongRows (h : AlongRows motion .periodic) (hm : m = 1 ∨ m = 2)
    (hx : |motion.x| = 1 / m) (hrows : m ≤ terrain.shape.rows)
    (hsize : 2 * (m * terrain.shape.cols) < wordValues)
    (hy : ((2 * (m * terrain.shape.cols) : ℕ) : α) * |motion.y| < 1 / 2) (hfall : 0 ≤ fall)
    (htop : Tops highest terrain) (hcell : terrain.shape.Contains cell) (k : ℤ) :
    Seamless terrain motion fall highest k cell := by
  have hb := budget_alongRows h hm hx hrows hsize
  obtain ⟨σ, hσ, hxσ⟩ : ∃ σ : ℤ, (σ = 1 ∨ σ = -1) ∧ motion.x = -(σ / m) := by
    rcases eq_or_eq_neg_of_abs_eq hx with hx | hx
    · exact ⟨-1, .inr rfl, by rw [hx, Int.cast_neg, Int.cast_one, neg_div, neg_neg]⟩
    · exact ⟨1, .inl rfl, by rw [hx, Int.cast_one]⟩
  have hturned := sweptDepth_eq (tops_turned htop k) hfall hb (Shape.contains_turn k hcell)
  rw [Seamless, sweptDepth_eq htop hfall hb hcell]
  refine hturned.trans (congrArg (Option.getD · 0) ?_)
  have hseeds : seeds motion (terrain.turned k).shape .periodic =
      (List.range terrain.shape.rows).map (⟨·, 0⟩) := seeds_alongRows h
  rw [hseeds, seeds_alongRows h]
  refine getLast?_flatMap_congr fun seed hseed => ?_
  obtain ⟨row, hrow, rfl⟩ := List.mem_map.1 hseed
  exact getLast?_marksFrom_turned hm hσ hxσ (List.mem_range.1 hrow) hy hfall hcell k

/-- On a grid whose columns wrap round, turning the terrain is the same as turning the seeds of the
rays the other way, apart from rays that come half way between two columns. So nothing tells where
the grid starts wherever the rays of each edge row agree on the last mark that they leave, as they
do everywhere if rays keep to their columns or are in no row twice. Nor does anything under light
along the rows that takes one or two steps to a column, or if there is no light from a side. -/
theorem turned_seeds_and_seamless (terrain : Terrain β) (motion : Motion α) (fall : β)
    (highest : Option β) (k : ℤ) (cell : Cell) (hfall : 0 ≤ fall) (htop : Tops highest terrain)
    (hcell : terrain.shape.Contains cell) :
    (∀ budget, budget? motion terrain.shape .periodic = some budget →
      ClearOfTies motion budget →
        sweptDepth (terrain.turned k) motion fall highest .periodic (terrain.shape.turn k cell) =
            shown (sweptFrom terrain motion fall highest .periodic budget
              ((seeds motion terrain.shape .periodic).map (terrain.shape.turn (-k))))
              (terrain.shape.index cell) ∧
          (¬ AlongRows motion .periodic →
            RowsAgree terrain motion fall budget cell ∨ motion.x = 0 ∨ 1 ≤ |motion.y| →
              Seamless terrain motion fall highest k cell)) ∧
      (AlongRows motion .periodic → ∀ m : ℕ, m = 1 ∨ m = 2 → |motion.x| = 1 / m →
        m ≤ terrain.shape.rows → 2 * (m * terrain.shape.cols) < wordValues →
          ((2 * (m * terrain.shape.cols) : ℕ) : α) * |motion.y| < 1 / 2 →
            Seamless terrain motion fall highest k cell) ∧
      (budget? motion terrain.shape .periodic = none →
        Seamless terrain motion fall highest k cell) := by
  refine ⟨fun budget hb hclear => ⟨sweptDepth_turned hb hclear hfall htop hcell k, ?_⟩, ?_, ?_⟩
  · rintro ha (hagree | hstraight)
    · exact hagree.seamless ha hb hclear hfall htop hcell k
    · exact (rowsAgree_of_straight hstraight hclear).seamless ha hb hclear hfall htop hcell k
  · intro ha m hm hx hrows hsize hy
    exact seamless_alongRows ha hm hx hrows hsize hy hfall htop hcell k
  · intro hb
    have hturned : budget? motion (terrain.turned k).shape .periodic = none := hb
    rw [Seamless, sweptDepth, sweptDepth, hb, hturned]

end Runs

section Tables

def tabled (rows : List (List ℚ)) : Terrain ℚ where
  shape := ⟨rows.length, (rows.headD []).length⟩
  height c := rows[c.row]?.bind (·[c.col]?)

theorem tops_tabled {rows : List (List ℚ)} {top : ℚ} (h : ∀ row ∈ rows, ∀ z ∈ row, z ≤ top) :
    Tops (some top) (tabled rows) := by
  intro c z hz
  obtain ⟨row, hrow, hz⟩ := Option.bind_eq_some_iff.1 hz
  exact ⟨top, rfl, h row (List.mem_of_getElem? hrow) z (List.mem_of_getElem? hz)⟩

instance {α β : Type} [FloorField α] [Whole α] [DivisionRing β] [LinearOrder β]
    (terrain : Terrain β) (motion : Motion α) (fall : β) (highest : Option β) (k : ℤ)
    (cell : Cell) : Decidable (Seamless terrain motion fall highest k cell) :=
  inferInstanceAs (Decidable (_ = _))

/-- A hill in the southeast of a narrow grid, under light from the west, the south and the
southwest. -/
theorem turned_seeds_and_seamless_hill :
    let terrain := tabled [[0, 0], [0, 0], [0, 10]]
    let west : Motion ℚ := ⟨-1 / 2, 0⟩
    let south : Motion ℚ := ⟨0, 1 / 2⟩
    let southwest : Motion ℚ := ⟨-1 / 2, 1 / 2⟩
    let depth (motion : Motion ℚ) (cell : Cell) : ℚ :=
      sweptDepth terrain motion 1 (some 10) .periodic cell
    (0 : ℚ) ≤ 1 ∧ Tops (some 10) terrain ∧ AlongRows west .periodic ∧
      ¬ AlongRows south .periodic ∧ budget? southwest terrain.shape .periodic = some 7 ∧
      ClearOfTies southwest 7 ∧ depth west ⟨2, 0⟩ = 8 ∧
      Seamless terrain west 1 (some 10) 1 ⟨2, 0⟩ ∧ depth south ⟨1, 1⟩ = 8 ∧
      Seamless terrain south 1 (some 10) 1 ⟨1, 1⟩ ∧ depth southwest ⟨1, 1⟩ = 7 ∧
      sweptDepth (terrain.turned 1) southwest 1 (some 10) .periodic ⟨1, 0⟩ =
        shown (sweptFrom terrain southwest 1 (some 10) .periodic 7
          [⟨0, 1⟩, ⟨0, 0⟩, ⟨2, 1⟩, ⟨2, 0⟩]) 3 := by
  intro terrain west south southwest depth
  have hfall : (0 : ℚ) ≤ 1 := zero_le_one
  have htop : Tops (some 10) terrain := tops_tabled (by decide +kernel)
  have hwest : AlongRows west .periodic := ⟨rfl, by decide +kernel⟩
  have hsouth : ¬ AlongRows south .periodic := fun h => absurd h.2 (by decide +kernel)
  have hbudget : budget? southwest terrain.shape .periodic = some 7 := by decide +kernel
  have hclear : ClearOfTies southwest 7 := fun h => absurd h (by decide +kernel)
  have hsouth_clear : ClearOfTies south 7 := fun h => absurd h (lt_irrefl 0)
  obtain ⟨-, halong, -⟩ :=
    turned_seeds_and_seamless terrain west 1 (some 10) 1 ⟨2, 0⟩ hfall htop (by decide)
  obtain ⟨hdown, -, -⟩ :=
    turned_seeds_and_seamless terrain south 1 (some 10) 1 ⟨1, 1⟩ hfall htop (by decide)
  obtain ⟨hoblique, -, -⟩ :=
    turned_seeds_and_seamless terrain southwest 1 (some 10) 1 ⟨1, 1⟩ hfall htop (by decide)
  have hseeds : (seeds southwest terrain.shape .periodic).map (terrain.shape.turn (-1)) =
      [⟨0, 1⟩, ⟨0, 0⟩, ⟨2, 1⟩, ⟨2, 0⟩] := by
    decide +kernel
  have hturned := (hoblique 7 hbudget hclear).1
  have hcell : terrain.shape.turn 1 ⟨1, 1⟩ = ⟨1, 0⟩ := by decide
  rw [hseeds, hcell] at hturned
  refine ⟨hfall, htop, hwest, hsouth, hbudget, hclear, by decide +kernel, ?_, by decide +kernel,
    ?_, by decide +kernel, hturned⟩
  · exact halong hwest 2 (.inr rfl) (by decide +kernel) (by decide) (by decide) (by decide +kernel)
  · exact (hdown 7 (by decide +kernel) hsouth_clear).2 hsouth (.inr (.inl rfl))

/-- A run of the sweeps in which the depth of a cell does not turn along with the terrain. -/
def Seam (rows : List (List ℚ)) (motion : Motion ℚ) (cell : Cell) : Prop :=
  Tops (some 10) (tabled rows) ∧ (tabled rows).shape.Contains cell ∧
    ¬ Seamless (tabled rows) motion 1 (some 10) 1 cell

/-- Turning terrain by one column leaves a seam under light along the rows that takes four steps to
three columns, or two steps to a column of the only row; under light across the rows, where rays of
one row leave different depths; and where rays come half way between two columns. -/
theorem seams_of_hills :
    (AlongRows (⟨3 / 4, 0⟩ : Motion ℚ) .periodic ∧ Seam [[0, 10]] ⟨3 / 4, 0⟩ ⟨0, 0⟩ ∧
      Seam [[0, 0, 10]] ⟨-1 / 2, 0⟩ ⟨0, 1⟩) ∧
    (¬ AlongRows (⟨-1 / 2, 1 / 2⟩ : Motion ℚ) .periodic ∧
      Seam [[0, 0], [0, 0], [0, 10]] ⟨-1 / 2, 1 / 2⟩ ⟨1, 1⟩ ∧
      Seam [[0, 0], [0, 10], [0, 10]] ⟨1 / 2, 1⟩ ⟨0, 0⟩) := by
  have hseam {rows : List (List ℚ)} {motion : Motion ℚ} {cell : Cell}
      (htop : ∀ row ∈ rows, ∀ z ∈ row, z ≤ 10) (hcell : (tabled rows).shape.Contains cell)
      (h : ¬ Seamless (tabled rows) motion 1 (some 10) 1 cell) : Seam rows motion cell :=
    ⟨tops_tabled htop, hcell, h⟩
  refine ⟨⟨⟨rfl, by decide +kernel⟩, ?_, ?_⟩, fun h => absurd h.2 (by decide +kernel), ?_, ?_⟩
  · exact hseam (by decide +kernel) (by decide) (by decide +kernel)
  · exact hseam (by decide +kernel) (by decide) (by decide +kernel)
  · exact hseam (by decide +kernel) (by decide) (by decide +kernel)
  · exact hseam (by decide +kernel) (by decide) (by decide +kernel)

end Tables

end Relief.Shadow
