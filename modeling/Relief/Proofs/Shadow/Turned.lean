import Relief.Proofs.Shadow.Budget
import Relief.Proofs.Shadow.Sweep

namespace Relief

def Shape.turn (shape : Shape) (k : ℤ) (c : Cell) : Cell :=
  ⟨c.row, ((c.col + k) % shape.cols).toNat⟩

/-- Terrain turned east by so many columns. -/
def Terrain.turned {β : Type} (terrain : Terrain β) (k : ℤ) : Terrain β :=
  { terrain with height := fun c => terrain.height (terrain.shape.turn (-k) c) }

namespace Shape

variable {shape : Shape} {c d : Cell} {k : ℤ}

theorem natCast_turn_col (hcols : 0 < shape.cols) :
    ((shape.turn k c).col : ℤ) = (c.col + k) % shape.cols :=
  Int.toNat_of_nonneg (Int.emod_nonneg _ (Int.natCast_pos.2 hcols).ne')

theorem turn_mk (hcols : 0 < shape.cols) (row : ℕ) (v k : ℤ) :
    shape.turn k ⟨row, (v % shape.cols).toNat⟩ = ⟨row, ((v + k) % shape.cols).toNat⟩ := by
  rw [turn, Int.toNat_of_nonneg (Int.emod_nonneg _ (Int.natCast_pos.2 hcols).ne'),
    Int.emod_add_emod]

theorem turn_eq_iff {i j : ℤ} (hcols : 0 < shape.cols) :
    shape.turn i c = shape.turn j c ↔ i ≡ j [ZMOD shape.cols] := by
  constructor
  · intro h
    have hcol : ((shape.turn i c).col : ℤ) = (shape.turn j c).col := by rw [h]
    rw [natCast_turn_col hcols, natCast_turn_col hcols] at hcol
    exact Int.ModEq.add_left_cancel' _ hcol
  · intro h
    rw [turn, turn, h.add_left (c.col : ℤ)]

theorem contains_turn (k : ℤ) (h : shape.Contains c) : shape.Contains (shape.turn k c) := by
  have hcols : 0 < shape.cols := Nat.zero_lt_of_lt h.2
  refine ⟨h.1, ?_⟩
  rw [← Int.ofNat_lt, natCast_turn_col hcols]
  exact Int.emod_lt_of_pos _ (Int.natCast_pos.2 hcols)

theorem turn_turn (hcols : 0 < shape.cols) (i j : ℤ) (c : Cell) :
    shape.turn i (shape.turn j c) = shape.turn (i + j) c := by
  rw [turn.eq_1 shape j, turn_mk hcols, add_assoc, add_comm j]
  rfl

theorem turn_zero (h : shape.Contains c) : shape.turn 0 c = c := by
  rw [turn, add_zero, Int.emod_eq_of_lt (Int.natCast_nonneg _) (Int.ofNat_lt.2 h.2),
    Int.toNat_natCast]

theorem turn_neg_turn (k : ℤ) (h : shape.Contains c) : shape.turn (-k) (shape.turn k c) = c := by
  rw [turn_turn (Nat.zero_lt_of_lt h.2), neg_add_cancel, turn_zero h]

theorem turn_turn_neg (k : ℤ) (h : shape.Contains c) : shape.turn k (shape.turn (-k) c) = c := by
  rw [turn_turn (Nat.zero_lt_of_lt h.2), add_neg_cancel, turn_zero h]

theorem turn_neg_eq_iff (hc : shape.Contains c) (hd : shape.Contains d) :
    shape.turn (-k) d = c ↔ d = shape.turn k c := by
  constructor
  · rintro rfl
    exact (turn_turn_neg k hd).symm
  · rintro rfl
    exact turn_neg_turn k hc

theorem turn_inj (hc : shape.Contains c) (hd : shape.Contains d) :
    shape.turn k c = shape.turn k d ↔ c = d := by
  refine ⟨fun h => ?_, congrArg _⟩
  rw [← turn_neg_turn k hc, h, turn_neg_turn k hd]

end Shape

theorem Terrain.height_turned {β : Type} {terrain : Terrain β} {c : Cell} (k : ℤ)
    (h : terrain.shape.Contains c) :
    (terrain.turned k).height (terrain.shape.turn k c) = terrain.height c :=
  congrArg terrain.height (Shape.turn_neg_turn k h)

namespace Shadow

section Trails

variable {α : Type} [FloorField α] [Whole α] [ExactWhole α] {motion : Motion α} {shape : Shape}
  {budget j : ℕ} {seed c : Cell}

/-- No ray to the west, where columns may get negative, comes half way between two columns. -/
def ClearOfTies (motion : Motion α) (budget : ℕ) : Prop :=
  0 < motion.x → ∀ j < budget, Untied (j * motion.x)

theorem contains_of_mem_trail (hcols : 0 < shape.cols)
    (h : c ∈ trail shape motion .periodic budget seed) : shape.Contains c := by
  obtain ⟨k, hk⟩ := List.mem_iff_getElem?.1 h
  exact Edges.contains_of_locate_periodic hcols (path_getElem?_eq_some.1 hk).2.2

omit [Whole α] [ExactWhole α] in
theorem ClearOfTies.roundAway_col (h : ClearOfTies motion budget) (hj : j < budget) (a b : ℕ) :
    roundAway ((b : α) - j * motion.x) = roundAway ((a : α) - j * motion.x) + (b - a : ℤ) := by
  have heq : (b : α) - j * motion.x = a - j * motion.x + ((b - a : ℤ) : α) := by
    push_cast
    ring
  rw [heq]
  apply roundAway_add_intCast
  rcases le_or_gt motion.x 0 with hx | hx
  · have hback : (j : α) * motion.x ≤ 0 := mul_nonpos_of_nonneg_of_nonpos j.cast_nonneg hx
    have ha : (0 : α) ≤ a := a.cast_nonneg
    have hb : (0 : α) ≤ b := b.cast_nonneg
    exact .inl ⟨by linarith, by rw [← heq]; linarith⟩
  · refine .inr ?_
    rw [sub_eq_neg_add]
    exact_mod_cast (h hx j hj).neg.add_intCast a

theorem trail_turn (hcols : 0 < shape.cols) (hclear : ClearOfTies motion budget) (k : ℤ)
    (seed : Cell) : trail shape motion .periodic budget (shape.turn k seed) =
      (trail shape motion .periodic budget seed).map (shape.turn k) := by
  refine path_eq_map fun j hj => ?_
  change Edges.periodic.locate shape (rayAt motion (shape.turn k seed) j) =
    (Edges.periodic.locate shape (rayAt motion seed j)).map (shape.turn k)
  have hrow : (shape.turn k seed).row = seed.row := rfl
  have hcol : roundAway (((shape.turn k seed).col : α) - j * motion.x) % shape.cols =
      (roundAway ((seed.col : α) - j * motion.x) + k) % shape.cols := by
    rw [hclear.roundAway_col hj seed.col, Shape.natCast_turn_col hcols]
    refine ((Int.mod_modEq (seed.col + k) shape.cols).sub_right seed.col).add_left _ |>.trans ?_
    rw [add_sub_cancel_left]
  rw [rayAt_exact, rayAt_exact, Edges.locate_periodic, Edges.locate_periodic, hrow]
  dsimp only
  rw [hcol]
  split_ifs with h
  · rw [Option.map_some, Shape.turn_mk hcols]
  · rfl

end Trails

section Marks

variable {α : Type} [FloorField α] [Whole α] [ExactWhole α] {β : Type} [DivisionRing β]
  [LinearOrder β] {terrain : Terrain β} {motion : Motion α} {fall : β} {highest : Option β}
  {budget : ℕ} {cell : Cell}

theorem marksOf_turned {cells : List Cell} (hin : ∀ c ∈ cells, terrain.shape.Contains c)
    (hcell : terrain.shape.Contains cell) (k : ℤ) (n : ℕ) :
    marksOf (terrain.turned k) fall (cells.map (terrain.shape.turn k)) (terrain.shape.turn k cell)
      n = marksOf terrain fall cells cell n := by
  have hheights : heightsOf (terrain.turned k) (cells.map (terrain.shape.turn k)) =
      heightsOf terrain cells := by
    funext j
    rw [heightsOf, heightsOf, List.getElem?_map]
    cases hc : cells[j]? with
    | none => rfl
    | some c => exact Terrain.height_turned k (hin c (List.mem_of_getElem? hc))
  refine List.filterMap_congr fun j _ => ?_
  rw [markOn, markOn, hheights, List.getElem?_map]
  cases hc : cells[j]? with
  | none => rfl
  | some c =>
    simp only [Option.map_some, Option.some_inj,
      Shape.turn_inj (hin c (List.mem_of_getElem? hc)) hcell]

theorem marksFrom_turned (hclear : ClearOfTies motion budget)
    (hcell : terrain.shape.Contains cell) (k : ℤ) (seed : Cell) :
    marksFrom (terrain.turned k) motion fall .periodic budget (terrain.shape.turn k cell)
      (terrain.shape.turn k seed) = marksFrom terrain motion fall .periodic budget cell seed := by
  have hcols : 0 < terrain.shape.cols := Nat.zero_lt_of_lt hcell.2
  have htrail : trail (terrain.turned k).shape motion .periodic budget
      (terrain.shape.turn k seed) = _ := trail_turn hcols hclear k seed
  rw [marksFrom, marksFrom, htrail, List.length_map]
  exact marksOf_turned (fun c hc => contains_of_mem_trail hcols hc) hcell k _

def sweptFrom (terrain : Terrain β) (motion : Motion α) (fall : β) (highest : Option β)
    (edges : Edges) (budget : ℕ) (seeds : List Cell) : Array (Option β) :=
  seeds.foldl
    (fun depths seed => (sweep terrain motion fall highest edges budget depths seed).1.depths)
    (Array.replicate terrain.shape.size none)

def sweptDepth (terrain : Terrain β) (motion : Motion α) (fall : β) (highest : Option β)
    (edges : Edges) (cell : Cell) : β :=
  match budget? motion terrain.shape edges with
  | none => 0
  | some budget =>
    shown (sweptDepths terrain motion fall highest edges budget) (terrain.shape.index cell)

/-- When the terrain is turned, the depth of a cell turns along. -/
def Seamless (terrain : Terrain β) (motion : Motion α) (fall : β) (highest : Option β) (k : ℤ)
    (cell : Cell) : Prop :=
  sweptDepth (terrain.turned k) motion fall highest .periodic (terrain.shape.turn k cell) =
    sweptDepth terrain motion fall highest .periodic cell

omit [DivisionRing β] in
theorem tops_turned (htop : Tops highest terrain) (k : ℤ) : Tops highest (terrain.turned k) :=
  fun _ _ hz => htop _ _ hz

variable [IsStrictOrderedRing β]

theorem shown_sweptFrom (hfall : 0 ≤ fall) (htop : Tops highest terrain)
    (hcell : terrain.shape.Contains cell) (motion : Motion α) (budget : ℕ) (seeds : List Cell) :
    shown (sweptFrom terrain motion fall highest .periodic budget seeds)
        (terrain.shape.index cell) =
      (seeds.flatMap (marksFrom terrain motion fall .periodic budget cell)).getLast?.getD 0 := by
  have hin (seed : Cell) (_ : seed ∈ seeds) (c : Cell)
      (hc : c ∈ trail terrain.shape motion .periodic budget seed) : terrain.shape.Contains c :=
    contains_of_mem_trail (Nat.zero_lt_of_lt hcell.2) hc
  have hblank : shown (Array.replicate terrain.shape.size (none : Option β))
      (terrain.shape.index cell) = 0 := by
    rw [shown, Array.getElem?_replicate, if_pos (Shape.index_lt hcell)]
    rfl
  rw [← hblank]
  exact (shown_foldl_trails hfall htop hcell hin Array.size_replicate).2

theorem sweptDepth_eq (htop : Tops highest terrain) (hfall : 0 ≤ fall)
    (hb : budget? motion terrain.shape .periodic = some budget)
    (hcell : terrain.shape.Contains cell) :
    sweptDepth terrain motion fall highest .periodic cell =
      ((seeds motion terrain.shape .periodic).flatMap
        (marksFrom terrain motion fall .periodic budget cell)).getLast?.getD 0 := by
  rw [sweptDepth, hb]
  exact shown_sweptFrom hfall htop hcell motion budget _

/-- Turning the terrain is the same as turning the seeds the other way, and the depths along. -/
theorem sweptDepth_turned (hb : budget? motion terrain.shape .periodic = some budget)
    (hclear : ClearOfTies motion budget) (hfall : 0 ≤ fall) (htop : Tops highest terrain)
    (hcell : terrain.shape.Contains cell) (k : ℤ) :
    sweptDepth (terrain.turned k) motion fall highest .periodic (terrain.shape.turn k cell) =
      shown (sweptFrom terrain motion fall highest .periodic budget
        ((seeds motion terrain.shape .periodic).map (terrain.shape.turn (-k))))
        (terrain.shape.index cell) := by
  refine (sweptDepth_eq (tops_turned htop k) hfall hb (Shape.contains_turn k hcell)).trans ?_
  rw [shown_sweptFrom hfall htop hcell, List.flatMap_map]
  congr 2
  refine List.flatMap_congr fun seed hseed => ?_
  have hin : terrain.shape.Contains seed :=
    contains_of_mem_seeds (Nat.zero_lt_of_lt hcell.1) (Nat.zero_lt_of_lt hcell.2) hseed
  rw [← marksFrom_turned hclear hcell k, Shape.turn_turn_neg k hin]
  rfl

end Marks

section EdgeRows

theorem getLast?_flatMap_congr {ι β : Type} {l : List ι} {f g : ι → List β}
    (h : ∀ a ∈ l, (f a).getLast? = (g a).getLast?) :
    (l.flatMap f).getLast? = (l.flatMap g).getLast? := by
  rw [List.getLast?_flatMap, List.getLast?_flatMap]
  induction l with
  | nil => rfl
  | cons a l ih =>
    obtain ⟨ha, hl⟩ := List.forall_mem_cons.1 h
    rw [List.reverse_cons, List.findSome?_append, List.findSome?_append, ih hl,
      List.findSome?_singleton, List.findSome?_singleton, ha]

theorem getLast?_flatMap_of_agree {ι β : Type} {l l' : List ι} {f : ι → List β}
    (hmem : ∀ a, a ∈ l' ↔ a ∈ l)
    (h : ∀ a ∈ l, ∀ b ∈ l, ∀ m ∈ (f a).getLast?, ∀ n ∈ (f b).getLast?, m = n) :
    (l'.flatMap f).getLast? = (l.flatMap f).getLast? := by
  rw [List.getLast?_flatMap, List.getLast?_flatMap]
  cases hl : l.reverse.findSome? fun a => (f a).getLast? with
  | none =>
    rw [List.findSome?_eq_none_iff] at hl ⊢
    exact fun a ha => hl a (List.mem_reverse.2 ((hmem a).1 (List.mem_reverse.1 ha)))
  | some m =>
    obtain ⟨a, ha, hm⟩ := List.exists_of_findSome?_eq_some hl
    have ha := List.mem_reverse.1 ha
    cases hl' : l'.reverse.findSome? fun a => (f a).getLast? with
    | none =>
      have hnone := List.findSome?_eq_none_iff.1 hl' a (List.mem_reverse.2 ((hmem a).2 ha))
      rw [hm] at hnone
      cases hnone
    | some n =>
      obtain ⟨b, hb, hn⟩ := List.exists_of_findSome?_eq_some hl'
      exact congrArg some (h b ((hmem b).1 (List.mem_reverse.1 hb)) a ha n hn m hm)

variable {α : Type} [FloorField α] [Whole α] [ExactWhole α] {β : Type} [DivisionRing β]
  [LinearOrder β] {terrain : Terrain β} {shape : Shape} {motion : Motion α} {fall : β}
  {highest : Option β} {budget row i j : ℕ} {cell seed other : Cell}

def rowCells (shape : Shape) (row : ℕ) : List Cell :=
  (List.range shape.cols).map (Cell.mk row)

theorem mem_rowCells {c : Cell} : c ∈ rowCells shape row ↔ c.row = row ∧ c.col < shape.cols := by
  constructor
  · intro h
    obtain ⟨col, hcol, rfl⟩ := List.mem_map.1 h
    exact ⟨rfl, List.mem_range.1 hcol⟩
  · rintro ⟨rfl, hcol⟩
    exact List.mem_map.2 ⟨c.col, List.mem_range.2 hcol, rfl⟩

theorem mem_rowCells_turned (hrow : row < shape.rows) (k : ℤ) (c : Cell) :
    c ∈ (rowCells shape row).map (shape.turn k) ↔ c ∈ rowCells shape row := by
  constructor
  · intro h
    obtain ⟨d, hd, rfl⟩ := List.mem_map.1 h
    obtain ⟨rfl, hcol⟩ := mem_rowCells.1 hd
    exact mem_rowCells.2 ⟨rfl, (Shape.contains_turn k ⟨hrow, hcol⟩).2⟩
  · intro h
    obtain ⟨rfl, hcol⟩ := mem_rowCells.1 h
    have hback := Shape.contains_turn (-k) (show shape.Contains c from ⟨hrow, hcol⟩)
    exact List.mem_map.2 ⟨shape.turn (-k) c, mem_rowCells.2 ⟨rfl, hback.2⟩,
      Shape.turn_turn_neg k ⟨hrow, hcol⟩⟩

omit [Whole α] [ExactWhole α] in
theorem seeds_eq_rows (h : ¬ AlongRows motion .periodic) :
    seeds motion shape .periodic = (outermost shape.rows).flatMap (rowCells shape) := by
  rw [AlongRows] at h
  unfold seeds
  dsimp only
  rw [if_neg h, List.append_nil]
  rfl

/-- Of each edge row all rays that mark a cell agree on its last mark. -/
def RowsAgree (terrain : Terrain β) (motion : Motion α) (fall : β) (budget : ℕ) (cell : Cell) :
    Prop :=
  ∀ row ∈ outermost terrain.shape.rows, ∀ seed ∈ rowCells terrain.shape row,
    ∀ other ∈ rowCells terrain.shape row,
      ∀ m ∈ (marksFrom terrain motion fall .periodic budget cell seed).getLast?,
        ∀ n ∈ (marksFrom terrain motion fall .periodic budget cell other).getLast?, m = n

/-- Where the rays of a row agree, their order does not matter. -/
theorem RowsAgree.seamless [IsStrictOrderedRing β]
    (h : RowsAgree terrain motion fall budget cell)
    (ha : ¬ AlongRows motion .periodic) (hb : budget? motion terrain.shape .periodic = some budget)
    (hclear : ClearOfTies motion budget) (hfall : 0 ≤ fall) (htop : Tops highest terrain)
    (hcell : terrain.shape.Contains cell) (k : ℤ) :
    Seamless terrain motion fall highest k cell := by
  rw [Seamless, sweptDepth_turned hb hclear hfall htop hcell k, shown_sweptFrom hfall htop hcell,
    sweptDepth_eq htop hfall hb hcell, seeds_eq_rows ha, List.map_flatMap, List.flatMap_assoc,
    List.flatMap_assoc]
  congr 1
  refine getLast?_flatMap_congr fun row hrow => getLast?_flatMap_of_agree ?_ (h row hrow)
  exact mem_rowCells_turned (lt_of_mem_outermost (Nat.zero_lt_of_lt hcell.1) hrow) (-k)

omit [ExactWhole α] in
theorem exists_visit {m : β}
    (h : m ∈ (marksFrom terrain motion fall .periodic budget cell seed).getLast?) :
    ∃ j < budget, Edges.periodic.locate terrain.shape (rayAt motion seed j) = some cell := by
  obtain ⟨j, -, hj⟩ := List.mem_filterMap.1 (List.mem_of_getLast? h)
  rw [markOn] at hj
  split_ifs at hj with hc
  obtain ⟨hlt, -, hloc⟩ := path_getElem?_eq_some.1 hc
  exact ⟨j, hlt, hloc⟩

theorem roundAway_of_locate
    (h : Edges.periodic.locate shape (rayAt motion seed j) = some cell)
    (hcols : 0 < shape.cols) :
    roundAway ((seed.row : α) - j * motion.y) = cell.row ∧
      roundAway ((seed.col : α) - j * motion.x) ≡ cell.col [ZMOD shape.cols] := by
  rw [rayAt_exact, Edges.locate_periodic] at h
  split_ifs at h with hrow
  obtain rfl := Option.some.inj h
  refine ⟨(Int.toNat_of_nonneg hrow.1).symm, ?_⟩
  rw [Int.toNat_of_nonneg (Int.emod_nonneg _ (Int.natCast_pos.2 hcols).ne')]
  exact (Int.mod_modEq _ _).symm

theorem eq_of_visits (hstraight : motion.x = 0 ∨ 1 ≤ |motion.y|)
    (hclear : ClearOfTies motion budget) (hrow : other.row = seed.row)
    (hseed : seed.col < shape.cols) (hother : other.col < shape.cols) (hi : i < budget)
    (hvisit : Edges.periodic.locate shape (rayAt motion seed i) = some cell)
    (hvisit' : Edges.periodic.locate shape (rayAt motion other j) = some cell) :
    other.col = seed.col := by
  have hcols : 0 < shape.cols := Nat.zero_lt_of_lt hseed
  obtain ⟨hr, hc⟩ := roundAway_of_locate hvisit hcols
  obtain ⟨hr', hc'⟩ := roundAway_of_locate hvisit' hcols
  have hmod : (other.col : ℤ) ≡ seed.col [ZMOD shape.cols] := by
    have heq := hc'.trans hc.symm
    rcases hstraight with hx | hy
    · rw [hx, mul_zero, mul_zero, sub_zero, sub_zero, ← Int.cast_natCast other.col,
        ← Int.cast_natCast seed.col, roundAway_intCast, roundAway_intCast] at heq
      exact heq
    · have hij : i = j := by
        by_contra hne
        rw [hrow, ← hr] at hr'
        refine roundAway_ne ?_ hr'
        have hdist : (1 : α) ≤ |((i - j : ℤ) : α)| := by
          rw [← Int.cast_abs]
          exact_mod_cast Int.one_le_abs (sub_ne_zero.2 (Nat.cast_injective.ne hne))
        have hgap : (seed.row : α) - j * motion.y - (seed.row - i * motion.y) =
            ((i - j : ℤ) : α) * motion.y := by
          push_cast
          ring
        rw [hgap, abs_mul]
        exact one_le_mul_of_one_le_of_one_le hdist hy
      subst hij
      rw [hclear.roundAway_col hi seed.col other.col] at heq
      have hdiff := heq.sub_right (roundAway ((seed.col : α) - i * motion.x) - seed.col)
      convert hdiff using 1 <;> ring
  exact (Int.natCast_modEq_iff.1 hmod).eq_of_lt_of_lt hother hseed

theorem rowsAgree_of_straight (hstraight : motion.x = 0 ∨ 1 ≤ |motion.y|)
    (hclear : ClearOfTies motion budget) : RowsAgree terrain motion fall budget cell := by
  intro row _ seed hseed other hother m hm n hn
  obtain ⟨hrow, hcol⟩ := mem_rowCells.1 hseed
  obtain ⟨hrow', hcol'⟩ := mem_rowCells.1 hother
  obtain ⟨i, hi, hvisit⟩ := exists_visit hm
  obtain ⟨j, -, hvisit'⟩ := exists_visit hn
  have hrows : other.row = seed.row := hrow'.trans hrow.symm
  have hcols := eq_of_visits hstraight hclear hrows hcol hcol' hi hvisit hvisit'
  obtain rfl : other = seed := congrArg₂ Cell.mk hrows hcols
  exact Option.some.inj (hm.symm.trans hn)

end EdgeRows

end Shadow

end Relief
