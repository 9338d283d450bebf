import Relief.Proofs.Shadow.Budget
import Relief.Proofs.Walk
import Relief.Shadow.March

namespace Relief

/-- Two column numbers are those of one column: they are equal or, where columns wrap round, whole
turns apart. -/
def Edges.SameColumn (edges : Edges) (shape : Shape) (a b : ℤ) : Prop :=
  match edges with
  | .bounded => a = b
  | .periodic => a ≡ b [ZMOD shape.cols]

def Edges.Neighbours (edges : Edges) (shape : Shape) (c d : Cell) : Prop :=
  |(d.row : ℤ) - c.row| ≤ 1 ∧ ∃ n : ℤ, |n| ≤ 1 ∧ edges.SameColumn shape d.col (c.col + n)

/-- Between two places of a list there is a cell of some kind, the places included. -/
def MetBetween (cells : List Cell) (i j : ℕ) (P : Cell → Prop) : Prop :=
  ∃ k c, i ≤ k ∧ k ≤ j ∧ cells[k]? = some c ∧ P c

/-- Successive cells are neighbours, and from each cell to each later one all rows and all columns
on the way are met. -/
structure Edges.Unbroken (edges : Edges) (shape : Shape) (cells : List Cell) : Prop where
  neighbours : cells.IsChain (edges.Neighbours shape)
  rows : ∀ {i j : ℕ} {c d : Cell}, i ≤ j → cells[i]? = some c → cells[j]? = some d →
    ∀ row ∈ Set.uIcc c.row d.row, MetBetween cells i j fun e => e.row = row
  columns : ∀ {i j : ℕ} {c d : Cell}, i ≤ j → cells[i]? = some c → cells[j]? = some d →
    ∃ n : ℤ, edges.SameColumn shape d.col (c.col + n) ∧ ∀ m ∈ Set.uIcc 0 n,
      MetBetween cells i j fun e => edges.SameColumn shape e.col (c.col + m)

section Chains

variable {cells : List Cell} {i j k : ℕ} {c d : Cell} {edges : Edges} {shape : Shape}

theorem MetBetween.mono {P : Cell → Prop} (h : MetBetween cells i j P) (hle : j ≤ k) :
    MetBetween cells i k P := by
  obtain ⟨n, c, hi, hj, hc⟩ := h
  exact ⟨n, c, hi, hj.trans hle, hc⟩

/-- Numbers of successive cells that are at most one apart, round a circle or, if `period` is 0, on
a line, pass over none. -/
theorem exists_all_met {f : Cell → ℤ} {period : ℤ}
    (h : cells.IsChain fun c d => ∃ n : ℤ, |n| ≤ 1 ∧ f d ≡ f c + n [ZMOD period])
    (hij : i ≤ j) (hc : cells[i]? = some c) (hd : cells[j]? = some d) :
    ∃ n : ℤ, f d ≡ f c + n [ZMOD period] ∧
      ∀ m ∈ Set.uIcc 0 n, MetBetween cells i j fun e => f e ≡ f c + m [ZMOD period] := by
  induction j, hij using Nat.le_induction generalizing d with
  | base =>
    obtain rfl : c = d := Option.some.inj (hc.symm.trans hd)
    refine ⟨0, by rw [add_zero], fun m hm => ⟨i, c, le_rfl, le_rfl, hc, ?_⟩⟩
    rw [Set.uIcc_self, Set.mem_singleton_iff] at hm
    rw [hm, add_zero]
  | succ j hij ih =>
    obtain ⟨hlt, rfl⟩ := List.getElem?_eq_some_iff.1 hd
    have hj : cells[j]? = some cells[j] := List.getElem?_eq_getElem (Nat.lt_of_succ_lt hlt)
    obtain ⟨n, hn, hmet⟩ := ih hj
    obtain ⟨n', hn', hstep⟩ := List.isChain_iff_getElem.1 h j hlt
    have hnext : f cells[j + 1] ≡ f c + (n + n') [ZMOD period] := by
      rw [← add_assoc]
      exact hstep.trans (hn.add_right n')
    refine ⟨n + n', hnext, fun m hm => ?_⟩
    -- the last step adds no number but the one that it leads to
    by_cases hlast : m = n + n'
    · exact ⟨j + 1, _, hij.trans j.le_succ, le_rfl, hd, hlast ▸ hnext⟩
    · refine (hmet m ?_).mono j.le_succ
      rw [Set.mem_uIcc] at hm ⊢
      rw [abs_le] at hn'
      omega

def Edges.period (edges : Edges) (shape : Shape) : ℤ :=
  match edges with
  | .bounded => 0
  | .periodic => shape.cols

theorem Edges.sameColumn_iff {a b : ℤ} :
    edges.SameColumn shape a b ↔ a ≡ b [ZMOD edges.period shape] := by
  cases edges with
  | bounded => exact Int.modEq_zero_iff.symm
  | periodic => exact Iff.rfl

theorem Edges.unbroken_of_isChain (h : cells.IsChain (edges.Neighbours shape)) :
    edges.Unbroken shape cells where
  neighbours := h
  rows {i j c d} hij hc hd row hrow := by
    have hchain : cells.IsChain fun c d : Cell =>
        ∃ n : ℤ, |n| ≤ 1 ∧ (d.row : ℤ) ≡ c.row + n [ZMOD 0] :=
      h.imp fun c d hcd => ⟨_, hcd.1, by rw [add_sub_cancel]⟩
    obtain ⟨n, hn, hmet⟩ := exists_all_met hchain hij hc hd
    rw [Int.modEq_zero_iff] at hn
    obtain ⟨k, e, hik, hkj, he, hm⟩ := hmet (row - c.row) (by rw [Set.mem_uIcc] at hrow ⊢; omega)
    rw [Int.modEq_zero_iff] at hm
    exact ⟨k, e, hik, hkj, he, by omega⟩
  columns {i j c d} hij hc hd := by
    have hchain : cells.IsChain fun c d : Cell =>
        ∃ n : ℤ, |n| ≤ 1 ∧ (d.col : ℤ) ≡ c.col + n [ZMOD edges.period shape] :=
      h.imp fun c d ⟨_, n, hn, hcol⟩ => ⟨n, hn, sameColumn_iff.1 hcol⟩
    simp only [sameColumn_iff]
    exact exists_all_met hchain hij hc hd

end Chains

section Places

variable {α : Type} [FloorField α] {edges : Edges} {shape : Shape} {c d start : Cell} {s t : α}
  {k : ℕ}

/-- From a whole number on, steps of at most one lead past no whole number. -/
theorem abs_roundAway_step_le (start : ℤ) (hs : |s| ≤ 1) (k : ℕ) :
    |roundAway (start + (k + 1 : ℕ) * s) - roundAway (start + k * s)| ≤ 1 := by
  have hnext : start + (k + 1 : ℕ) * s = start + k * s + s := by
    push_cast
    ring
  rcases hs.lt_or_eq with hlt | heq
  · obtain ⟨hlo, hhi⟩ := abs_lt.1 hlt
    have hup : roundAway (start + k * s + s) ≤ roundAway (start + k * s) + 1 :=
      roundAway_le_add_one (by linarith)
    have hdown : roundAway (start + k * s) ≤ roundAway (start + k * s + s) + 1 :=
      roundAway_le_add_one (by linarith)
    rw [hnext, abs_le]
    constructor <;> omega
  · -- steps of one reach whole numbers only, so none of them starts half way between two
    have hwhole : ∃ n : ℤ, |n| ≤ 1 ∧ s = n := by
      rcases (abs_eq zero_le_one).1 heq with rfl | rfl
      · exact ⟨1, by decide, by push_cast; rfl⟩
      · exact ⟨-1, by decide, by push_cast; rfl⟩
    obtain ⟨n, hn, rfl⟩ := hwhole
    have hplace (j : ℕ) : roundAway ((start : α) + j * n) = start + j * n := by
      exact_mod_cast roundAway_intCast (start + j * n)
    rw [hplace, hplace]
    push_cast
    convert hn using 2
    ring

/-- From a half on, a step of one may lead past a whole number. -/
example : roundAway (-1 / 2 : ℚ) = -1 ∧ roundAway (-1 / 2 + 1 : ℚ) = 1 := by
  decide +kernel

variable [Whole α] [ExactWhole α]

theorem Edges.neighbours_of_locate {p q : Position α} (hc : edges.locate shape p = some c)
    (hd : edges.locate shape q = some d) (hx : |roundAway q.x - roundAway p.x| ≤ 1)
    (hy : |roundAway q.y - roundAway p.y| ≤ 1) : edges.Neighbours shape c d := by
  cases edges with
  | bounded =>
    rw [locate_bounded] at hc hd
    split_ifs at hc hd with hp hq
    obtain rfl := Option.some.inj hc
    obtain rfl := Option.some.inj hd
    refine ⟨?_, roundAway q.x - roundAway p.x, hx, ?_⟩
    · rwa [Int.toNat_of_nonneg hp.1.1, Int.toNat_of_nonneg hq.1.1]
    · rw [SameColumn, Int.toNat_of_nonneg hp.1.2, Int.toNat_of_nonneg hq.1.2, add_sub_cancel]
  | periodic =>
    rw [locate_periodic] at hc hd
    split_ifs at hc hd with hp hq
    obtain rfl := Option.some.inj hc
    obtain rfl := Option.some.inj hd
    refine ⟨by rwa [Int.toNat_of_nonneg hp.1, Int.toNat_of_nonneg hq.1], ?_⟩
    rcases Nat.eq_zero_or_pos shape.cols with hcols | hcols
    · -- without columns there is nothing to wrap round
      rw [hcols, Nat.cast_zero, Int.emod_zero, Int.emod_zero]
      refine ⟨(roundAway q.x).toNat - (roundAway p.x).toNat, ?_, ?_⟩
      · rw [abs_le] at hx ⊢
        omega
      · rw [SameColumn, add_sub_cancel]
    · have hne : (shape.cols : ℤ) ≠ 0 := (Int.natCast_pos.2 hcols).ne'
      refine ⟨roundAway q.x - roundAway p.x, hx, ?_⟩
      rw [SameColumn, Int.toNat_of_nonneg (Int.emod_nonneg _ hne),
        Int.toNat_of_nonneg (Int.emod_nonneg _ hne)]
      calc roundAway q.x % shape.cols
          ≡ roundAway q.x [ZMOD shape.cols] := Int.mod_modEq _ _
        _ = roundAway p.x + (roundAway q.x - roundAway p.x) := (add_sub_cancel _ _).symm
        _ ≡ roundAway p.x % shape.cols + (roundAway q.x - roundAway p.x) [ZMOD shape.cols] :=
          (Int.mod_modEq _ _).symm.add_right _

theorem Edges.neighbours_of_step (hs : |s| ≤ 1) (ht : |t| ≤ 1)
    (hc : edges.locate shape (⟨start.col + k * s, start.row + k * t⟩ : Position α) = some c)
    (hd : edges.locate shape
      (⟨start.col + (k + 1 : ℕ) * s, start.row + (k + 1 : ℕ) * t⟩ : Position α) = some d) :
    edges.Neighbours shape c d :=
  neighbours_of_locate hc hd (by exact_mod_cast abs_roundAway_step_le start.col hs k)
    (by exact_mod_cast abs_roundAway_step_le start.row ht k)

end Places

namespace Shadow

section Visited

variable {α β : Type} [LT α] [LE α] [DecidableLT α] [DecidableLE α] [NatCast α] [OfScientific α]
  [Whole α] [Sub β] [LT β] [LE β] [DecidableLT β] [DecidableLE β] [OfScientific β]

def marchAt [Add α] (motion : Motion α) (start : Cell) (k : ℕ) : Position α :=
  (fun p : Position α => ⟨p.x + motion.x, p.y + motion.y⟩)^[k] start.position

def marchStep [Add β] (terrain : Terrain β) (rise : β) (mayMeet : β → Bool) (c : Cell)
    (ray : Ray β) : Option (Ray β) :=
  if mayMeet ray.height then
    some { ray.pass (terrain.height c) with height := ray.height + rise }
  else none

def marchCells [Add α] [Add β] (terrain : Terrain β) (motion : Motion α) (rise : β)
    (mayMeet : β → Bool) (steps : ℕ) (start : Cell) (z : β) : List Cell :=
  touched terrain.shape.nearest (fun p => ⟨p.x + motion.x, p.y + motion.y⟩)
    (fun _ => marchStep terrain rise mayMeet) steps (start.position : Position α) ⟨z, 0.0⟩

def sweepCells [Sub α] (terrain : Terrain β) (motion : Motion α) (fall : β) (highest : Option β)
    (edges : Edges) (budget : ℕ) (depths : Array (Option β)) (seed : Cell) : List Cell :=
  touched (edges.locate terrain.shape) (fun p => ⟨p.x - motion.x, p.y - motion.y⟩)
    (fun _ => sweepStep terrain fall highest) budget (seed.position : Position α)
    ⟨none, 0, depths⟩

end Visited

section Exact

variable {α β : Type} [FloorField α] [Whole α] [ExactWhole α] {motion : Motion α} {shape : Shape}
  {edges : Edges} {start c d : Cell} {k : ℕ}

omit [Whole α] [ExactWhole α] in
theorem marchAt_exact (motion : Motion α) (start : Cell) (k : ℕ) :
    marchAt motion start k = ⟨start.col + k * motion.x, start.row + k * motion.y⟩ := by
  induction k with
  | zero => simp [marchAt, Cell.position]
  | succ k ih =>
    rw [marchAt, Function.iterate_succ_apply', ← marchAt, ih, Position.mk.injEq]
    push_cast
    constructor <;> ring

theorem neighbours_of_marchAt (hx : |motion.x| ≤ 1) (hy : |motion.y| ≤ 1)
    (hc : shape.nearest (marchAt motion start k) = some c)
    (hd : shape.nearest (marchAt motion start (k + 1)) = some d) :
    Edges.bounded.Neighbours shape c d := by
  rw [marchAt_exact] at hc hd
  exact Edges.neighbours_of_step hx hy hc hd

/-- From one place to the next a sweep stays among neighbours. -/
theorem neighbours_of_rayAt (hx : |motion.x| ≤ 1) (hy : |motion.y| ≤ 1)
    (hc : edges.locate shape (rayAt motion start k) = some c)
    (hd : edges.locate shape (rayAt motion start (k + 1)) = some d) :
    edges.Neighbours shape c d := by
  rw [rayAt_exact, sub_eq_add_neg, sub_eq_add_neg, ← mul_neg, ← mul_neg] at hc hd
  exact Edges.neighbours_of_step ((abs_neg _).trans_le hx) ((abs_neg _).trans_le hy) hc hd

/-- Rays over exact numbers that take steps of at most one on each axis leave no cell out: neither
the places of a march and of a sweep from a cell, where they lie in the grid, nor the cells over
which the march sums terrain up and the sweep lets its horizon down. -/
theorem rays_unbroken [Add β] [Sub β] [LT β] [LE β] [DecidableLT β] [DecidableLE β]
    [OfScientific β] (terrain : Terrain β) (motion : Motion α) (start : Cell)
    (hx : |motion.x| ≤ 1) (hy : |motion.y| ≤ 1) :
    ((∀ k c d, terrain.shape.nearest (marchAt motion start k) = some c →
        terrain.shape.nearest (marchAt motion start (k + 1)) = some d →
          Edges.bounded.Neighbours terrain.shape c d) ∧
      ∀ rise mayMeet steps z,
        let cells := marchCells terrain motion rise mayMeet steps start z
        cells.foldlM (fun ray c => marchStep terrain rise mayMeet c ray) ⟨z, 0.0⟩ =
            some (march terrain motion rise mayMeet steps start z).1 ∧
          Edges.bounded.Unbroken terrain.shape cells) ∧
    ∀ edges : Edges,
      (∀ k c d, edges.locate terrain.shape (rayAt motion start k) = some c →
        edges.locate terrain.shape (rayAt motion start (k + 1)) = some d →
          edges.Neighbours terrain.shape c d) ∧
      ∀ fall highest budget depths,
        let cells := sweepCells terrain motion fall highest edges budget depths start
        cells.foldlM (fun s c => sweepStep terrain fall highest c s) ⟨none, 0, depths⟩ =
            some (sweep terrain motion fall highest edges budget depths start).1 ∧
          edges.Unbroken terrain.shape cells := by
  refine ⟨⟨fun k c d => neighbours_of_marchAt hx hy, fun rise mayMeet steps z => ?_⟩,
    fun edges => ⟨fun k c d => neighbours_of_rayAt hx hy, fun fall highest budget depths => ?_⟩⟩
  · refine ⟨foldlM_touched _ steps _ _, ?_⟩
    exact Edges.unbroken_of_isChain <|
      touched_isChain (fun _ _ _ => neighbours_of_marchAt hx hy) steps _
  · refine ⟨foldlM_touched _ budget _ _, ?_⟩
    exact Edges.unbroken_of_isChain <|
      touched_isChain (fun _ _ _ => neighbours_of_rayAt hx hy) budget _

/-- Of two rays from one cell the march goes over the southern edge and the sweep over the western
one. -/
theorem rays_unbroken_over_edges :
    let terrain : Terrain ℚ := ⟨⟨3, 5⟩, fun _ => some 0⟩
    let motion : Motion ℚ := ⟨3 / 4, 1 / 2⟩
    let marched := marchCells terrain motion 1 (fun _ => true) 9 ⟨1, 1⟩ 0
    let swept := sweepCells terrain motion 1 (some 0) .periodic 9 #[] ⟨1, 1⟩
    (|motion.x| ≤ 1 ∧ |motion.y| ≤ 1) ∧
      (marched = [⟨1, 1⟩, ⟨2, 2⟩, ⟨2, 3⟩] ∧ Edges.bounded.Unbroken terrain.shape marched) ∧
      swept = [⟨1, 1⟩, ⟨1, 0⟩, ⟨0, 4⟩] ∧ Edges.periodic.Unbroken terrain.shape swept := by
  intro terrain motion marched swept
  have hmotion : |motion.x| ≤ 1 ∧ |motion.y| ≤ 1 := by decide +kernel
  obtain ⟨⟨-, hmarch⟩, hsweep⟩ := rays_unbroken terrain motion ⟨1, 1⟩ hmotion.1 hmotion.2
  exact ⟨hmotion, ⟨by decide +kernel, (hmarch 1 (fun _ => true) 9 0).2⟩, by decide +kernel,
    ((hsweep .periodic).2 1 (some 0) 9 #[]).2⟩

end Exact

end Shadow

end Relief
