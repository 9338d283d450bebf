import Mathlib
import Relief.Shadow.Sweep
import Relief.Proofs.Grid
import Relief.Proofs.Location
import Relief.Proofs.Walk

namespace Relief

namespace Shadow

section Depths

variable {β : Type} [Zero β]

def shown (depths : Array (Option β)) (i : ℕ) : β :=
  (depths[i]?.join).getD 0

def skyline {β : Type} : Option β → WithBot β
  | none => ⊥
  | some h => h

theorem skyline_map {β : Type} (o : Option β) (f : β → β) :
    skyline (o.map f) = (skyline o).map f := by
  cases o with
  | none => rfl
  | some h => rfl

theorem shown_set {depths : Array (Option β)} {i : ℕ} (h : i < depths.size) (v : β) (j : ℕ) :
    shown (depths.setIfInBounds i (some v)) j = if i = j then v else shown depths j := by
  rw [shown, Array.getElem?_setIfInBounds]
  split_ifs with hij
  · rfl
  · rfl

theorem exists_of_lt_skyline {β : Type} [LinearOrder β] {o : Option β} {z : β}
    (h : (z : WithBot β) < skyline o) :
    ∃ t, o = some t ∧ z < t := by
  cases o with
  | none => exact absurd h not_lt_bot
  | some t => exact ⟨t, rfl, WithBot.coe_lt_coe.1 h⟩

end Depths

section Reference

variable {β : Type} [DivisionRing β] [LinearOrder β]

/-- The horizon over visit `k` of a ray that meets the heights `zs`: the highest of the earlier
ones, each fallen for every step since. -/
def horizonAt (fall : β) (zs : ℕ → Option β) (k : ℕ) : WithBot β :=
  (Finset.range k).sup fun j => (zs j).elim ⊥ fun z => ((z - (k - j : ℕ) * fall : β) : WithBot β)

def LiesBelow (fall : β) (zs : ℕ → Option β) (k : ℕ) : Prop :=
  ∃ z, zs k = some z ∧ (z : WithBot β) < horizonAt fall zs k

/-- What visit `k` marks: 0 on a void, and on terrain below the horizon the depth, which counts only
if the visit before found terrain below the horizon too. -/
noncomputable def markAt (fall : β) (zs : ℕ → Option β) (k : ℕ) : Option β :=
  open Classical in
  match zs k with
  | none => some 0
  | some z =>
    if LiesBelow fall zs k then
      some (if 0 < k ∧ LiesBelow fall zs (k - 1) then (horizonAt fall zs k).unbotD 0 - z else 0)
    else none

variable {fall : β} {zs : ℕ → Option β} {k : ℕ}

variable [IsStrictOrderedRing β]

theorem horizonAt_succ : horizonAt fall zs (k + 1) =
    (horizonAt fall zs k ⊔ (zs k).elim ⊥ fun z => (z : WithBot β)).map (· - fall) := by
  have hmono : Monotone (WithBot.map (· - fall) : WithBot β → WithBot β) :=
    WithBot.monotone_map_iff.2 fun a b h => sub_le_sub_right h fall
  have hterm (o : Option β) (j : ℕ) : WithBot.map (· - fall)
      (o.elim ⊥ fun z => ((z - (j : β) * fall : β) : WithBot β)) =
      o.elim ⊥ fun z => ((z - ((j + 1 : ℕ) : β) * fall : β) : WithBot β) := by
    cases o with
    | none => rfl
    | some z =>
      apply congrArg WithBot.some
      rw [Nat.cast_add_one, add_mul, one_mul]
      exact sub_sub _ _ _
  -- the visit just made has fallen for one step, each earlier one for one step more
  rw [hmono.map_sup, horizonAt, Finset.range_add_one, Finset.sup_insert, sup_comm]
  congr 1
  · rw [horizonAt, Finset.apply_sup_eq_sup_comp_of_linearOrder _ hmono rfl]
    refine Finset.sup_congr rfl fun j hj => ?_
    have hlt := Finset.mem_range.1 hj
    rw [Function.comp_apply, hterm, show k - j + 1 = k + 1 - j by omega]
  · have h := hterm (zs k) 0
    rw [Nat.add_sub_cancel_left]
    rw [← h]
    cases zs k with
    | none => rfl
    | some z => simp

end Reference

section Run

variable {β : Type} [DivisionRing β] [LinearOrder β] {terrain : Terrain β} {fall : β}
  {highest : Option β} {cells : List Cell} {c cell : Cell} {k : ℕ}

def heightsOf (terrain : Terrain β) (cells : List Cell) (k : ℕ) : Option β :=
  cells[k]?.bind terrain.height

omit [DivisionRing β] [LinearOrder β] in
theorem heightsOf_eq (hc : cells[k]? = some c) : heightsOf terrain cells k = terrain.height c := by
  rw [heightsOf, hc]
  rfl

noncomputable def markOn (terrain : Terrain β) (fall : β) (cells : List Cell) (cell : Cell)
    (k : ℕ) : Option β :=
  if cells[k]? = some cell then markAt fall (heightsOf terrain cells) k else none

noncomputable def marksOf (terrain : Terrain β) (fall : β) (cells : List Cell) (cell : Cell)
    (k : ℕ) : List β :=
  (List.range k).filterMap (markOn terrain fall cells cell)

def sweepOn (terrain : Terrain β) (fall : β) (s : Sweep β) (c : Cell) : Sweep β :=
  let t := sweepCell s (terrain.shape.index c) (terrain.height c)
  { t with horizon := t.horizon.map (· - fall) }

/-- A sweep after `k` visits agrees with the account over all pairs of visits. -/
structure Agrees (terrain : Terrain β) (fall : β) (cells : List Cell) (start : Array (Option β))
    (k : ℕ) (s : Sweep β) : Prop where
  horizon : skyline s.horizon = horizonAt fall (heightsOf terrain cells) k
  below : 0 < s.below ↔ 0 < k ∧ LiesBelow fall (heightsOf terrain cells) (k - 1)
  size : s.depths.size = terrain.shape.size
  shown : ∀ cell, terrain.shape.Contains cell → shown s.depths (terrain.shape.index cell) =
    (marksOf terrain fall cells cell k).getLast?.getD (shown start (terrain.shape.index cell))

theorem getLast?_marksOf_succ (d : β) :
    (marksOf terrain fall cells cell (k + 1)).getLast?.getD d =
      (markOn terrain fall cells cell k).getD
        ((marksOf terrain fall cells cell k).getLast?.getD d) := by
  rw [marksOf, List.range_succ, List.filterMap_append, ← marksOf]
  cases h : markOn terrain fall cells cell k with
  | none => simp [h]
  | some m => simp [h]

variable {start : Array (Option β)} {s : Sweep β}

theorem sweepCell_below {i : ℕ} {t z : β} (hs : s.horizon = some t) (hlt : z < t) :
    sweepCell s i (some z) =
      { s with
        below := s.below + 1
        depths := s.depths.setIfInBounds i (some (if 0 < s.below then t - z else 0.0)) } := by
  rw [sweepCell, hs]
  exact if_neg (not_le.2 hlt)

theorem sweepCell_of_not_lt {i : ℕ} {z : β} (h : ¬ (z : WithBot β) < skyline s.horizon) :
    sweepCell s i (some z) = sweepCell.lit s i z := by
  rw [sweepCell]
  cases hs : s.horizon with
  | none => rfl
  | some t =>
    rw [hs] at h
    exact if_pos (WithBot.coe_le_coe.1 (not_lt.1 h))

omit [LinearOrder β] in
theorem size_lit (s : Sweep β) (i : ℕ) (z : β) :
    (sweepCell.lit s i z).depths.size = s.depths.size := by
  rw [sweepCell.lit]
  dsimp only
  split
  · exact Array.size_setIfInBounds
  · rfl

theorem Agrees.shown_set (h : Agrees terrain fall cells start k s) (hc : cells[k]? = some c)
    (hin : terrain.shape.Contains c) {v : β}
    (hv : markAt fall (heightsOf terrain cells) k = some v) (hcell : terrain.shape.Contains cell) :
    Shadow.shown (s.depths.setIfInBounds (terrain.shape.index c) (some v))
        (terrain.shape.index cell) =
      (marksOf terrain fall cells cell (k + 1)).getLast?.getD
        (Shadow.shown start (terrain.shape.index cell)) := by
  have hsize : terrain.shape.index c < s.depths.size := h.size ▸ Shape.index_lt hin
  rw [getLast?_marksOf_succ, ← h.shown cell hcell, Shadow.shown_set hsize, markOn, hc, hv]
  by_cases heq : c = cell
  · rw [if_pos (congrArg _ heq), if_pos (congrArg some heq)]
    rfl
  · rw [if_neg fun hi => heq (Shape.index_inj hin hcell hi),
      if_neg fun ho => heq (Option.some.inj ho)]
    rfl

theorem agrees_start (hsize : start.size = terrain.shape.size) :
    Agrees terrain fall cells start 0 ⟨none, 0, start⟩ where
  horizon := rfl
  below := iff_of_false (lt_irrefl 0) fun h => lt_irrefl 0 h.1
  size := hsize
  shown _ _ := rfl

def Reached (highest : Option β) (s : Sweep β) : Prop :=
  ∀ h, s.horizon = some h → ∃ m, highest = some m ∧ h ≤ m

/-- No height of the terrain exceeds the highest one. -/
def Tops (highest : Option β) (terrain : Terrain β) : Prop :=
  ∀ c z, terrain.height c = some z → ∃ m, highest = some m ∧ z ≤ m

theorem Reached.sweepStep (h : Reached highest s) :
    Shadow.sweepStep terrain fall highest c s = some (sweepOn terrain fall s c) := by
  apply if_neg
  cases hs : s.horizon with
  | none => exact Bool.false_ne_true
  | some t =>
    obtain ⟨m, rfl, hle⟩ := h t hs
    simpa using hle

variable [IsStrictOrderedRing β]

theorem Agrees.shown_lit (h : Agrees terrain fall cells start k s)
    (hv : markAt fall (heightsOf terrain cells) k = none) (hcell : terrain.shape.Contains cell)
    (z : β) :
    Shadow.shown (sweepCell.lit s (terrain.shape.index c) z).depths (terrain.shape.index cell) =
      (marksOf terrain fall cells cell (k + 1)).getLast?.getD
        (Shadow.shown start (terrain.shape.index cell)) := by
  have hmark : markOn terrain fall cells cell k = none := by
    rw [markOn, hv, ite_self]
  rw [getLast?_marksOf_succ, ← h.shown cell hcell, hmark, Option.getD_none]
  rw [sweepCell.lit]
  dsimp only
  split
  · next hnone =>
    have hsize : terrain.shape.index c < s.depths.size := (Array.getElem?_eq_some_iff.1 hnone).1
    rw [Shadow.shown_set hsize]
    split_ifs with hi
    · rw [← hi, Shadow.shown, hnone]
      norm_num
    · rfl
  · rfl

theorem Agrees.horizonAt_succ (h : Agrees terrain fall cells start k s)
    (hc : cells[k]? = some c) :
    horizonAt fall (heightsOf terrain cells) (k + 1) =
      (skyline s.horizon ⊔ (terrain.height c).elim ⊥ fun z => (z : WithBot β)).map (· - fall) := by
  rw [Shadow.horizonAt_succ, h.horizon, heightsOf_eq hc]

omit [IsStrictOrderedRing β] in
theorem Agrees.liesBelow_iff (h : Agrees terrain fall cells start k s) (hc : cells[k]? = some c)
    {z : β} (hz : terrain.height c = some z) :
    LiesBelow fall (heightsOf terrain cells) k ↔ (z : WithBot β) < skyline s.horizon := by
  rw [LiesBelow, heightsOf_eq hc, hz, h.horizon]
  simp

theorem Agrees.step_void (h : Agrees terrain fall cells start k s) (hc : cells[k]? = some c)
    (hin : terrain.shape.Contains c) (hz : terrain.height c = none) :
    Agrees terrain fall cells start (k + 1) (sweepOn terrain fall s c) := by
  have hmark : markAt fall (heightsOf terrain cells) k = some 0.0 := by
    rw [markAt, heightsOf_eq hc, hz]
    norm_num
  rw [sweepOn, hz, sweepCell]
  refine ⟨?_, ?_, ?_, fun cell hcell => h.shown_set hc hin hmark hcell⟩
  · rw [h.horizonAt_succ hc, hz, skyline_map]
    simp
  · apply iff_of_false (lt_irrefl 0)
    rintro ⟨-, z, hz', -⟩
    rw [Nat.add_sub_cancel, heightsOf_eq hc, hz] at hz'
    cases hz'
  · rw [Array.size_setIfInBounds, h.size]

theorem Agrees.step_below (h : Agrees terrain fall cells start k s) (hc : cells[k]? = some c)
    (hin : terrain.shape.Contains c) {z : β} (hz : terrain.height c = some z)
    (hlt : (z : WithBot β) < skyline s.horizon) :
    Agrees terrain fall cells start (k + 1) (sweepOn terrain fall s c) := by
  have hbelow := (h.liesBelow_iff hc hz).2 hlt
  obtain ⟨t, ht, hzt⟩ := exists_of_lt_skyline hlt
  have hmark : markAt fall (heightsOf terrain cells) k =
      some (if 0 < s.below then t - z else 0.0) := by
    rw [markAt, heightsOf_eq hc, hz]
    dsimp only
    rw [if_pos hbelow, ← h.horizon, ht]
    classical
    exact congrArg some (if_congr h.below.symm rfl (by norm_num))
  rw [sweepOn, hz, sweepCell_below ht hzt]
  refine ⟨?_, ?_, ?_, fun cell hcell => h.shown_set hc hin hmark hcell⟩
  · rw [h.horizonAt_succ hc, hz, skyline_map, Option.elim_some, sup_eq_left.2 hlt.le]
  · rw [Nat.add_sub_cancel]
    exact iff_of_true (Nat.succ_pos _) ⟨Nat.succ_pos _, hbelow⟩
  · rw [Array.size_setIfInBounds, h.size]

theorem Agrees.step_lit (h : Agrees terrain fall cells start k s) (hc : cells[k]? = some c)
    {z : β} (hz : terrain.height c = some z) (hlt : ¬ (z : WithBot β) < skyline s.horizon) :
    Agrees terrain fall cells start (k + 1) (sweepOn terrain fall s c) := by
  have hbelow := mt (h.liesBelow_iff hc hz).1 hlt
  have hmark : markAt fall (heightsOf terrain cells) k = none := by
    rw [markAt, heightsOf_eq hc, hz]
    exact if_neg hbelow
  rw [sweepOn, hz, sweepCell_of_not_lt hlt]
  refine ⟨?_, ?_, ?_, fun cell hcell => h.shown_lit hmark hcell z⟩
  · rw [h.horizonAt_succ hc, hz, Option.elim_some, sup_eq_right.2 (not_lt.1 hlt)]
    rfl
  · rw [Nat.add_sub_cancel]
    exact iff_of_false (lt_irrefl 0) fun hb => hbelow hb.2
  · rw [← h.size]
    exact size_lit _ _ _

theorem Agrees.step (h : Agrees terrain fall cells start k s) (hc : cells[k]? = some c)
    (hin : terrain.shape.Contains c) :
    Agrees terrain fall cells start (k + 1) (sweepOn terrain fall s c) := by
  cases hz : terrain.height c with
  | none => exact h.step_void hc hin hz
  | some z =>
    by_cases hlt : (z : WithBot β) < skyline s.horizon
    · exact h.step_below hc hin hz hlt
    · exact h.step_lit hc hz hlt

theorem agrees_foldl (hin : ∀ c ∈ cells, terrain.shape.Contains c)
    (hsize : start.size = terrain.shape.size) (hk : k ≤ cells.length) :
    Agrees terrain fall cells start k
      ((cells.take k).foldl (sweepOn terrain fall) ⟨none, 0, start⟩) := by
  induction k with
  | zero => exact agrees_start hsize
  | succ k ih =>
    have hlt : k < cells.length := hk
    rw [List.take_add_one, List.getElem?_eq_getElem hlt, List.foldl_append]
    exact (ih hlt.le).step (List.getElem?_eq_getElem hlt) (hin _ (List.getElem_mem hlt))

theorem Reached.sweepOn (h : Reached highest s) (hfall : 0 ≤ fall) (htop : Tops highest terrain) :
    Reached highest (Shadow.sweepOn terrain fall s c) := by
  intro t ht
  obtain ⟨t', ht', rfl⟩ := Option.map_eq_some_iff.1 ht
  have hle : ∃ m, highest = some m ∧ t' ≤ m := by
    cases hh : terrain.height c with
    | none =>
      rw [hh] at ht'
      exact h t' ht'
    | some z =>
      rw [hh] at ht'
      by_cases hlt : (z : WithBot β) < skyline s.horizon
      · obtain ⟨t, hs, hzt⟩ := exists_of_lt_skyline hlt
        rw [sweepCell_below hs hzt] at ht'
        exact h t' ht'
      · rw [sweepCell_of_not_lt hlt] at ht'
        obtain rfl : z = t' := Option.some.inj ht'
        exact htop c z hh
  obtain ⟨m, hm, hle⟩ := hle
  exact ⟨m, hm, (sub_le_self t' hfall).trans hle⟩

section Trails

variable {α : Type} [Sub α] [LT α] [LE α] [DecidableLT α] [DecidableLE α] [NatCast α]
  [OfScientific α] [Whole α] {motion : Motion α} {edges : Edges} {budget : ℕ} {seed : Cell}

/-- The cells that a sweep from a seed visits, over any kind of numbers. -/
def trail (shape : Shape) (motion : Motion α) (edges : Edges) (budget : ℕ) (seed : Cell) :
    List Cell :=
  path (edges.locate shape) (fun p => ⟨p.x - motion.x, p.y - motion.y⟩) budget
    (seed.position : Position α)

noncomputable def marksFrom (terrain : Terrain β) (motion : Motion α) (fall : β) (edges : Edges)
    (budget : ℕ) (cell seed : Cell) : List β :=
  let cells := trail terrain.shape motion edges budget seed
  marksOf terrain fall cells cell cells.length

theorem sweep_eq_foldl (hfall : 0 ≤ fall) (htop : Tops highest terrain) :
    (sweep terrain motion fall highest edges budget start seed).1 =
      (trail terrain.shape motion edges budget seed).foldl (sweepOn terrain fall)
        ⟨none, 0, start⟩ := by
  have hstart : Reached highest (⟨none, 0, start⟩ : Sweep β) := fun _ h => by cases h
  exact walk_eq_foldl (fun _ c _ hs => Reached.sweepStep (c := c) hs)
    (fun _ c hs => Reached.sweepOn (c := c) hs hfall htop) budget _ hstart

theorem agrees_sweep (hfall : 0 ≤ fall) (htop : Tops highest terrain)
    (hin : ∀ c ∈ trail terrain.shape motion edges budget seed, terrain.shape.Contains c)
    (hsize : start.size = terrain.shape.size) :
    let cells := trail terrain.shape motion edges budget seed
    Agrees terrain fall cells start cells.length
      (sweep terrain motion fall highest edges budget start seed).1 := by
  intro cells
  have h : Agrees terrain fall cells start cells.length _ := agrees_foldl hin hsize le_rfl
  rw [List.take_length] at h
  rwa [sweep_eq_foldl hfall htop]

/-- After the sweeps from some seeds a cell shows the last of their marks. -/
theorem shown_foldl_trails (hfall : 0 ≤ fall) (htop : Tops highest terrain)
    (hcell : terrain.shape.Contains cell) {seeds : List Cell}
    (hin : ∀ seed ∈ seeds, ∀ c ∈ trail terrain.shape motion edges budget seed,
      terrain.shape.Contains c)
    (hsize : start.size = terrain.shape.size) :
    let depths := seeds.foldl
      (fun depths seed => (sweep terrain motion fall highest edges budget depths seed).1.depths)
      start
    depths.size = terrain.shape.size ∧
      shown depths (terrain.shape.index cell) =
        (seeds.flatMap (marksFrom terrain motion fall edges budget cell)).getLast?.getD
          (shown start (terrain.shape.index cell)) := by
  induction seeds generalizing start with
  | nil => exact ⟨hsize, rfl⟩
  | cons seed seeds ih =>
    obtain ⟨hseed, hseeds⟩ := List.forall_mem_cons.1 hin
    -- the other sweeps start from the depths that this one leaves
    have h := agrees_sweep hfall htop hseed hsize
    obtain ⟨hsize', hshown⟩ := ih hseeds h.size
    refine ⟨hsize', hshown.trans ?_⟩
    rw [h.shown cell hcell, List.flatMap_cons, List.getLast?_append, Option.getD_or]
    rfl

end Trails

def rayPath (shape : Shape) (motion : Motion Float) (edges : Edges) (budget : ℕ) (seed : Cell) :
    List Cell :=
  path (edges.locate shape) (fun p => ⟨p.x - motion.x, p.y - motion.y⟩) budget
    (seed.position : Position Float)

variable {motion : Motion Float} {edges : Edges} {budget : ℕ} {seed : Cell}

omit [IsStrictOrderedRing β] in
theorem contains_of_mem_rayPath {shape : Shape} (hcols : 0 < shape.cols)
    (h : c ∈ rayPath shape motion edges budget seed) : shape.Contains c := by
  obtain ⟨k, hk⟩ := List.mem_iff_getElem?.1 h
  exact Edges.contains_of_locate hcols (path_getElem?_eq_some.1 hk).2.2

noncomputable def allMarks (terrain : Terrain β) (motion : Motion Float) (fall : β) (edges : Edges)
    (budget : ℕ) (cell : Cell) (seeds : List Cell) : List β :=
  seeds.flatMap fun seed =>
    let cells := rayPath terrain.shape motion edges budget seed
    marksOf terrain fall cells cell cells.length

theorem shown_foldl_sweep (motion : Motion Float) (edges : Edges) (budget : ℕ) (hfall : 0 ≤ fall)
    (htop : Tops highest terrain) (hcell : terrain.shape.Contains cell) (seeds : List Cell)
    (hsize : start.size = terrain.shape.size) :
    let depths := seeds.foldl
      (fun depths seed => (sweep terrain motion fall highest edges budget depths seed).1.depths)
      start
    depths.size = terrain.shape.size ∧
      shown depths (terrain.shape.index cell) =
        (allMarks terrain motion fall edges budget cell seeds).getLast?.getD
          (shown start (terrain.shape.index cell)) :=
  shown_foldl_trails hfall htop hcell
    (fun _ _ _ hc => contains_of_mem_rayPath (Nat.zero_lt_of_lt hcell.2) hc) hsize

/-- What a cell ends with, by all pairs of visits of each ray: what the last visit marked, of those
that found the cell void or below the horizon, over all rays in the order of their seeds. -/
noncomputable def lastMark (terrain : Terrain β) (motion : Motion Float) (fall : β) (edges : Edges)
    (budget : ℕ) (cell : Cell) : β :=
  let marks := allMarks terrain motion fall edges budget cell (seeds motion terrain.shape edges)
  marks.getLast?.getD 0

/-- The sweeps give each cell its last mark, narrowed in whatever way. -/
theorem sweptDepths_eq_lastMark (terrain : Terrain β) (motion : Motion Float) (fall : β)
    (highest : Option β) (edges : Edges) (budget : ℕ) (narrow : β → Float32) (cell : Cell)
    (hfall : 0 ≤ fall) (htop : Tops highest terrain) (hcell : terrain.shape.Contains cell) :
    ((sweptDepths terrain motion fall highest edges budget).map
        fun depth => narrow (depth.getD 0.0))[terrain.shape.index cell]? =
      some (narrow (lastMark terrain motion fall edges budget cell)) := by
  obtain ⟨hsize, hshown⟩ := shown_foldl_sweep motion edges budget hfall htop hcell
    (seeds motion terrain.shape edges) Array.size_replicate
  have hlt := Shape.index_lt hcell
  have hstart : shown (Array.replicate terrain.shape.size (none : Option β))
      (terrain.shape.index cell) = 0 := by
    rw [shown, Array.getElem?_replicate, if_pos hlt]
    rfl
  rw [hstart, ← lastMark] at hshown
  change (sweptDepths terrain motion fall highest edges budget).size = _ at hsize
  change shown (sweptDepths terrain motion fall highest edges budget) _ = _ at hshown
  rw [← hsize] at hlt
  rw [shown, Array.getElem?_eq_getElem hlt, Option.join_some] at hshown
  rw [Array.getElem?_map, Array.getElem?_eq_getElem hlt, ← hshown]
  norm_num

theorem sweptDepths_eq_lastMark_ridge :
    let terrain : Terrain ℚ := ⟨⟨1, 4⟩, fun c => if c.col = 0 then some 10 else some 0⟩
    let motion : Motion Float := ⟨-1.0, 0.0⟩
    (0 : ℚ) ≤ 1 ∧ Tops (some 10) terrain ∧ terrain.shape.Contains ⟨0, 3⟩ ∧
      lastMark terrain motion 1 .bounded 9 ⟨0, 3⟩ = 7 := by
  intro terrain motion
  have htop : Tops (some 10) terrain := by
    intro c z hz
    refine ⟨10, rfl, ?_⟩
    change (if c.col = 0 then some (10 : ℚ) else some 0) = some z at hz
    split_ifs at hz
    · exact (Option.some.inj hz).ge
    · exact (Option.some.inj hz).ge.trans (by norm_num)
  have h := sweptDepths_eq_lastMark terrain motion 1 (some 10) .bounded 9
    (fun q => if q = 7 then 7.0 else 0.0) ⟨0, 3⟩ (by norm_num) htop (by decide)
  have hrun : ((sweptDepths terrain motion 1 (some 10) .bounded 9).map
      fun depth => if depth.getD 0.0 = 7 then (7.0 : Float32) else 0.0)[
        terrain.shape.index ⟨0, 3⟩]? = some 7.0 := by
    decide +kernel
  rw [hrun] at h
  refine ⟨by norm_num, htop, by decide, ?_⟩
  by_contra hne
  rw [if_neg hne] at h
  exact absurd h (by decide +kernel)

end Run

end Shadow

end Relief
