import Relief.Proofs.Analyses
import Relief.Proofs.Location
import Relief.Proofs.Shadow.Visits

namespace Relief

section Noting

variable {ι σ : Type} {locate : ι → Option Cell} {next : ι → ι} {visit : ι → Cell → σ → Option σ}

/-- A visit that also takes down its cell, unless it ends the walk. -/
def noting (visit : ι → Cell → σ → Option σ) (i : ι) (c : Cell) (s : σ × List Cell) :
    Option (σ × List Cell) :=
  (visit i c s.1).map fun t => (t, s.2 ++ [c])

theorem walk_noting (n : ℕ) (i : ι) (s : σ) (cells : List Cell) :
    walk locate next (noting visit) n i (s, cells) =
      (((walk locate next visit n i s).1, cells ++ touched locate next visit n i s),
        (walk locate next visit n i s).2) := by
  induction n generalizing i s cells with
  | zero => rw [walk, walk, touched, List.append_nil]
  | succ n ih =>
    rw [walk, walk, touched]
    cases locate i with
    | none => exact congrArg (fun notes => ((s, notes), _)) (List.append_nil cells).symm
    | some c =>
      dsimp only [noting]
      cases visit i c s with
      | none => exact congrArg (fun notes => ((s, notes), _)) (List.append_nil cells).symm
      | some t =>
        dsimp only [Option.map_some]
        rw [ih, List.append_assoc]
        rfl

end Noting

/-- A result that a terrain gives by `f`, noted along with the cells touched for it. They are all in
the grid, and apart from those that were checked to be so the result depends on no others. -/
structure Touches {β : Type} (terrain : Terrain Float) (checked : List Cell)
    (f : Terrain Float → β) (noted : β × List Cell) : Prop where
  same : noted.1 = f terrain
  within : ∀ c ∈ noted.2, terrain.shape.Contains c
  only : ∀ other : Terrain Float, other.shape = terrain.shape →
    (∀ c ∈ checked ++ noted.2, other.height c = terrain.height c) → f other = f terrain

section Touching

variable {β γ ι σ : Type} {terrain : Terrain Float} {checked : List Cell} {noted : β × List Cell}

theorem touches_nothing (b : β) : Touches terrain [] (fun _ => b) (b, []) :=
  ⟨rfl, List.forall_mem_nil _, fun _ _ _ => rfl⟩

theorem Touches.map {f : Terrain Float → β} (g : β → γ) (h : Touches terrain checked f noted) :
    Touches terrain checked (fun t => g (f t)) (g noted.1, noted.2) :=
  ⟨congrArg g h.same, h.within, fun other hshape heq => congrArg g (h.only other hshape heq)⟩

theorem Touches.check {f g : Terrain Float → β} {c : Cell} (h : Touches terrain [] g noted)
    (hheight : ∀ t, t.height c = terrain.height c → f t = g t) :
    Touches terrain [c] f noted where
  same := h.same.trans (hheight terrain rfl).symm
  within := h.within
  only other hshape heq := by
    obtain ⟨hc, hrest⟩ := List.forall_mem_cons.1 heq
    rw [hheight other hc, hheight terrain rfl]
    exact h.only other hshape hrest

theorem Touches.note {f : Terrain Float → β} {c : Cell} (h : Touches terrain [c] f noted)
    (hc : terrain.shape.Contains c) : Touches terrain [] f (noted.1, c :: noted.2) :=
  ⟨h.same, List.forall_mem_cons.2 ⟨hc, h.within⟩, h.only⟩

theorem Touches.bind {f : Terrain Float → β} {g : β → Terrain Float → γ} {rest : γ × List Cell}
    (h : Touches terrain checked f noted) (hrest : Touches terrain checked (g noted.1) rest) :
    Touches terrain checked (fun t => g (f t) t) (rest.1, noted.2 ++ rest.2) where
  same := h.same ▸ hrest.same
  within c hc := (List.mem_append.1 hc).elim (h.within c) (hrest.within c)
  only other hshape heq := by
    have hfirst := h.only other hshape fun c hc => heq c <| by
      rw [← List.append_assoc]
      exact List.mem_append_left _ hc
    have hsecond := hrest.only other hshape fun c hc => heq c <| by
      rw [List.mem_append, List.mem_append]
      exact (List.mem_append.1 hc).imp_right .inr
    rw [hfirst, ← h.same]
    exact hsecond

variable (locate : Shape → ι → Option Cell) {next : ι → ι}
  (visit : Terrain Float → ι → Cell → σ → Option σ)

/-- A walk touches the cells that it notes if its visits read no height but their cell's, and none
at all where they end it. -/
theorem touches_walk (hlocate : ∀ i c, locate terrain.shape i = some c → terrain.shape.Contains c)
    (hstop : ∀ other i c s, visit terrain i c s = none → visit other i c s = none)
    (hvisit : ∀ other c, other.shape = terrain.shape → other.height c = terrain.height c →
      ∀ i s, visit other i c s = visit terrain i c s)
    (n : ℕ) (i : ι) (s : σ) :
    Touches terrain [] (fun t => (walk (locate t.shape) next (visit t) n i s).1)
      (walk (locate terrain.shape) next (noting (visit terrain)) n i (s, [])).1 := by
  rw [walk_noting, List.nil_append]
  refine ⟨rfl, of_mem_touched hlocate n i s, ?_⟩
  intro other hshape heq
  rw [hshape, walk_eq_of_touched (hstop other) n i s]
  intro c hc
  exact hvisit other c hshape (heq c hc)

end Touching

theorem RowBlock.contains_cellAt {shape : Shape} {block : RowBlock} {i : ℕ}
    (hstop : block.stop ≤ shape.rows) (hi : i < block.size * shape.cols) :
    shape.Contains (block.cellAt shape i) := by
  have hcols : 0 < shape.cols := Nat.pos_of_mul_pos_left (Nat.zero_lt_of_lt hi)
  have hrow : i / shape.cols < block.stop - block.start := (Nat.div_lt_iff_lt_mul hcols).2 hi
  exact ⟨(Nat.add_lt_of_lt_sub' hrow).trans_le hstop, Nat.mod_lt i hcols⟩

namespace Shadow

section Noted

variable (terrain : Terrain Float) (motion : Motion Float) (fall : Float) (highest : Option Float)
  (edges : Edges) (budget : ℕ)

/-- A march and the cells that it reads. -/
def notedMarch (rise : Float) (mayMeet : Float → Bool) (steps : ℕ) (cell : Cell) (z : Float) :
    Ray Float × List Cell :=
  (walk terrain.shape.nearest (fun p => ⟨p.x + motion.x, p.y + motion.y⟩)
    (noting (marchVisit terrain rise mayMeet)) steps (cell.position : Position Float)
    (⟨z, 0.0⟩, [])).1

def notedShade [Trig Float] (sun : Sun Float) (cell : Cell) : Float × List Cell :=
  match terrain.height cell with
  | none => (1.0, [cell])
  | some z =>
    let noted := notedMarch terrain sun.toMotion sun.z (below highest) marchSteps cell z
    (if noted.1.volume == 0.0 then 0.0 else Trig.log noted.1.volume, cell :: noted.2)

def notedSweep (depths : Array (Option Float)) (seed : Cell) : Sweep Float × List Cell :=
  (walk (edges.locate terrain.shape) (fun p => ⟨p.x - motion.x, p.y - motion.y⟩)
    (noting fun _ c s => sweepStep terrain fall highest c s) budget
    (seed.position : Position Float) (⟨none, 0, depths⟩, [])).1

def notedSweeps (depths : Array (Option Float)) : List Cell → Array (Option Float) × List Cell
  | [] => (depths, [])
  | seed :: seeds =>
    let noted := notedSweep terrain motion fall highest edges budget depths seed
    let rest := notedSweeps noted.1.depths seeds
    (rest.1, noted.2 ++ rest.2)

end Noted

section Touched

variable {terrain : Terrain Float} {motion : Motion Float} {fall : Float} {highest : Option Float}
  {edges : Edges} {budget : ℕ} {cell seed : Cell} {depths : Array (Option Float)}

theorem touches_march (terrain : Terrain Float) (motion : Motion Float) (rise : Float)
    (mayMeet : Float → Bool) (steps : ℕ) (cell : Cell) (z : Float) :
    Touches terrain [] (fun t => (march t motion rise mayMeet steps cell z).1)
      (notedMarch terrain motion rise mayMeet steps cell z) := by
  refine touches_walk Shape.nearest (marchVisit · rise mayMeet)
    (fun _ _ => Shape.contains_of_nearest) ?_ ?_ steps cell.position ⟨z, 0.0⟩
  · intro other i c ray hnone
    rw [marchVisit] at hnone ⊢
    split_ifs at hnone with hmeet
    exact if_neg hmeet
  · intro other c _ hheight i ray
    rw [marchVisit, marchVisit, advance, advance, hheight]

theorem touches_shade [Trig Float] (sun : Sun Float) (hcell : terrain.shape.Contains cell) :
    Touches terrain [] (fun t => exactShade t sun.toMotion sun.z highest cell)
      (notedShade terrain highest sun cell) := by
  rw [notedShade]
  cases hz : terrain.height cell with
  | none =>
    refine ((touches_nothing 1.0).check fun t ht => ?_).note hcell
    rw [exactShade, ht, hz]
  | some z =>
    have hmarch := touches_march terrain sun.toMotion sun.z (below highest) marchSteps cell z
    refine ((hmarch.map fun ray => if ray.volume == 0.0 then 0.0 else Trig.log ray.volume).check
      fun t ht => ?_).note hcell
    rw [exactShade, ht, hz]
    exact volumeShade.eq_1 _

theorem touches_sweep (hcols : 0 < terrain.shape.cols) (motion : Motion Float) (fall : Float)
    (highest : Option Float) (edges : Edges) (budget : ℕ) (depths : Array (Option Float))
    (seed : Cell) :
    Touches terrain [] (fun t => (sweep t motion fall highest edges budget depths seed).1)
      (notedSweep terrain motion fall highest edges budget depths seed) := by
  refine touches_walk edges.locate (fun t _ => sweepStep t fall highest)
    (fun _ _ => Edges.contains_of_locate hcols) ?_ ?_ budget seed.position ⟨none, 0, depths⟩
  · intro other _ c s hnone
    rw [sweepStep] at hnone ⊢
    split_ifs at hnone with habove
    exact if_pos habove
  · intro other c hshape hheight _ s
    rw [sweepStep, sweepStep, hshape, hheight]

theorem touches_sweeps (hcols : 0 < terrain.shape.cols) (seeds : List Cell)
    (depths : Array (Option Float)) :
    Touches terrain []
      (fun t => seeds.foldl
        (fun depths seed => (sweep t motion fall highest edges budget depths seed).1.depths) depths)
      (notedSweeps terrain motion fall highest edges budget depths seeds) := by
  induction seeds generalizing depths with
  | nil => exact touches_nothing depths
  | cons seed seeds ih =>
    have hfirst := touches_sweep hcols motion fall highest edges budget depths seed
    -- each sweep starts from the depths that the sweeps before it leave
    exact (hfirst.map Sweep.depths).bind (g := fun left t => seeds.foldl
      (fun depths seed => (sweep t motion fall highest edges budget depths seed).1.depths) left)
      (ih _)

theorem getElem?_notedSweep {k : ℕ}
    (h : ∀ c ∈ (notedSweep terrain motion fall highest edges budget depths seed).2,
      terrain.shape.index c ≠ k) :
    (notedSweep terrain motion fall highest edges budget depths seed).1.depths[k]? =
      depths[k]? := by
  rw [notedSweep, walk_noting] at h ⊢
  refine walk_keeps_of_touched (P := fun s : Sweep Float => s.depths[k]? = depths[k]?) budget _
    ?_ rfl
  intro c hc _ s t ht hs
  exact (getElem?_sweepStep ht (h c hc)).trans hs

theorem getElem?_notedSweeps {k : ℕ} {seeds : List Cell}
    (h : ∀ c ∈ (notedSweeps terrain motion fall highest edges budget depths seeds).2,
      terrain.shape.index c ≠ k) :
    (notedSweeps terrain motion fall highest edges budget depths seeds).1[k]? = depths[k]? := by
  induction seeds generalizing depths with
  | nil => rfl
  | cons seed seeds ih =>
    rw [notedSweeps, List.forall_mem_append] at h
    exact (ih h.2).trans (getElem?_notedSweep h.1)

end Touched

end Shadow

namespace Horizon

variable [Trig Float]

def sample (terrain : Terrain Float) (z : Float) (direction : Direction Float) (d : ℕ) (c : Cell)
    (range : Option (Horizon Float)) : Option (Option (Horizon Float)) :=
  (terrain.height c).elim (some range) fun height =>
    some (widen range (Trig.atan ((height - z) / ((d : Float) * direction.groundStep))))

variable (terrain : Terrain Float) (base : Cell) (stride maxDistance : ℕ)

variable {terrain} in
theorem sample_ne_none {z : Float} {direction : Direction Float} {d : ℕ} {c : Cell}
    {range : Option (Horizon Float)} : sample terrain z direction d c range ≠ none := by
  rw [sample]
  cases terrain.height c with
  | none => exact Option.some_ne_none _
  | some height => exact Option.some_ne_none _

theorem angles_eq_walk (z : Float) (direction : Direction Float) :
    angles terrain base z direction stride maxDistance =
      (walk (fun d => terrain.shape.nearest (placeAt direction base d)) (· + stride)
        (sample terrain z direction) (maxDistance / stride) stride none).1 := by
  rw [angles]
  congr
  funext d c range
  rw [sample]
  cases terrain.height c with
  | none => rfl
  | some height => rfl

def notedAngles (z : Float) (direction : Direction Float) : Option (Horizon Float) × List Cell :=
  (walk (fun d => terrain.shape.nearest (placeAt direction base d)) (· + stride)
    (noting (sample terrain z direction)) (maxDistance / stride) stride (none, [])).1

def notedHorizons (z : Float) :
    List (Direction Float) → List (Option (Horizon Float)) × List Cell
  | [] => ([], [])
  | direction :: directions =>
    let noted := notedAngles terrain base stride maxDistance z direction
    let rest := notedHorizons z directions
    (noted.1.map clamp :: rest.1, noted.2 ++ rest.2)

def notedProfile (directions : List (Direction Float)) :
    List (Option (Horizon Float)) × List Cell :=
  match terrain.height base with
  | none => (directions.map fun _ => none, [])
  | some z => notedHorizons terrain base (max stride 1) maxDistance z directions

theorem touches_angles (z : Float) (direction : Direction Float) :
    Touches terrain [] (fun t => angles t base z direction stride maxDistance)
      (notedAngles terrain base stride maxDistance z direction) := by
  simp only [angles_eq_walk]
  refine touches_walk (fun shape d => shape.nearest (placeAt direction base d))
    (sample · z direction) (fun _ _ => Shape.contains_of_nearest) ?_ ?_ (maxDistance / stride)
    stride none
  · intro other d c range hnone
    exact absurd hnone sample_ne_none
  · intro other c _ hheight d range
    rw [sample, sample, hheight]

theorem touches_horizons (z : Float) (directions : List (Direction Float)) :
    Touches terrain [] (fun t => directions.map (along t base z stride maxDistance))
      (notedHorizons terrain base stride maxDistance z directions) := by
  induction directions with
  | nil => exact touches_nothing []
  | cons direction directions ih =>
    have hfirst := touches_angles terrain base stride maxDistance z direction
    exact (hfirst.map (Option.map clamp)).bind
      (g := fun horizon t => horizon :: directions.map (along t base z stride maxDistance))
      (ih.map _)

theorem touches_profile (directions : List (Direction Float)) :
    Touches terrain [base] (fun t => (profile t base directions stride maxDistance).toList)
      (notedProfile terrain base stride maxDistance directions) := by
  rw [notedProfile]
  cases hz : terrain.height base with
  | none =>
    refine (touches_nothing _).check fun t ht => ?_
    rw [toList_profile, ht, hz]
    rfl
  | some z =>
    refine (touches_horizons terrain base (max stride 1) maxDistance z directions).check
      fun t ht => ?_
    rw [toList_profile, ht, hz]
    rfl

end Horizon

/-- A place is found on the grid only within its rows and columns, and so the analyses touch cells
of the grid alone: each exact shade, whichever worker has its cell, and marches of any number of
steps; all sweeps, which write depths for no others and none beyond the last cell; and each profile
of a cell, once the cell itself is checked. -/
theorem accesses_within_grid [Trig Float] (terrain : Terrain Float)
    (hcols : 0 < terrain.shape.cols) :
    (∀ (p : Position Float) (c : Cell),
      (terrain.shape.nearest p = some c ∨ ∃ edges : Edges, edges.locate terrain.shape p = some c) →
      terrain.shape.Contains c) ∧
    (∀ (sun : Sun Float) (highest : Option Float) (workers : ℕ),
      ∀ block ∈ (List.range workers).map (RowBlock.ofWorker terrain.shape.rows workers),
      ∀ i < block.size * terrain.shape.cols,
        let cell := block.cellAt terrain.shape i
        Touches terrain [] (fun t => Shadow.exactShade t sun.toMotion sun.z highest cell)
          (Shadow.notedShade terrain highest sun cell)) ∧
    (∀ (motion : Motion Float) (rise : Float) (mayMeet : Float → Bool) (steps : ℕ) (cell : Cell)
      (z : Float),
      Touches terrain [] (fun t => (Shadow.march t motion rise mayMeet steps cell z).1)
        (Shadow.notedMarch terrain motion rise mayMeet steps cell z)) ∧
    (∀ (motion : Motion Float) (fall : Float) (highest : Option Float) (edges : Edges)
      (budget : ℕ),
      let depths := Shadow.sweptDepths terrain motion fall highest edges budget
      let noted := Shadow.notedSweeps terrain motion fall highest edges budget
        (Array.replicate terrain.shape.size none) (Shadow.seeds motion terrain.shape edges)
      Touches terrain [] (fun t => Shadow.sweptDepths t motion fall highest edges budget) noted ∧
        (∀ c ∈ noted.2, terrain.shape.index c < depths.size) ∧
        ∀ k < depths.size, (∀ c ∈ noted.2, terrain.shape.index c ≠ k) →
          depths[k]? = some none) ∧
    ∀ (base : Cell) (directions : List (Direction Float)) (stride maxDistance : ℕ),
      Touches terrain [base]
        (fun t => (Horizon.profile t base directions stride maxDistance).toList)
        (Horizon.notedProfile terrain base stride maxDistance directions) := by
  refine ⟨?_, ?_, ?_, ?_, ?_⟩
  · rintro p c (h | ⟨edges, h⟩)
    · exact Shape.contains_of_nearest h
    · exact Edges.contains_of_locate hcols h
  · intro sun highest workers block hblock i hi cell
    have hworkers : 0 < workers := by
      obtain ⟨id, hid, -⟩ := List.mem_map.1 hblock
      exact Nat.zero_lt_of_lt (List.mem_range.1 hid)
    have hstop : block.stop ≤ terrain.shape.rows :=
      ((RowBlock.consecutive_ofWorker hworkers).mem_bounds hblock).2.2
    exact Shadow.touches_shade sun (RowBlock.contains_cellAt hstop hi)
  · intro motion rise mayMeet steps cell z
    exact Shadow.touches_march terrain motion rise mayMeet steps cell z
  · intro motion fall highest edges budget depths noted
    have hsweeps : Touches terrain [] _ noted := Shadow.touches_sweeps hcols _ _
    have hsize : depths.size = terrain.shape.size := Shadow.size_sweptDepths _ _ _ _ _ _
    refine ⟨⟨hsweeps.same, hsweeps.within, ?_⟩, ?_, ?_⟩
    · intro other hshape heq
      rw [Shadow.sweptDepths, hshape]
      exact hsweeps.only other hshape heq
    · intro c hc
      exact (Shape.index_lt (hsweeps.within c hc)).trans_eq hsize.symm
    · intro k hk hunwritten
      have hdepths : depths[k]? = noted.1[k]? := congrArg (·[k]?) hsweeps.same.symm
      rw [hdepths, Shadow.getElem?_notedSweeps hunwritten, Array.getElem?_replicate,
        if_pos (hk.trans_eq hsize)]
  · intro base directions stride maxDistance
    exact Horizon.touches_profile terrain base stride maxDistance directions

/-- A row of `2 ^ 53 + 3` cells counts one more as a binary64, and still the greatest place below
that count is in the last cell; four columns west of the first the columns wrap round. -/
theorem accesses_within_grid_wide :
    let terrain : Terrain Float := ⟨⟨1, 9007199254740995⟩, fun _ => some 0.0⟩
    let shape := terrain.shape
    let sun : Sun Float := ⟨⟨-1.0, 0.0⟩, 1.0⟩
    0 < shape.cols ∧ (shape.cols : Float) = 9007199254740996.0 ∧
      shape.nearest (⟨9007199254740994.0, -0.0⟩ : Position Float) = some ⟨0, 9007199254740994⟩ ∧
      shape.Contains ⟨0, 9007199254740994⟩ ∧
      Edges.locate .periodic shape (⟨-4.0, 0.25⟩ : Position Float) = some ⟨0, 9007199254740991⟩ ∧
      shape.Contains ⟨0, 9007199254740991⟩ ∧
      ⟨1, 0, 1⟩ ∈ (List.range 2).map (RowBlock.ofWorker 1 2) ∧
      Touches terrain []
        (fun t => Shadow.exactShade t sun.toMotion sun.z (some 5.0) ⟨0, 7⟩)
        (Shadow.notedShade terrain (some 5.0) sun ⟨0, 7⟩) := by
  intro terrain shape sun
  have hcols : 0 < shape.cols := by decide
  have hnearest : shape.nearest (⟨9007199254740994.0, -0.0⟩ : Position Float) =
      some ⟨0, 9007199254740994⟩ := by
    decide +kernel
  have hwrapped : Edges.locate .periodic shape (⟨-4.0, 0.25⟩ : Position Float) =
      some ⟨0, 9007199254740991⟩ := by
    decide +kernel
  have hblock : ⟨1, 0, 1⟩ ∈ (List.range 2).map (RowBlock.ofWorker 1 2) := by decide
  have hcell : RowBlock.cellAt ⟨1, 0, 1⟩ shape 7 = ⟨0, 7⟩ := by decide
  obtain ⟨hfound, hexact, -⟩ := accesses_within_grid terrain hcols
  have hshade := hexact sun (some 5.0) 2 _ hblock 7 (by decide)
  rw [hcell] at hshade
  exact ⟨hcols, by decide +kernel, hnearest, hfound _ _ (.inl hnearest), hwrapped,
    hfound _ _ (.inr ⟨_, hwrapped⟩), hblock, hshade⟩

end Relief
