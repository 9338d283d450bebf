import Relief.Proofs.Grid
import Relief.Proofs.Logged
import Relief.Proofs.Raster
import Relief.Proofs.Shadow.March
import Relief.Proofs.Shadow.Sweep

namespace Relief.Shadow

open Binary

section Visits

/-- What a ray carries to a cell: the horizon over it, and how many visits in a row have found their
cells below it. -/
structure Outlook where
  horizon : Option Float
  below : ℕ

structure Visit where
  cell : Cell
  outlook : Outlook

/-- What a visit marks in a cell of some height; nothing in terrain that is not below the
horizon. -/
def Outlook.mark (o : Outlook) : Option Float → Option Float
  | none => some 0.0
  | some z => o.horizon.bind fun h =>
    if h ≤ z then none else some (if 0 < o.below then h - z else 0.0)

def Outlook.pass (fall : Float) (o : Outlook) : Option Float → Outlook
  | none => ⟨o.horizon.map (· - fall), 0⟩
  | some z =>
    if o.horizon.all (· ≤ z) then ⟨some (z - fall), 0⟩
    else ⟨o.horizon.map (· - fall), o.below + 1⟩

def record {α : Type} [OfScientific α] (depths : Array (Option α)) (i : ℕ) :
    Option α → Array (Option α)
  | some d => depths.setIfInBounds i (some d)
  | none =>
    match depths[i]? with
    | some none => depths.setIfInBounds i (some 0.0)
    | _ => depths

def depthAt (depths : Array (Option Float)) (i : ℕ) : Float :=
  (depths[i]?.join).getD 0.0

variable {terrain : Terrain Float} {fall : Float} {highest : Option Float} {c cell : Cell}
  {s : Sweep Float} {depths : Array (Option Float)} {i j : ℕ}

theorem size_record (m : Option Float) : (record depths i m).size = depths.size := by
  cases m with
  | some d => exact Array.size_setIfInBounds
  | none =>
    rw [record]
    split
    · exact Array.size_setIfInBounds
    · rfl

theorem getElem?_record_of_ne (h : i ≠ j) (m : Option Float) :
    (record depths i m)[j]? = depths[j]? := by
  cases m with
  | some d => exact Array.getElem?_setIfInBounds_ne h
  | none =>
    rw [record]
    split
    · exact Array.getElem?_setIfInBounds_ne h
    · rfl

theorem depthAt_set (h : i < depths.size) (d : Float) (j : ℕ) :
    depthAt (depths.setIfInBounds i (some d)) j = if i = j then d else depthAt depths j := by
  rw [depthAt, Array.getElem?_setIfInBounds]
  split_ifs
  · rfl
  · rfl

theorem depthAt_record (h : i < depths.size) (m : Option Float) (j : ℕ) :
    depthAt (record depths i m) j =
      if i = j then m.getD (depthAt depths j) else depthAt depths j := by
  cases m with
  | some d => exact depthAt_set h d j
  | none =>
    rw [Option.getD_none, ite_self, record]
    split
    · next hnone =>
      rw [depthAt_set h]
      split_ifs with hij
      · rw [← hij, depthAt, hnone]
        rfl
      · rfl
    · rfl

def outlookOf (s : Sweep Float) : Outlook :=
  ⟨s.horizon, s.below⟩

def visited (terrain : Terrain Float) (fall : Float) (s : Sweep Float) (c : Cell) : Sweep Float :=
  let next := (outlookOf s).pass fall (terrain.height c)
  ⟨next.horizon, next.below,
    record s.depths (terrain.shape.index c) ((outlookOf s).mark (terrain.height c))⟩

theorem sweepStep_eq (h : (s.horizon.any fun h => highest.all (· < h)) = false) :
    sweepStep terrain fall highest c s = some (visited terrain fall s c) := by
  rw [sweepStep, h, if_neg Bool.false_ne_true, visited]
  refine congrArg some ?_
  cases terrain.height c with
  | none => rfl
  | some z =>
    rw [sweepCell, outlookOf]
    cases s.horizon with
    | none => rfl
    | some h =>
      by_cases hle : h ≤ z
      · simp only [hle, if_true, Outlook.pass, Outlook.mark, Option.all_some, decide_true,
          Option.bind_some]
        rfl
      · simp only [hle, if_false, Outlook.pass, Outlook.mark, Option.all_some, decide_false,
          Bool.false_eq_true, Option.bind_some]
        rfl

theorem sweepStep_eq_some {t : Sweep Float} (h : sweepStep terrain fall highest c s = some t) :
    t = visited terrain fall s c := by
  cases habove : s.horizon.any fun h => highest.all (· < h) with
  | true =>
    rw [sweepStep, habove, if_pos rfl] at h
    cases h
  | false =>
    rw [sweepStep_eq habove] at h
    exact (Option.some.inj h).symm

theorem size_sweepStep {t : Sweep Float} (h : sweepStep terrain fall highest c s = some t) :
    t.depths.size = s.depths.size := by
  rw [sweepStep_eq_some h]
  exact size_record _

theorem getElem?_sweepStep {t : Sweep Float} {k : ℕ}
    (h : sweepStep terrain fall highest c s = some t) (hk : terrain.shape.index c ≠ k) :
    t.depths[k]? = s.depths[k]? := by
  rw [sweepStep_eq_some h]
  exact getElem?_record_of_ne hk _

def visitsOf (terrain : Terrain Float) (fall : Float) : Outlook → List Cell → List Visit
  | _, [] => []
  | o, c :: cells => ⟨c, o⟩ :: visitsOf terrain fall (o.pass fall (terrain.height c)) cells

def Visit.markIn (terrain : Terrain Float) (cell : Cell) (v : Visit) : Option Float :=
  if v.cell = cell then v.outlook.mark (terrain.height cell) else none

def marksIn (terrain : Terrain Float) (cell : Cell) (visits : List Visit) : List Float :=
  visits.filterMap (Visit.markIn terrain cell)

def recordAll (terrain : Terrain Float) (depths : Array (Option Float)) (visits : List Visit) :
    Array (Option Float) :=
  visits.foldl (fun depths v =>
    record depths (terrain.shape.index v.cell) (v.outlook.mark (terrain.height v.cell))) depths

theorem foldl_visited (cells : List Cell) :
    (cells.foldl (visited terrain fall) s).depths =
      recordAll terrain s.depths (visitsOf terrain fall (outlookOf s) cells) := by
  induction cells generalizing s with
  | nil => rfl
  | cons c cells ih => exact ih

theorem mem_visitsOf {o : Outlook} {cells : List Cell} {v : Visit}
    (h : v ∈ visitsOf terrain fall o cells) : v.cell ∈ cells := by
  induction cells generalizing o with
  | nil => cases h
  | cons c cells ih =>
    rcases List.mem_cons.1 h with rfl | h
    · exact List.mem_cons_self
    · exact List.mem_cons_of_mem _ (ih h)

theorem size_recordAll (visits : List Visit) :
    (recordAll terrain depths visits).size = depths.size := by
  induction visits generalizing depths with
  | nil => rfl
  | cons v visits ih => exact ih.trans (size_record _)

theorem getLast?_marksIn_cons (v : Visit) (visits : List Visit) (d : Float) :
    (marksIn terrain cell (v :: visits)).getLast?.getD d =
      (marksIn terrain cell visits).getLast?.getD ((v.markIn terrain cell).getD d) := by
  rw [marksIn, List.filterMap_cons, ← marksIn]
  cases v.markIn terrain cell with
  | none => rfl
  | some m =>
    rw [List.getLast?_cons]
    rfl

/-- A cell shows the last mark that it got. -/
theorem depthAt_recordAll {visits : List Visit}
    (hin : ∀ v ∈ visits, terrain.shape.Contains v.cell) (hcell : terrain.shape.Contains cell)
    (hsize : depths.size = terrain.shape.size) :
    depthAt (recordAll terrain depths visits) (terrain.shape.index cell) =
      (marksIn terrain cell visits).getLast?.getD (depthAt depths (terrain.shape.index cell)) := by
  induction visits generalizing depths with
  | nil => rfl
  | cons v visits ih =>
    have hv := hin v List.mem_cons_self
    have hlt : terrain.shape.index v.cell < depths.size := hsize ▸ Shape.index_lt hv
    rw [getLast?_marksIn_cons, recordAll, List.foldl_cons, ← recordAll,
      ih (fun w hw => hin w (List.mem_cons_of_mem _ hw)) ((size_record _).trans hsize),
      depthAt_record hlt, Visit.markIn]
    by_cases heq : v.cell = cell
    · rw [if_pos (congrArg _ heq), if_pos heq, heq]
    · rw [if_neg fun h => heq (Shape.index_inj hv hcell h), if_neg heq]
      rfl

end Visits

section Run

/-- A horizon is a number, no higher than the highest cell, and it can fall. -/
structure Hangs (fall : Float) (highest : Option Float) (h : Float) : Prop where
  isNaN : h.isNaN = false
  falls : value h ≠ ⊤ ∨ value fall ≠ ⊤
  le : ∃ m, highest = some m ∧ m.isNaN = false ∧ value h ≤ value m

structure Castable (terrain : Terrain Float) (fall : Float) (highest : Option Float) : Prop where
  nonneg : 0.0 ≤ fall
  hangs : ∀ c z, terrain.height c = some z → Hangs fall highest z

variable {terrain : Terrain Float} {fall : Float} {highest : Option Float} {c cell : Cell}
  {o : Outlook} {motion : Motion Float} {edges : Edges} {budget : ℕ} {seed : Cell}
  {depths : Array (Option Float)}

theorem Hangs.sub {h : Float} (hh : Hangs fall highest h) (hfall : 0.0 ≤ fall) :
    Hangs fall highest (h - fall) := by
  obtain ⟨hn, hle⟩ := value_sub_le hh.isNaN hfall hh.falls
  obtain ⟨m, hm, hnm, hhm⟩ := hh.le
  exact ⟨hn, hh.falls.imp_left fun ht => ne_top_of_le_ne_top ht hle, m, hm, hnm, hle.trans hhm⟩

/-- The horizon of an outlook, if there is one, hangs. -/
def Outlook.Sound (fall : Float) (highest : Option Float) (o : Outlook) : Prop :=
  ∀ h, o.horizon = some h → Hangs fall highest h

theorem Outlook.Sound.map_sub (h : o.Sound fall highest) (hfall : 0.0 ≤ fall) (below : ℕ) :
    Outlook.Sound fall highest ⟨o.horizon.map (· - fall), below⟩ := by
  intro x hx
  obtain ⟨t, ht, rfl⟩ := Option.map_eq_some_iff.1 hx
  exact (h t ht).sub hfall

theorem Outlook.Sound.pass (h : o.Sound fall highest) (hc : Castable terrain fall highest) :
    (o.pass fall (terrain.height c)).Sound fall highest := by
  cases hz : terrain.height c with
  | none => exact h.map_sub hc.nonneg 0
  | some z =>
    rw [Outlook.pass]
    split_ifs
    · intro x hx
      obtain rfl := Option.some.inj hx
      exact (hc.hangs c z hz).sub hc.nonneg
    · exact h.map_sub hc.nonneg _

/-- The exit above the highest cell is never taken. -/
theorem Outlook.Sound.not_above (h : o.Sound fall highest) :
    (o.horizon.any fun h => highest.all (· < h)) = false := by
  cases ho : o.horizon with
  | none => rfl
  | some t =>
    obtain ⟨m, rfl, -, hle⟩ := (h t ho).le
    exact decide_eq_false fun hlt => not_lt.2 hle (lt_iff.1 hlt).2

theorem Outlook.Sound.sweepStep {s : Sweep Float} (h : (outlookOf s).Sound fall highest) :
    Shadow.sweepStep terrain fall highest c s = some (visited terrain fall s c) :=
  sweepStep_eq h.not_above

theorem Outlook.Sound.visited {s : Sweep Float} (h : (outlookOf s).Sound fall highest)
    (hc : Castable terrain fall highest) :
    (outlookOf (Shadow.visited terrain fall s c)).Sound fall highest :=
  h.pass hc

theorem size_sweep :
    (sweep terrain motion fall highest edges budget depths seed).1.depths.size = depths.size := by
  refine walk_keeps_of_touched (P := fun s : Sweep Float => s.depths.size = depths.size) budget _
    ?_ rfl
  intro c _ _ s t ht hs
  exact (size_sweepStep ht).trans hs

theorem size_sweptDepths (terrain : Terrain Float) (motion : Motion Float) (fall : Float)
    (highest : Option Float) (edges : Edges) (budget : ℕ) :
    (sweptDepths terrain motion fall highest edges budget).size = terrain.shape.size := by
  rw [sweptDepths]
  refine List.foldlRecOn (motive := fun depths : Array (Option Float) =>
    depths.size = terrain.shape.size) _ _ Array.size_replicate ?_
  intro depths hsize seed _
  exact size_sweep.trans hsize

theorem Castable.sweep_depths (hc : Castable terrain fall highest) :
    (sweep terrain motion fall highest edges budget depths seed).1.depths =
      recordAll terrain depths
        (visitsOf terrain fall ⟨none, 0⟩ (rayPath terrain.shape motion edges budget seed)) := by
  have hstart : (outlookOf ⟨none, 0, depths⟩).Sound fall highest := fun _ h => by cases h
  have hwalk : (sweep terrain motion fall highest edges budget depths seed).1 =
      (rayPath terrain.shape motion edges budget seed).foldl (visited terrain fall)
        ⟨none, 0, depths⟩ :=
    walk_eq_foldl (P := fun s => (outlookOf s).Sound fall highest)
      (fun _ c _ hs => hs.sweepStep (c := c)) (fun _ c hs => hs.visited (c := c) hc) budget _ hstart
  rw [hwalk, foldl_visited]
  rfl

theorem castable_of_dem {dem : Raster Float32} (hrise : 0.0 ≤ fall)
    (h : fall.isFinite = true ∨ ∀ c z, dem.terrain.height c = some z → z.isFinite = true) :
    Castable dem.terrain fall (dem.statistics.highest.map Sample.toFloat) where
  nonneg := hrise
  hangs c z hz := by
    refine ⟨(Raster.value_height hz).1, ?_, Raster.height_le_highest hz⟩
    rcases h with hf | hf
    · exact .inr (isFinite_iff.1 hf).2.2
    · exact .inl (isFinite_iff.1 (hf c z hz)).2.2

theorem Outlook.Sound.of_mem {cells : List Cell} {v : Visit} (h : o.Sound fall highest)
    (hc : Castable terrain fall highest) (hv : v ∈ visitsOf terrain fall o cells) :
    v.outlook.Sound fall highest := by
  induction cells generalizing o with
  | nil => cases hv
  | cons c cells ih =>
    rcases List.mem_cons.1 hv with rfl | hv
    · exact h
    · exact ih (h.pass hc) hv

/-- The visits of all rays under a sun, in the order of their seeds. -/
def visitsUnder (terrain : Terrain Float) (sun : Sun Float) (edges : Edges) : List Visit :=
  match budget? sun.toMotion terrain.shape edges with
  | none => []
  | some budget => (seeds sun.toMotion terrain.shape edges).flatMap fun seed =>
    visitsOf terrain sun.z ⟨none, 0⟩ (rayPath terrain.shape sun.toMotion edges budget seed)

theorem Castable.sweptDepths_eq (hc : Castable terrain fall highest) (seeds : List Cell) :
    seeds.foldl
      (fun depths seed => (sweep terrain motion fall highest edges budget depths seed).1.depths)
      depths =
      recordAll terrain depths (seeds.flatMap fun seed =>
        visitsOf terrain fall ⟨none, 0⟩ (rayPath terrain.shape motion edges budget seed)) := by
  induction seeds generalizing depths with
  | nil => rfl
  | cons seed seeds ih =>
    rw [List.foldl_cons, ih, hc.sweep_depths, List.flatMap_cons, recordAll, recordAll, recordAll,
      List.foldl_append]

theorem contains_of_mem_visitsUnder {sun : Sun Float} (hcols : 0 < terrain.shape.cols) {v : Visit}
    (h : v ∈ visitsUnder terrain sun edges) : terrain.shape.Contains v.cell := by
  rw [visitsUnder] at h
  split at h
  · cases h
  · obtain ⟨seed, -, hv⟩ := List.mem_flatMap.1 h
    exact contains_of_mem_rayPath hcols (mem_visitsOf hv)

theorem Castable.sound_of_mem {sun : Sun Float} (hc : Castable terrain sun.z highest) {v : Visit}
    (h : v ∈ visitsUnder terrain sun edges) : v.outlook.Sound sun.z highest := by
  rw [visitsUnder] at h
  split at h
  · cases h
  · obtain ⟨seed, -, hv⟩ := List.mem_flatMap.1 h
    exact Outlook.Sound.of_mem (fun _ h => by cases h) hc hv

theorem depthCell_zero : depthCell (some 0.0) = 0.0 ∧ depthCell none = 0.0 := by
  decide +kernel

theorem getElem?_map_depthCell {i : ℕ} (h : i < depths.size) :
    (depths.map depthCell)[i]? = some (depthCell (some (depthAt depths i))) := by
  rw [Array.getElem?_map, depthAt, Array.getElem?_eq_getElem h]
  rfl

theorem sweptCells_eq [Resources]
    (h : terrain.shape.size * Sample.width Float32 ≤ Resources.block)
    (hword : terrain.shape.size < wordValues) (sun : Sun Float) (highest : Option Float)
    (edges : Edges) :
    ∃ cells event, sweptCells terrain sun highest edges = ⟨[event], .ok cells⟩ ∧
      cells.size = terrain.shape.size ∧
      (event = .sunOverhead ∨ ∃ budget, event = .sweepsDone budget edges) := by
  rw [sweptCells, depthCells, Raster.buffer_of_le h hword, Logged.ofExcept_ok_bind]
  cases budget? sun.toMotion terrain.shape edges with
  | none => exact ⟨_, _, rfl, Array.size_replicate, .inl rfl⟩
  | some budget =>
    refine ⟨_, _, rfl, ?_, .inr ⟨budget, rfl⟩⟩
    rw [Array.size_map, size_sweptDepths]

theorem sweptCells_outcome [Resources] {sun : Sun Float}
    (h : terrain.shape.size * Sample.width Float32 ≤ Resources.block)
    (hword : terrain.shape.size < wordValues) :
    ∃ cells, (sweptCells terrain sun highest edges).outcome = .ok cells := by
  obtain ⟨cells, event, heq, -⟩ := sweptCells_eq h hword sun highest edges
  exact ⟨cells, congrArg Logged.outcome heq⟩

theorem Castable.getElem?_sweptCells [Resources] {sun : Sun Float} {cells : Array Float32}
    (hc : Castable terrain sun.z highest)
    (hrun : (sweptCells terrain sun highest edges).outcome = .ok cells)
    (hcell : terrain.shape.Contains cell) :
    cells[terrain.shape.index cell]? =
      some (depthCell (marksIn terrain cell (visitsUnder terrain sun edges)).getLast?) := by
  have hlt := Shape.index_lt hcell
  have hin (v : Visit) (hv : v ∈ visitsUnder terrain sun edges) :=
    contains_of_mem_visitsUnder (Nat.zero_lt_of_lt hcell.2) hv
  rw [sweptCells, depthCells] at hrun
  cases hb : Raster.buffer terrain.shape (0.0 : Float32) with
  | error e =>
    rw [hb] at hrun
    cases hrun
  | ok blank =>
    rw [hb, Logged.ofExcept_ok_bind] at hrun
    rw [visitsUnder] at hin ⊢
    cases hbudget : budget? sun.toMotion terrain.shape edges with
    | none =>
      rw [hbudget] at hrun
      obtain rfl := Except.ok.inj hrun
      have hlit : depthCell none = 0.0 := by decide +kernel
      rw [Raster.buffer_eq_ok hb, Array.getElem?_replicate, if_pos hlt]
      exact congrArg some hlit.symm
    | some budget =>
      rw [hbudget] at hrun hin
      obtain rfl := Except.ok.inj hrun
      have hsize : (Array.replicate terrain.shape.size (none : Option Float)).size =
          terrain.shape.size := Array.size_replicate
      have hstart : depthAt (Array.replicate terrain.shape.size none) (terrain.shape.index cell) =
          0.0 := by
        rw [depthAt, Array.getElem?_replicate, if_pos hlt]
        rfl
      rw [sweptDepths, hc.sweptDepths_eq, getElem?_map_depthCell, depthAt_recordAll hin hcell hsize,
        hstart]
      · rfl
      · rw [size_recordAll, hsize]
        exact hlt

end Run

end Relief.Shadow
