import Relief.Machine
import Relief.Proofs.Shadow.LastFound

namespace Relief.Shadow

open Binary

variable {terrain : Terrain Float} {fall : Float} {highest : Option Float} {cell : Cell}
  {edges : Edges} {o : Outlook} {z d : Float}

theorem Castable.sweep_keeps (hc : Castable terrain fall highest) (motion : Motion Float)
    (edges : Edges) (budget : ℕ) (depths : Array (Option Float)) (seed : Cell) :
    (outlookOf (sweep terrain motion fall highest edges budget depths seed).1).Sound fall highest ∧
      (sweep terrain motion fall highest edges budget depths seed).2 ≠ .stopped := by
  have hstart : (outlookOf ⟨none, 0, depths⟩).Sound fall highest := fun _ h => by cases h
  exact walk_keeps (P := fun s => (outlookOf s).Sound fall highest)
    (fun _ c _ hs => hs.sweepStep (c := c)) (fun _ c hs => hs.visited (c := c) hc) budget _ hstart

theorem Outlook.Sound.horizon_le {h : Float} (ho : o.Sound fall highest) (hh : h ∈ o.horizon) :
    ∃ m ∈ highest, h ≤ m := by
  have hh := ho h hh
  obtain ⟨m, hm, hn, hle⟩ := hh.le
  exact ⟨m, hm, le_iff.2 ⟨⟨hh.isNaN, hn⟩, hle⟩⟩

/-- What a visit marks in terrain lies between zero and the relief above the terrain. -/
theorem Outlook.Sound.mark_bounds (ho : o.Sound fall highest) (hz : z.isFinite = true)
    (hd : o.mark (some z) = some d) : 0.0 ≤ d ∧ ∃ m ∈ highest, d ≤ m - z := by
  obtain ⟨hnz, hbz, htz⟩ := isFinite_iff.1 hz
  obtain ⟨h, hh, hd⟩ := Option.bind_eq_some_iff.1 hd
  obtain ⟨m, hm, hle⟩ := ho.horizon_le hh
  rw [ite_eq_iff, or_iff_right (fun h => by cases h.2)] at hd
  obtain ⟨hhz, hd⟩ := hd
  obtain rfl := Option.some.inj hd
  have hlt : z < h := by
    have hnh := (ho h hh).isNaN
    rw [lt_iff_of_number hnz hnh, ← not_le, ← le_iff_of_number hnh hnz]
    exact hhz
  obtain ⟨hn, hpos⟩ := value_sub_pos hlt hbz
  have h0 : 0.0 ≤ h - z := le_iff.2 ⟨⟨isNaN_zero, hn⟩, value_zero ▸ hpos.le⟩
  have hrelief : h - z ≤ m - z := by
    refine sub_mono hle ?_ hnz htz
    exact ne_bot_of_gt (lt_iff.1 hlt).2
  split_ifs
  · exact ⟨h0, m, hm, hrelief⟩
  · exact ⟨by decide, m, hm, trans_le h0 hrelief⟩

theorem depthCell_eq (hd : 0.0 ≤ d) : depthCell (some d) = narrow d :=
  if_neg (ne_true_of_eq_false (singleValue_narrow (le_iff.1 hd).1.2).1)

theorem mem_marksIn {visits : List Visit} (h : d ∈ marksIn terrain cell visits) :
    ∃ v ∈ visits, v.outlook.mark (terrain.height cell) = some d := by
  obtain ⟨v, hv, hd⟩ := List.mem_filterMap.1 h
  rw [Visit.markIn] at hd
  split_ifs at hd
  exact ⟨v, hv, hd⟩

theorem size_sweptCells [Resources] {sun : Sun Float} {cells : Array Float32}
    (hc : Castable terrain sun.z highest)
    (hrun : (sweptCells terrain sun highest edges).outcome = .ok cells) :
    cells.size = terrain.shape.size := by
  rw [sweptCells, depthCells] at hrun
  cases hb : Raster.buffer terrain.shape (0.0 : Float32) with
  | error e =>
    rw [hb] at hrun
    cases hrun
  | ok blank =>
    rw [hb, Logged.ofExcept_ok_bind] at hrun
    cases hbudget : budget? sun.toMotion terrain.shape edges with
    | none =>
      rw [hbudget] at hrun
      obtain rfl := Except.ok.inj hrun
      rw [Raster.buffer_eq_ok hb, Array.size_replicate]
    | some budget =>
      rw [hbudget] at hrun
      obtain rfl := Except.ok.inj hrun
      rw [Array.size_map, sweptDepths, hc.sweptDepths_eq, size_recordAll, Array.size_replicate]

theorem depthCell_of_void (sun : Sun Float) (edges : Edges) (h : terrain.height cell = none) :
    depthCell (marksIn terrain cell (visitsUnder terrain sun edges)).getLast? = 0.0 := by
  cases hlast : (marksIn terrain cell (visitsUnder terrain sun edges)).getLast? with
  | none => exact depthCell_zero.2
  | some d =>
    obtain ⟨v, -, hmark⟩ := mem_marksIn (List.mem_of_getLast? hlast)
    rw [h] at hmark
    obtain rfl := Option.some.inj hmark
    exact depthCell_zero.1

theorem depthCell_bounds {mark : Option Float} {r : Float} (hr : 0.0 ≤ r)
    (h : ∀ d ∈ mark, 0.0 ≤ d ∧ d ≤ r) :
    0.0 ≤ depthCell mark ∧ depthCell mark ≤ narrow r := by
  have hzero : narrow 0.0 = 0.0 := by decide +kernel
  cases mark with
  | none =>
    rw [depthCell_zero.2, ← hzero]
    exact ⟨by decide +kernel, narrow_mono hr⟩
  | some d =>
    obtain ⟨h0, hle⟩ := h d rfl
    rw [depthCell_eq h0, ← hzero]
    exact ⟨narrow_mono h0, narrow_mono hle⟩

/-- The shades of swept shadows keep within the relief: no horizon gets above the highest cell, so
that no sweep ends for that reason, and a shade is a number between zero and the height of the
highest cell over its own. -/
theorem sweptShade_le_relief [Resources] (dem : Raster Float32) (sun : Sun Float) (edges : Edges)
    (hrise : 0.0 ≤ sun.z)
    (hfinite : ∀ c h, dem.terrain.height c = some h → h.isFinite = true) :
    let highest := dem.statistics.highest.map Sample.toFloat
    (∀ budget depths seed,
      let swept := sweep dem.terrain sun.toMotion sun.z highest edges budget depths seed
      (∀ h ∈ swept.1.horizon, ∃ m ∈ highest, h ≤ m) ∧ swept.2 ≠ .stopped) ∧
    (dem.shape.size * Sample.width Float32 ≤ Resources.block →
      ∃ cells, (sweptCells dem.terrain sun highest edges).outcome = .ok cells) ∧
    ∀ cells, (sweptCells dem.terrain sun highest edges).outcome = .ok cells →
      cells.size = dem.shape.size ∧ ∀ cell, dem.shape.Contains cell →
        ∃ shade, cells[dem.shape.index cell]? = some shade ∧ shade.isNaN = false ∧
          (dem.terrain.height cell = none → shade = 0.0) ∧
          ∀ z, dem.terrain.height cell = some z →
            0.0 ≤ shade ∧ ∃ m ∈ highest, shade ≤ Sample.ofFloat (m - z) := by
  intro highest
  have hc : Castable dem.terrain sun.z highest := castable_of_dem hrise (.inr hfinite)
  refine ⟨fun budget depths seed => ?_,
    fun hroom => sweptCells_outcome hroom dem.size_lt_wordValues,
    fun cells hrun => ⟨size_sweptCells hc hrun, fun cell hcell => ?_⟩⟩
  · obtain ⟨hsound, hend⟩ := hc.sweep_keeps sun.toMotion edges budget depths seed
    exact ⟨fun h hh => hsound.horizon_le hh, hend⟩
  · have hshade := hc.getElem?_sweptCells hrun hcell
    have hsound : ∀ v ∈ visitsUnder dem.terrain sun edges, v.outlook.Sound sun.z highest :=
      fun v hv => hc.sound_of_mem hv
    cases hz : dem.terrain.height cell with
    | none =>
      have hlit := depthCell_of_void sun edges hz
      rw [hlit] at hshade
      exact ⟨_, hshade, by decide +kernel, fun _ => rfl, fun z h => nomatch h⟩
    | some z =>
      obtain ⟨m, hm, hnm, hle⟩ := Raster.height_le_highest hz
      obtain ⟨hn, hbot⟩ := Raster.value_height hz
      have hrelief : 0.0 ≤ m - z := nonneg_sub (le_iff.2 ⟨⟨hn, hnm⟩, hle⟩) (hfinite cell z hz)
      have hmarks : ∀ d ∈ (marksIn dem.terrain cell (visitsUnder dem.terrain sun edges)).getLast?,
          0.0 ≤ d ∧ d ≤ m - z := by
        intro d hd
        obtain ⟨v, hv, hmark⟩ := mem_marksIn (List.mem_of_getLast? hd)
        rw [hz] at hmark
        obtain ⟨h0, m', hm', hle⟩ := (hsound v hv).mark_bounds (hfinite cell z hz) hmark
        rw [Option.mem_unique hm' hm] at hle
        exact ⟨h0, hle⟩
      obtain ⟨h0, hle⟩ := depthCell_bounds hrelief hmarks
      refine ⟨_, hshade, (single_le_iff.1 h0).1.2, ?_, ?_⟩
      · rintro ⟨⟩
      · rintro z' ⟨⟩
        exact ⟨h0, m, hm, hle⟩

/-- A wall of height 20 in the west of a row: two cells behind it the shade is at most the 15 that
the wall stands out, and the void stays lit. -/
theorem sweptShade_le_relief_wall :
    let dem : Raster Float32 :=
      ⟨⟨1, 4⟩, #[20.0, 0.0, 5.0, Sample.void], .unit ⟨1, 4⟩, rfl, by decide⟩
    let sun : Sun Float := ⟨⟨-1.0, 0.0⟩, 1.0⟩
    let highest := dem.statistics.highest.map Sample.toFloat
    0.0 ≤ sun.z ∧ (∀ c h, dem.terrain.height c = some h → h.isFinite = true) ∧
      ∃ cells, ∃ shade : Float32,
        (sweptCells dem.terrain sun highest .bounded).outcome = .ok cells ∧
        cells[2]? = some shade ∧ 0.0 ≤ shade ∧ shade ≤ 15.0 ∧ cells[3]? = some (0.0 : Float32) := by
  intro dem sun highest
  have hrise : 0.0 ≤ sun.z := by decide +kernel
  have hfinite : ∀ c h, dem.terrain.height c = some h → h.isFinite = true := by
    intro c h hh
    obtain ⟨v, hv, -, rfl⟩ := Raster.exists_of_height hh
    have hall : ∀ v ∈ dem.cells, (widen v).isFinite = true := by decide +kernel
    exact hall v hv
  obtain ⟨-, hroom, hcells⟩ := sweptShade_le_relief dem sun .bounded hrise hfinite
  obtain ⟨cells, hrun⟩ := hroom (by decide)
  obtain ⟨-, hcells⟩ := hcells cells hrun
  obtain ⟨shade, hshade, -, -, hbounds⟩ := hcells ⟨0, 2⟩ (by decide)
  obtain ⟨dark, hdark, -, hlit, -⟩ := hcells ⟨0, 3⟩ (by decide)
  obtain ⟨h0, m, hm, hle⟩ := hbounds 5.0 (by decide +kernel)
  have hhighest : dem.statistics.highest.map Sample.toFloat = some 20.0 := by decide +kernel
  have hrelief : (Sample.ofFloat (20.0 - 5.0 : Float) : Float32) = 15.0 := by decide +kernel
  obtain rfl := Option.mem_unique hm hhighest
  rw [hrelief] at hle
  rw [hlit (by decide +kernel)] at hdark
  exact ⟨hrise, hfinite, cells, shade, hrun, hshade, h0, hle, hdark⟩

end Relief.Shadow
