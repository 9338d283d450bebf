import Relief.Proofs.Daylight
import Relief.Proofs.Finished

namespace Relief.Shadow

open Binary

variable {terrain : Terrain Float} {motion : Motion Float} {rise fall : Float}
  {highest : Option Float} {cell c : Cell} {z : Float}

/-- A cell of height `z` that no terrain overtops. -/
structure Summit (terrain : Terrain Float) (cell : Cell) (z : Float) : Prop where
  height : terrain.height cell = some z
  isNaN : z.isNaN = false
  contains : terrain.shape.Contains cell
  not_lt : ∀ c h, terrain.height c = some h → ¬ z < h

theorem summit_of_le {dem : Raster Float32} (hz : dem.terrain.height cell = some z)
    (htop : ∀ c h, dem.terrain.height c = some h → h ≤ z) : Summit dem.terrain cell z where
  height := hz
  isNaN := (Raster.value_height hz).1
  contains := Raster.contains_of_height hz
  not_lt c h hh hlt := absurd (lt_iff.1 hlt).2 (not_lt.2 (le_iff.1 (htop c h hh)).2)

section Exact

variable {mayMeet : Float → Bool} {n : ℕ}

theorem Summit.march_volume (hs : Summit terrain cell z) (hrise : ¬ rise < 0.0) :
    (march terrain motion rise mayMeet n cell z).1.volume = 0.0 := by
  have hclears : Clears terrain ⟨z, 0.0⟩ := hs.not_lt
  exact hclears.walk_volume hrise n _

theorem Summit.exactShade_eq [Trig Float] (hs : Summit terrain cell z) (hrise : ¬ rise < 0.0) :
    exactShade terrain motion rise highest cell = 0.0 := by
  rw [exactShade, hs.height]
  dsimp only
  rw [hs.march_volume hrise]
  exact if_pos (by decide)

end Exact

section Swept

variable {s : Sweep Float} {o : Outlook} {depths : Array (Option Float)} {d : Float}
  {edges : Edges} {budget : ℕ}

/-- A depth that shows no shade: zero, or no number. -/
def Shallow (d : Float) : Prop :=
  d = 0.0 ∨ d.isNaN = true

def Outlook.Under (z : Float) (o : Outlook) : Prop :=
  ∀ h, o.horizon = some h → ¬ z < h

theorem Outlook.Under.map_sub (ho : o.Under z) (hfall : ¬ fall < 0.0) (below : ℕ) :
    Outlook.Under z ⟨o.horizon.map (· - fall), below⟩ := by
  intro x hx
  obtain ⟨h, hh, rfl⟩ := Option.map_eq_some_iff.1 hx
  exact not_lt_sub (ho h hh) hfall

theorem Outlook.Under.pass (ho : o.Under z) (hs : Summit terrain cell z) (hfall : ¬ fall < 0.0)
    (c : Cell) : (o.pass fall (terrain.height c)).Under z := by
  cases hc : terrain.height c with
  | none => exact ho.map_sub hfall 0
  | some h =>
    rw [Outlook.pass]
    split_ifs
    · intro x hx
      obtain rfl := Option.some.inj hx
      exact not_lt_sub (hs.not_lt c h hc) hfall
    · exact ho.map_sub hfall _

/-- Ground under a horizon that is not above it is marked only if the horizon is no number. -/
theorem Outlook.Under.mark (ho : o.Under z) (hz : z.isNaN = false) (hd : o.mark (some z) = some d) :
    Shallow d := by
  obtain ⟨h, hh, hd⟩ := Option.bind_eq_some_iff.1 hd
  split_ifs at hd with hle hbelow
  · obtain rfl := Option.some.inj hd
    have hn : ¬ h.isNaN = false := fun hn => hle (le_of_not_lt_of_number hz hn (ho h hh))
    exact .inr (isNaN_sub_of_isNaN hn z)
  · exact .inl (Option.some.inj hd).symm

/-- Depths of a grid that show no shade at a cell. -/
structure Spared (shape : Shape) (cell : Cell) (depths : Array (Option Float)) : Prop where
  size : depths.size = shape.size
  shallow : Shallow (depthAt depths (shape.index cell))

theorem Summit.spared_visited (hs : Summit terrain cell z) (hfall : ¬ fall < 0.0)
    (hc : terrain.shape.Contains c) (hunder : (outlookOf s).Under z)
    (hspared : Spared terrain.shape cell s.depths) :
    (outlookOf (visited terrain fall s c)).Under z ∧
      Spared terrain.shape cell (visited terrain fall s c).depths := by
  refine ⟨hunder.pass hs hfall c, (size_record _).trans hspared.size, ?_⟩
  have hlt : terrain.shape.index c < s.depths.size := hspared.size ▸ Shape.index_lt hc
  change Shallow (depthAt (record s.depths _ _) _)
  rw [depthAt_record hlt]
  split_ifs with heq
  · obtain rfl := Shape.index_inj hc hs.contains heq
    cases hmark : (outlookOf s).mark (terrain.height c) with
    | none => exact hspared.shallow
    | some d => exact hunder.mark hs.isNaN (hs.height ▸ hmark)
  · exact hspared.shallow

theorem Summit.spared_sweep (hs : Summit terrain cell z) (hfall : ¬ fall < 0.0)
    (hspared : Spared terrain.shape cell depths) (seed : Cell) :
    Spared terrain.shape cell
      (sweep terrain motion fall highest edges budget depths seed).1.depths := by
  have hcols : 0 < terrain.shape.cols := Nat.zero_lt_of_lt hs.contains.2
  have hkept : (outlookOf (sweep terrain motion fall highest edges budget depths seed).1).Under z ∧
      Spared terrain.shape cell
        (sweep terrain motion fall highest edges budget depths seed).1.depths := by
    refine walk_keeps_of_touched (P := fun s : Sweep Float => (outlookOf s).Under z ∧
      Spared terrain.shape cell s.depths) budget _ ?_ ⟨nofun, hspared⟩
    intro c hc _ s t hvisit hkept
    have hin : terrain.shape.Contains c :=
      of_mem_touched (fun p c hp => Edges.contains_of_locate hcols hp) budget _ _ c hc
    rw [sweepStep_eq_some hvisit]
    exact hs.spared_visited hfall hin hkept.1 hkept.2
  exact hkept.2

theorem Summit.spared_sweptDepths (hs : Summit terrain cell z) (hfall : ¬ fall < 0.0) :
    Spared terrain.shape cell (sweptDepths terrain motion fall highest edges budget) := by
  rw [sweptDepths]
  refine List.foldlRecOn (motive := Spared terrain.shape cell) _ _ ?_ ?_
  · refine ⟨Array.size_replicate, .inl ?_⟩
    rw [depthAt, Array.getElem?_replicate, if_pos (Shape.index_lt hs.contains)]
    rfl
  · intro depths hspared seed _
    exact hs.spared_sweep hfall hspared seed

theorem depthCell_of_shallow (hd : Shallow d) : depthCell (some d) = 0.0 := by
  rcases hd with rfl | hd
  · exact depthCell_zero.1
  · have hnarrow : (narrow d).isNaN = true := by
      rw [narrow, unpack_of_isNaN (ne_false_of_eq_true hd)]
      decide
    exact if_pos hnarrow

theorem Summit.sweptCells_eq [Resources] {sun : Sun Float} {cells : Array Float32}
    (hs : Summit terrain cell z) (hfall : ¬ sun.z < 0.0)
    (hrun : (sweptCells terrain sun highest edges).outcome = .ok cells) :
    cells[terrain.shape.index cell]? = some 0.0 := by
  have hlt := Shape.index_lt hs.contains
  obtain ⟨blank, hblank, hrun⟩ := Logged.exists_of_bind_ok hrun
  cases hbudget : budget? sun.toMotion terrain.shape edges with
  | none =>
    rw [hbudget] at hrun
    obtain rfl := Except.ok.inj hrun
    rw [Raster.buffer_eq_ok hblank, Array.getElem?_replicate, if_pos hlt]
  | some budget =>
    rw [hbudget] at hrun
    obtain rfl := Except.ok.inj hrun
    have hspared : Spared terrain.shape cell (sweptDepths terrain sun.toMotion sun.z highest
      edges budget) := hs.spared_sweptDepths hfall
    rw [getElem?_map_depthCell (hlt.trans_eq hspared.size.symm)]
    exact congrArg some (depthCell_of_shallow hspared.shallow)

end Swept

theorem Summit.cast_eq [Trig Float] [Resources] (ht : SunTrig) {dem : Raster Float32}
    {params : ShadowParams} {shade : Shade} (hs : Summit dem.terrain cell z)
    (hrun : (cast dem params).outcome = .ok shade) : shade.raster.get? cell = some 0.0 := by
  obtain ⟨hvalid, geometry, cells, -, hcells, hget⟩ := cast_eq_ok hrun
  have hrise := ShadowParams.not_sinking ht hvalid geometry.ground
  rw [hget cell hs.contains]
  rw [castCells_eq] at hcells
  cases hmethod : params.method with
  | exact =>
    rw [hmethod] at hcells
    refine (getElem?_exactCells hcells dem.size_lt_wordValues hs.contains).trans ?_
    rw [exactCell, hs.exactShade_eq hrise]
    exact congrArg some (by decide +kernel)
  | fastSweep edges =>
    rw [hmethod] at hcells
    exact hs.sweptCells_eq hrise hcells

end Relief.Shadow
