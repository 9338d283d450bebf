import Relief.Proofs.Raster
import Relief.Proofs.Shadow.March

namespace Relief.Shadow

open Binary

variable {terrain raised : Terrain Float} {rise : Float} {ray ray' : Ray Float} {c : Cell}

/-- The second terrain has a height wherever the first one has, and none lower. -/
def Raises (terrain raised : Terrain Float) : Prop :=
  ∀ c z, terrain.height c = some z → ∃ z', raised.height c = some z' ∧ z ≤ z'

/-- The second ray is no higher than the first and has found no less volume. -/
structure Outdone (ray ray' : Ray Float) : Prop where
  height : ray'.height ≤ ray.height
  volume : ray.volume ≤ ray'.volume

/-- What is added at a cell is no less where the terrain is higher and the ray lower. -/
theorem Outdone.pass_volume (h : Outdone ray ray') (hr : Steady ray) {z z' : Float}
    (hz : ray.height < z) (hzz : z ≤ z') :
    (ray.pass (some z)).volume ≤ (ray'.pass (some z')).volume := by
  have hz' : ray'.height < z' := trans_le_lt h.height (trans_lt_le hz hzz)
  rw [Ray.pass, Ray.pass, if_pos hz, if_pos hz']
  have hbot : value ray.volume ≠ ⊥ := by
    have h0 := (le_iff.1 hr.nonneg).2
    rw [value_zero] at h0
    exact ne_bot_of_gt (EReal.bot_lt_zero.trans_le h0)
  have hexcess : z - ray.height ≤ z' - ray'.height := by
    apply sub_mono_anti hzz h.height
    · exact ne_bot_of_gt (lt_iff.1 hz).2
    · exact ne_top_of_lt (lt_iff.1 hz).2
  apply add_mono h.volume hexcess hbot
  exact ne_bot_of_gt (EReal.bot_lt_zero.trans (value_sub_pos hz hr.ne_bot).2)

theorem Outdone.advance (h : Outdone ray ray') (hr : Steady ray) (hr' : Steady ray')
    (hrise : 0.0 ≤ rise) (hraises : Raises terrain raised) (c : Cell) :
    Outdone (advance terrain rise ray c) (advance raised rise ray' c) := by
  have hnot := not_neg_of_nonneg hrise
  constructor
  · have hself : rise ≤ rise := le_self_of_number (le_iff.1 hrise).1.2
    have h0 := (le_iff.1 hrise).2
    rw [value_zero] at h0
    exact add_mono h.height hself hr'.ne_bot
      (ne_bot_of_gt (EReal.bot_lt_zero.trans_le h0))
  · by_cases hz : ∃ z, terrain.height c = some z ∧ ray.height < z
    · obtain ⟨z, hz, hlt⟩ := hz
      obtain ⟨z', hz', hle⟩ := hraises c z hz
      have hv := h.pass_volume hr hlt hle
      rw [← hz, ← hz'] at hv
      exact hv
    -- the first ray adds nothing, and the second never loses what it has
    · have hv : (ray.pass (terrain.height c)).volume = ray.volume :=
        pass_volume_of_not_lt fun z h hlt => hz ⟨z, h, hlt⟩
      obtain ⟨hs', hle'⟩ := hr'.advance hnot raised c
      change (ray.pass (terrain.height c)).volume ≤ _
      rw [hv]
      apply trans_le h.volume
      exact le_iff.2 ⟨⟨(le_iff.1 h.volume).1.2, (le_iff.1 hs'.nonneg).1.2⟩, hle'⟩

theorem Outdone.foldl (h : Outdone ray ray') (hr : Steady ray) (hr' : Steady ray')
    (hrise : 0.0 ≤ rise) (hraises : Raises terrain raised) (cells : List Cell) :
    Outdone (cells.foldl (Shadow.advance terrain rise) ray)
      (cells.foldl (Shadow.advance raised rise) ray') := by
  induction cells generalizing ray ray' with
  | nil => exact h
  | cons c cells ih =>
    have hnot := not_neg_of_nonneg hrise
    rw [List.foldl_cons, List.foldl_cons]
    exact ih (h.advance hr hr' hrise hraises c) (hr.advance hnot terrain c).1
      (hr'.advance hnot raised c).1

variable {dem raisedDem : Raster Float32} {cell : Cell} {z z' : Float}

theorem Outdone.march (hrise : 0.0 ≤ rise) (hz : dem.terrain.height cell = some z)
    (hz' : raisedDem.terrain.height cell = some z') (hsame : (z == z') = true)
    (hraises : Raises dem.terrain raisedDem.terrain) (cells : List Cell) :
    Outdone (cells.foldl (Shadow.advance dem.terrain rise) ⟨z, 0.0⟩)
      (cells.foldl (Shadow.advance raisedDem.terrain rise) ⟨z', 0.0⟩) := by
  obtain ⟨⟨hn, hn'⟩, hv⟩ := beq_iff.1 hsame
  have hstart : Outdone ⟨z, 0.0⟩ ⟨z', 0.0⟩ :=
    ⟨le_iff.2 ⟨⟨hn', hn⟩, hv.ge⟩, (steady_start hz).nonneg⟩
  exact hstart.foldl (steady_start hz) (steady_start hz') hrise hraises cells

/-- Where the terrain is nowhere lower and the cell as high as before, a march that ends finds no
less volume, so a cell in shadow stays in shadow. Voids may have become anything. -/
theorem march_volume_raised (sun : Sun Float) (hrise : 0.0 ≤ sun.z)
    (hshape : raisedDem.shape = dem.shape) (hz : dem.terrain.height cell = some z)
    (hz' : raisedDem.terrain.height cell = some z') (hsame : (z == z') = true)
    (hraises : Raises dem.terrain raisedDem.terrain) :
    let cutOff := fun (r : Raster Float32) (n : ℕ) (z : Float) =>
      march r.terrain sun.toMotion sun.z (below (r.statistics.highest.map Sample.toFloat)) n cell z
    ∀ n m, (cutOff dem n z).2 ≠ .outOfSteps → (cutOff raisedDem m z').2 ≠ .outOfSteps →
      (cutOff dem n z).1.volume ≤ (cutOff raisedDem m z').1.volume ∧
        (0.0 < (cutOff dem n z).1.volume → 0.0 < (cutOff raisedDem m z').1.volume) := by
  intro cutOff n m hn hm
  have hnot := not_neg_of_nonneg hrise
  -- both marches are followed to the edge of the grid, over as many steps
  have hv := march_volume_of_ended hnot hn (le_max_left n m)
  have hv' := march_volume_of_ended hnot hm (le_max_right n m)
  rw [march_plain_eq_foldl] at hv hv'
  -- the places of a march depend on the shape alone
  have hpath : marchPath raisedDem.terrain sun.toMotion (max n m) cell =
      marchPath dem.terrain sun.toMotion (max n m) cell := by
    change path raisedDem.shape.nearest _ _ _ = path dem.shape.nearest _ _ _
    rw [hshape]
  have hle : (cutOff dem n z).1.volume ≤ (cutOff raisedDem m z').1.volume := by
    dsimp only [cutOff]
    rw [← hv, ← hv', hpath]
    exact (Outdone.march hrise hz hz' hsame hraises _).volume
  exact ⟨hle, fun hpos => trans_lt_le hpos hle⟩

theorem march_volume_raised_walls :
    let dem : Raster Float32 := ⟨⟨1, 3⟩, #[0.0, -1.0e38, 4.0], .unit ⟨1, 3⟩, rfl, by decide⟩
    let walled : Raster Float32 := ⟨⟨1, 3⟩, #[0.0, 5.0, 4.0], .unit ⟨1, 3⟩, rfl, by decide⟩
    let sun : Sun Float := ⟨⟨1.0, 0.0⟩, 1.0⟩
    let cutOff := fun r : Raster Float32 =>
      march r.terrain sun.toMotion sun.z (below (r.statistics.highest.map Sample.toFloat)) 4
        ⟨0, 0⟩ 0.0
    Raises dem.terrain walled.terrain ∧ (cutOff dem).1.volume = 2.0 ∧
      (cutOff walled).1.volume = 6.0 ∧ 0.0 < (cutOff walled).1.volume := by
  intro dem walled sun cutOff
  have h0 : dem.terrain.height ⟨0, 0⟩ = some 0.0 := by decide +kernel
  have h0' : walled.terrain.height ⟨0, 0⟩ = some 0.0 := by decide +kernel
  have hraises : Raises dem.terrain walled.terrain := by
    intro c z hz
    obtain ⟨hrow, hcol⟩ := Raster.contains_of_height hz
    obtain ⟨row, col⟩ := c
    obtain rfl : row = 0 := Nat.lt_one_iff.1 hrow
    obtain rfl | rfl | rfl : col = 0 ∨ col = 1 ∨ col = 2 := by
      change col < 3 at hcol
      omega
    · obtain rfl := Option.some.inj (h0.symm.trans hz)
      exact ⟨0.0, by decide +kernel, by decide +kernel⟩
    · have hvoid : dem.terrain.height ⟨0, 1⟩ = none := by decide +kernel
      rw [hvoid] at hz
      cases hz
    · have h4 : dem.terrain.height ⟨0, 2⟩ = some 4.0 := by decide +kernel
      obtain rfl := Option.some.inj (h4.symm.trans hz)
      exact ⟨4.0, by decide +kernel, by decide +kernel⟩
  have hraised := @march_volume_raised dem walled ⟨0, 0⟩ 0.0 0.0 sun (by decide +kernel) rfl h0 h0'
    (by decide +kernel) hraises 4 4 (by decide +kernel) (by decide +kernel)
  exact ⟨hraises, by decide +kernel, by decide +kernel, hraised.2 (by decide +kernel)⟩

end Relief.Shadow
