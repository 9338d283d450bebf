import Relief.Proofs.Binary.Iteration
import Relief.Proofs.Location
import Relief.Proofs.Shadow.March

namespace Relief.Shadow

open Binary

variable {terrain : Terrain Float} {motion : Motion Float} {rise : Float} {highest : Option Float}
  {mayMeet : Float → Bool} {locate : Position Float → Option Cell}
  {next : Position Float → Position Float} {cell : Cell} {z : Float} {n k : ℕ}

def placeAt (motion : Motion Float) (cell : Cell) (k : ℕ) : Position Float :=
  ⟨steps motion.x cell.col k, steps motion.y cell.row k⟩

theorem iterate_eq_placeAt (motion : Motion Float) (cell : Cell) (k : ℕ) :
    (fun p : Position Float => (⟨p.x + motion.x, p.y + motion.y⟩ : Position Float))^[k]
      cell.position = placeAt motion cell k := by
  induction k with
  | zero => rfl
  | succ k ih =>
    rw [Function.iterate_succ_apply', ih, placeAt, placeAt, steps_succ, steps_succ]

theorem walk_outOfSteps_iff {ray : Ray Float} {p : Position Float} :
    (walk locate next (marchVisit terrain rise mayMeet) n p ray).2 = .outOfSteps ↔
      ∀ k < n, (locate (next^[k] p)).isSome ∧ mayMeet (steps rise ray.height k) = true := by
  induction n generalizing p ray with
  | zero => simp [walk]
  | succ n ih =>
    rw [walk, Nat.forall_lt_succ_left]
    cases hp : locate p with
    | none => simp [hp]
    | some c =>
      by_cases hm : mayMeet ray.height = true
      · simp only [marchVisit, hm, if_true]
        rw [ih, and_iff_right ⟨by simp [hp], hm⟩]
        rfl
      · simp only [marchVisit, if_neg hm]
        apply iff_of_false (by simp)
        rintro ⟨⟨-, h⟩, -⟩
        exact hm h

theorem march_outOfSteps_iff :
    (march terrain motion rise mayMeet n cell z).2 = .outOfSteps ↔
      ∀ k < n, (terrain.shape.nearest (placeAt motion cell k)).isSome ∧
        mayMeet (steps rise z k) = true := by
  simp only [← iterate_eq_placeAt]
  exact walk_outOfSteps_iff

theorem below_congr {x y : Float} (h : below highest x = true) (hy : y.isNaN = false)
    (hv : value y = value x) : below highest y = true := by
  cases highest with
  | none => exact h
  | some m =>
    have hle := le_iff.1 (of_decide_eq_true h)
    exact decide_eq_true (le_iff.2 ⟨⟨hy, hle.1.2⟩, hv ▸ hle.2⟩)

theorem isNaN_of_below {x : Float} (h : below highest x = true) : x.isNaN = false := by
  cases highest with
  | none => cases h
  | some m => exact (le_iff.1 (of_decide_eq_true h)).1.1

theorem outOfSteps_of_held
    (hk : ∀ i ≤ k, (terrain.shape.nearest (placeAt motion cell i)).isSome ∧
      below highest (steps rise z i) = true)
    (hx : Held motion.x (placeAt motion cell k).x) (hy : Held motion.y (placeAt motion cell k).y)
    (hz : Held rise (steps rise z k)) (n : ℕ) :
    (march terrain motion rise (below highest) n cell z).2 = .outOfSteps := by
  rw [march_outOfSteps_iff]
  intro j _
  rcases le_total j k with hle | hle
  · exact hk j hle
  · obtain ⟨hgrid, hbelow⟩ := hk k le_rfl
    obtain ⟨hrow, hcol⟩ := Shape.isSome_nearest_iff.1 hgrid
    obtain ⟨-, hnx, hvx⟩ := hx.of_le hle
    obtain ⟨-, hny, hvy⟩ := hy.of_le hle
    obtain ⟨-, hnz, hvz⟩ := hz.of_le hle
    exact ⟨Shape.isSome_nearest_iff.2 ⟨hrow.congr hny hvy, hcol.congr hnx hvx⟩,
      below_congr hbelow hnz hvz⟩

/-- A march that goes on for so long is held in place. -/
theorem held_of_outOfSteps
    (h : ∀ k ≤ heldWithin, (terrain.shape.nearest (placeAt motion cell k)).isSome ∧
      below highest (steps rise z k) = true) :
    Held motion.x (placeAt motion cell heldWithin).x ∧
      Held motion.y (placeAt motion cell heldWithin).y ∧ Held rise (steps rise z heldWithin) := by
  have hline (k : ℕ) (hk : k ≤ heldWithin) := Shape.isSome_nearest_iff.1 (h k hk).1
  dsimp only [placeAt]
  exact ⟨held_within fun k hk => isNaN_of_isFinite (hline k hk).2.1,
    held_within fun k hk => isNaN_of_isFinite (hline k hk).1.1,
    held_within fun k hk => isNaN_of_below (h k hk).2⟩

/-- A march never ends if and only if it comes to a place on the grid, not above the highest cell,
from which its next step leads away on no axis. -/
theorem march_endless_iff (terrain : Terrain Float) (motion : Motion Float) (rise : Float)
    (highest : Option Float) (cell : Cell) (z : Float) :
    (∀ n, (march terrain motion rise (below highest) n cell z).2 = .outOfSteps) ↔
      ∃ k, (∀ i ≤ k, (terrain.shape.nearest (placeAt motion cell i)).isSome ∧
          below highest (steps rise z i) = true) ∧
        Held motion.x (placeAt motion cell k).x ∧ Held motion.y (placeAt motion cell k).y ∧
        Held rise (steps rise z k) := by
  constructor
  · intro h
    have hall (k : ℕ) := march_outOfSteps_iff.1 (h (k + 1)) k k.lt_succ_self
    obtain ⟨hx, hy, hz⟩ := held_of_outOfSteps fun k _ => hall k
    exact ⟨heldWithin, fun k _ => hall k, hx, hy, hz⟩
  · rintro ⟨k, hk, hx, hy, hz⟩ n
    exact outOfSteps_of_held hk hx hy hz n

/-- A march that ends at all has ended after `marchSteps` steps. -/
theorem march_ends_within
    (h : (march terrain motion rise (below highest) n cell z).2 ≠ .outOfSteps) :
    (march terrain motion rise (below highest) marchSteps cell z).2 ≠ .outOfSteps := by
  intro hout
  have hall (k : ℕ) (hk : k ≤ heldWithin) :=
    march_outOfSteps_iff.1 hout k (hk.trans_lt (by decide))
  obtain ⟨hx, hy, hz⟩ := held_of_outOfSteps hall
  exact h (outOfSteps_of_held hall hx hy hz n)

theorem march_of_ended (h : (march terrain motion rise (below highest) n cell z).2 ≠ .outOfSteps) :
    march terrain motion rise (below highest) marchSteps cell z =
      march terrain motion rise (below highest) n cell z := by
  rcases le_total n marchSteps with hle | hle
  · exact walk_of_ended h hle
  · exact (walk_of_ended (march_ends_within h) hle).symm

/-- What a march from a cell comes to if it is never given up: 1 for a void, otherwise the shade of
the volume that it has found at its end. -/
inductive Gives [Trig Float] (terrain : Terrain Float) (motion : Motion Float) (rise : Float)
    (highest : Option Float) (cell : Cell) : Float → Prop where
  | void (height : terrain.height cell = none) : Gives terrain motion rise highest cell 1.0
  | ended {z : Float} {n : ℕ} (height : terrain.height cell = some z)
      (ended : (march terrain motion rise (below highest) n cell z).2 ≠ .outOfSteps) :
      Gives terrain motion rise highest cell
        (volumeShade (march terrain motion rise (below highest) n cell z).1.volume)

/-- That marches are given up after `marchSteps` steps changes no shade. -/
theorem Gives.exactShade_eq [Trig Float] {shade : Float}
    (h : Gives terrain motion rise highest cell shade) :
    exactShade terrain motion rise highest cell = shade := by
  cases h with
  | void height => rw [exactShade, height]
  | ended height ended => rw [exactShade, height, ← march_of_ended ended]

theorem exists_gives_of_above [Trig Float] (h : terrain.height cell = some z)
    (hk : below highest (steps rise z k) = false) :
    ∃ shade, Gives terrain motion rise highest cell shade := by
  refine ⟨_, .ended (n := k + 1) h fun hout => ?_⟩
  have hbelow := (march_outOfSteps_iff.1 hout k k.lt_succ_self).2
  rw [hk] at hbelow
  cases hbelow

section Low

variable {dem : Raster Float32}

theorem below_highest_of_height (h : dem.terrain.height cell = some z) :
    below (dem.statistics.highest.map Sample.toFloat) z = true := by
  obtain ⟨m, hm, hn, hle⟩ := Raster.height_le_highest h
  rw [hm]
  exact decide_eq_true (le_iff.2 ⟨⟨(Raster.value_height h).1, hn⟩, hle⟩)

theorem not_below_highest {x : Float} (h : ∀ w ∈ dem.cells, ¬ x ≤ widen w) :
    below (dem.statistics.highest.map Sample.toFloat) x = false := by
  cases hm : dem.statistics.highest with
  | none => rfl
  | some m =>
    have hmem := (dem.describes_statistics.highest.mem m hm).1
    exact decide_eq_false (h m (Array.mem_toList_iff.1 hmem))

theorem exists_gives_of_low [Trig Float]
    (hlow : ∀ v ∈ dem.cells, ∀ w ∈ dem.cells, ¬ widen v + rise ≤ widen w) (cell : Cell) :
    ∃ shade, Gives dem.terrain motion rise (dem.statistics.highest.map Sample.toFloat) cell
      shade := by
  cases h : dem.terrain.height cell with
  | none => exact ⟨_, .void h⟩
  | some z =>
    obtain ⟨v, hv, -, rfl⟩ := Raster.exists_of_height h
    exact exists_gives_of_above (k := 1) h (not_below_highest (hlow v hv))

end Low

/-- Under a sun overhead a ray from a cell of height 1e38 is held at once: its step is too short to
be felt on any axis. -/
theorem march_endless_overhead :
    let dem : Raster Float32 :=
      ⟨⟨3, 1⟩, #[Sample.void, Sample.void, 1.0e38], .unit ⟨3, 1⟩, rfl, by decide⟩
    let sun : Sun Float := ⟨⟨0.0, -6.123233995736766e-17⟩, 1.0⟩
    ∃ z, dem.terrain.height ⟨2, 0⟩ = some z ∧ ∀ n, (march dem.terrain sun.toMotion sun.z
      (below (dem.statistics.highest.map Sample.toFloat)) n ⟨2, 0⟩ z).2 = .outOfSteps := by
  intro dem sun
  refine ⟨Sample.toFloat (1.0e38 : Float32), by decide +kernel, fun n => ?_⟩
  refine outOfSteps_of_held (k := 0) ?_ ?_ ?_ ?_ n
  · intro i hi
    obtain rfl : i = 0 := by omega
    decide +kernel
  · change (_ == _) = true
    decide +kernel
  · change (_ == _) = true
    decide +kernel
  · change (_ == _) = true
    decide +kernel

end Relief.Shadow
