import Relief.Advisory
import Relief.Proofs.Bearing

namespace Relief

open Real

namespace Ellipsoid

theorem eccentricity2_real : 0 < (eccentricity2 : ℝ) ∧ (eccentricity2 : ℝ) < 1 := by
  norm_num [eccentricity2]

theorem aspect_real (latitude : ℝ) : aspect latitude =
    Real.cos (toRadians latitude) * (1 - eccentricity2 * Real.sin (toRadians latitude) ^ 2) /
      (1 - eccentricity2) := by
  obtain ⟨h0, h1⟩ := eccentricity2_real
  let φ : ℝ := toRadians latitude
  let w : ℝ := 1 - eccentricity2 * Real.sin φ ^ 2
  have hw : 0 < w := by
    have hsin := Real.sin_sq_le_one φ
    change 0 < 1 - eccentricity2 * Real.sin φ ^ 2
    nlinarith
  have hroot : 0 < √w := Real.sqrt_pos.2 hw
  have ha : 0 < (semiMajor : ℝ) := by norm_num [semiMajor]
  have he : (1 - eccentricity2 : ℝ) ≠ 0 := by linarith
  have hone : (1.0 : ℝ) = 1 := by norm_num
  have h180 : (180.0 : ℝ) = 180 := by norm_num
  have hflattening : (1.0 : ℝ) - eccentricity2 * Trig.sin φ * Trig.sin φ = w := by
    rw [hone, mul_assoc, ← sq]
    rfl
  rw [aspect, degreeLengths, hflattening, hone, h180]
  change semiMajor / √w * Real.cos φ * (π / 180) /
    (semiMajor * (1 - eccentricity2) / (w * √w) * (π / 180)) = Real.cos φ * w / _
  field_simp

theorem aspect_neg (latitude : ℝ) : aspect (-latitude) = aspect latitude := by
  have hφ : toRadians (-latitude) = -toRadians latitude := by
    rw [toRadians_real, toRadians_real, neg_mul]
  rw [aspect_real, aspect_real, hφ, Real.cos_neg, Real.sin_neg, neg_sq]

theorem aspect_abs (latitude : ℝ) : aspect |latitude| = aspect latitude := by
  rcases abs_choice latitude with h | h
  · rw [h]
  · rw [h, aspect_neg]

theorem aspect_lt_of_cos_lt {x y : ℝ} (h : Real.cos (toRadians x) < Real.cos (toRadians y)) :
    aspect x < aspect y := by
  obtain ⟨h0, h1⟩ := eccentricity2_real
  rw [aspect_real, aspect_real, Real.sin_sq, Real.sin_sq]
  refine div_lt_div_of_pos_right ?_ (by linarith)
  have hcube : Real.cos (toRadians x) ^ 3 < Real.cos (toRadians y) ^ 3 :=
    (Odd.strictMono_pow (by decide)) h
  nlinarith

variable {x y : ℝ}

theorem strictAntiOn_aspect : StrictAntiOn (aspect : ℝ → ℝ) (Set.Icc 0 90.01) := by
  have hradians {z : ℝ} (hz : z ∈ Set.Icc (0 : ℝ) 90.01) : toRadians z ∈ Set.Icc 0 π := by
    have hpi := Real.pi_pos
    rw [toRadians_real]
    constructor <;> norm_num at hz <;> nlinarith
  intro x hx y hy hlt
  apply aspect_lt_of_cos_lt
  apply Real.strictAntiOn_cos (hradians hx) (hradians hy)
  rw [toRadians_real, toRadians_real]
  have hpi := Real.pi_pos
  nlinarith

theorem aspect_lt_of_abs_lt (h : |x| < |y|) (hy : |y| ≤ 90.01) : aspect y < aspect x := by
  rw [← aspect_abs x, ← aspect_abs y]
  exact strictAntiOn_aspect ⟨abs_nonneg x, h.le.trans hy⟩ ⟨abs_nonneg y, hy⟩ h

theorem aspect_le_of_abs_le (h : |x| ≤ |y|) (hy : |y| ≤ 90.01) : aspect y ≤ aspect x := by
  rw [← aspect_abs x, ← aspect_abs y]
  exact strictAntiOn_aspect.antitoneOn ⟨abs_nonneg x, h.trans hy⟩ ⟨abs_nonneg y, hy⟩ h

end Ellipsoid

namespace Advisory

open Ellipsoid

variable {extent : Extent ℝ} {cell : Spacing ℝ}

theorem polewardEdge_mem (h : extent.ymin ≤ extent.ymax) :
    polewardEdge extent ∈ Set.Icc extent.ymin extent.ymax := by
  rw [polewardEdge]
  split_ifs
  · exact ⟨h, le_rfl⟩
  · exact ⟨le_rfl, h⟩

theorem abs_le_polewardEdge {latitude : ℝ}
    (h : latitude ∈ Set.Icc extent.ymin extent.ymax) : |latitude| ≤ |polewardEdge extent| := by
  obtain ⟨hlo, hhi⟩ := h
  rw [polewardEdge, abs_le]
  split_ifs with hedge
  · have habs := le_abs_self extent.ymax
    constructor <;> linarith
  · have habs := neg_abs_le extent.ymin
    constructor <;> linarith

theorem edges_of_geographic (h : Projection.classify extent cell = .geographic) :
    -90.01 < extent.ymin ∧ extent.ymax < 90.01 := by
  rw [Projection.classify] at h
  split_ifs at h with hdegrees
  exact hdegrees.2.2.2

theorem isLeast_aspect (horder : extent.ymin ≤ extent.ymax)
    (hclass : Projection.classify extent cell = .geographic) :
    IsLeast (aspect '' Set.Icc extent.ymin extent.ymax) (aspect (polewardEdge extent)) := by
  obtain ⟨hlo, hhi⟩ := edges_of_geographic hclass
  have hmem := polewardEdge_mem horder
  have hedge : |polewardEdge extent| ≤ 90.01 :=
    abs_le.2 ⟨hlo.le.trans hmem.1, hmem.2.trans hhi.le⟩
  refine ⟨⟨_, hmem, rfl⟩, ?_⟩
  rintro _ ⟨latitude, hlatitude, rfl⟩
  exact aspect_le_of_abs_le (abs_le_polewardEdge hlatitude) hedge

theorem ofSize_geographic (extent : Extent ℝ) : ofSize extent .geographic =
    if aspect (polewardEdge extent) < 15 / 16 * aspect extent.centerY then
      some (.geographicTooTall (aspect extent.centerY) (aspect (polewardEdge extent)))
    else none := by
  have hlimit : aspect extent.centerY * (15.0 / 16.0) = 15 / 16 * aspect extent.centerY := by
    norm_num
    ring
  rw [ofSize, hlimit]

/-- A cell of one degree has the same shape on both sides of the equator and narrows strictly
poleward. The map of a box in degrees is found too tall exactly if a cell anywhere in it is narrower
by a sixteenth than at its centre, and the finding tells the shape of the narrowest one. -/
theorem tooTall_finds_narrowest :
    (∀ latitude : ℝ, aspect (-latitude) = aspect latitude) ∧
    (∀ x y : ℝ, |x| < |y| → |y| ≤ 90.01 → aspect y < aspect x) ∧
    ∀ (extent : Extent ℝ) (cell : Spacing ℝ), extent.ymin ≤ extent.ymax →
      Projection.classify extent cell = .geographic →
        let finding := ofSize extent (Projection.classify extent cell)
        ((∃ center edge, finding = some (.geographicTooTall center edge)) ↔
          ∃ latitude ∈ Set.Icc extent.ymin extent.ymax,
            aspect latitude < 15 / 16 * aspect extent.centerY) ∧
        ∀ advisory, finding = some advisory →
          ∃ edge, advisory = .geographicTooTall (aspect extent.centerY) edge ∧
            IsLeast (aspect '' Set.Icc extent.ymin extent.ymax) edge := by
  refine ⟨aspect_neg, fun x y => aspect_lt_of_abs_lt, ?_⟩
  intro extent cell horder hclass
  have hleast := isLeast_aspect horder hclass
  rw [hclass, ofSize_geographic]
  constructor
  · constructor
    · rintro ⟨center, edge, hfinding⟩
      split_ifs at hfinding with hnarrow
      exact ⟨polewardEdge extent, polewardEdge_mem horder, hnarrow⟩
    · rintro ⟨latitude, hlatitude, hnarrow⟩
      have hle := hleast.2 ⟨latitude, hlatitude, rfl⟩
      exact ⟨_, _, if_pos (hle.trans_lt hnarrow)⟩
  · intro advisory hfinding
    split_ifs at hfinding
    obtain rfl := Option.some.inj hfinding
    exact ⟨_, rfl, hleast⟩

/-- A box from the equator to 60 degrees north is found too tall, and the finding tells the shape of
its cells at 60 degrees. -/
theorem tooTall_finds_narrowest_sixty :
    let extent : Extent ℝ := ⟨-1, 0, 0, 60⟩
    let cell : Spacing ℝ := ⟨0.01, 0.01⟩
    extent.ymin ≤ extent.ymax ∧ Projection.classify extent cell = .geographic ∧
      (∃ center edge, ofSize extent (Projection.classify extent cell) =
        some (.geographicTooTall center edge)) ∧
      ∀ advisory, ofSize extent (Projection.classify extent cell) = some advisory →
        ∃ edge, advisory = .geographicTooTall (aspect extent.centerY) edge ∧
          IsLeast (aspect '' Set.Icc extent.ymin extent.ymax) edge := by
  intro extent cell
  have horder : extent.ymin ≤ extent.ymax := by norm_num [extent]
  have hclass : Projection.classify extent cell = .geographic := by
    norm_num [Projection.classify, magnitude, extent, cell]
  have hcenter : toRadians extent.centerY = π / 6 := by
    rw [toRadians_real, Extent.centerY]
    norm_num [extent]
    ring
  have hnorth : toRadians (60 : ℝ) = π / 3 := by
    rw [toRadians_real]
    ring
  have hnarrow : aspect (60 : ℝ) < 15 / 16 * aspect extent.centerY := by
    obtain ⟨h0, h1⟩ := eccentricity2_real
    have hroot : 17 / 10 < √3 := Real.lt_sqrt_of_sq_lt (by norm_num)
    rw [aspect_real, aspect_real, hcenter, hnorth, Real.sin_sq, Real.sin_sq, Real.cos_pi_div_six,
      Real.cos_pi_div_three, div_pow, div_pow, Real.sq_sqrt (by norm_num : (0 : ℝ) ≤ 3),
      ← mul_div_assoc]
    refine div_lt_div_of_pos_right ?_ (by linarith)
    nlinarith
  obtain ⟨hiff, htells⟩ := tooTall_finds_narrowest.2.2 extent cell horder hclass
  exact ⟨horder, hclass, hiff.2 ⟨60, ⟨by norm_num [extent], le_rfl⟩, hnarrow⟩, htells⟩

end Advisory

end Relief
