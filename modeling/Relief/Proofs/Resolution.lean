import Relief.Geometry
import Relief.Proofs.Binary.Value
import Relief.Proofs.Logged

namespace Relief

open Binary

namespace Extent

structure Proper (extent : Extent Float) : Prop where
  xmin : extent.xmin.isFinite = true
  xmax : extent.xmax.isFinite = true
  ymin : extent.ymin.isFinite = true
  ymax : extent.ymax.isFinite = true
  x_lt : extent.xmin < extent.xmax
  y_lt : extent.ymin < extent.ymax

theorem proper_of_ofBounds {xmin xmax ymin ymax : Float} {extent : Extent Float}
    (h : ofBounds xmin xmax ymin ymax = .ok extent) : extent.Proper := by
  have hlt {a b : Float} (ha : a.isFinite = true) (hb : b.isFinite = true) (hle : ¬ b ≤ a) :
      a < b := by
    rw [le_iff_number hb ha, not_le] at hle
    exact (lt_iff_number ha hb).2 hle
  rw [ofBounds] at h
  split_ifs at h with hbounds
  obtain rfl := Except.ok.inj h
  obtain ⟨hall, hx, hy⟩ := hbounds
  have hfinite : ∀ v ∈ [xmin, xmax, ymin, ymax], v.isFinite = true := List.all_eq_true.1 hall
  have hxmin := hfinite xmin (by simp)
  have hxmax := hfinite xmax (by simp)
  have hymin := hfinite ymin (by simp)
  have hymax := hfinite ymax (by simp)
  exact ⟨hxmin, hxmax, hymin, hymax, hlt hxmin hxmax hx, hlt hymin hymax hy⟩

end Extent

namespace Projection

theorem classify_eq_geographic {extent : Extent Float} {cell : Spacing Float}
    (h : classify extent cell = .geographic) :
    (magnitude cell.y < 0.02 ∧ magnitude cell.x < 0.02) ∧ -180.01 < extent.xmin ∧
      extent.xmax < 180.01 ∧ -90.01 < extent.ymin ∧ extent.ymax < 90.01 := by
  rw [classify] at h
  split_ifs at h with hdegrees
  exact hdegrees

theorem classify_eq_projected {extent : Extent Float} {cell : Spacing Float}
    (h : classify extent cell = .projected) :
    (extent.xmin < -181.0 ∨ 181.0 < extent.xmax) ∧ (extent.ymin < -91.0 ∨ 91.0 < extent.ymax) := by
  rw [classify] at h
  split_ifs at h with _ hbeyond
  exact hbeyond

theorem classify_ne_mercator (extent : Extent Float) (cell : Spacing Float) (band : LatitudeBand) :
    classify extent cell ≠ .mercator band := by
  rw [classify]
  split_ifs <;> exact Projection.noConfusion

end Projection

namespace Geometry

variable {extent : Extent Float} {shape : Shape} {mercator : Option LatitudeBand}
  {native : Spacing Float} {projection : Projection} {geometry : Geometry}

theorem project_eq_ok (h : project extent native mercator = .ok projection) :
    (projection = .geographic ∧ Projection.classify extent native = .geographic) ∨
      (projection = .projected ∨ ∃ band, projection = .mercator band) ∧
        Projection.classify extent native = .projected := by
  have hread := Projection.classify_ne_mercator extent native
  unfold project at h
  cases hclass : Projection.classify extent native with
  | unknown =>
    rw [hclass] at h
    cases h
  | mercator band => exact absurd hclass (hread band)
  | geographic =>
    rw [hclass] at h
    cases mercator with
    | some band => cases h
    | none =>
      cases h
      exact .inl ⟨rfl, rfl⟩
  | projected =>
    rw [hclass] at h
    cases mercator with
    | some band =>
      cases h
      exact .inr ⟨.inr ⟨band, rfl⟩, rfl⟩
    | none =>
      cases h
      exact .inr ⟨.inl rfl, rfl⟩

end Geometry

section Resolved

variable [Trig Float] {extent : Extent Float} {shape : Shape} {mercator : Option LatitudeBand}
  {geometry : Geometry}

theorem isEmpty_of_resolve (h : (Geometry.resolve extent shape mercator).outcome = .ok geometry) :
    shape.isEmpty = false := by
  cases he : shape.isEmpty with
  | false => rfl
  | true =>
    rw [Geometry.resolve, he, if_pos rfl] at h
    cases h

/-- What a grid is once it is resolved. -/
theorem Geometry.resolve_eq_ok (h : (resolve extent shape mercator).outcome = .ok geometry) :
    geometry.native = extent.spacing shape ∧
      (0.0 < geometry.native.x ∧ 0.0 < geometry.native.y) ∧
      project extent geometry.native mercator = .ok geometry.projection ∧
      geometry.ground = groundSpacing extent geometry.native geometry.projection ∧
      geometry.advisories = (Advisory.ofSize extent geometry.projection).toList := by
  have hempty := isEmpty_of_resolve h
  rw [resolve, hempty, if_neg Bool.false_ne_true] at h
  by_cases hpos : 0.0 < (extent.spacing shape).x ∧ 0.0 < (extent.spacing shape).y
  · rw [if_pos hpos] at h
    cases hproject : project extent (extent.spacing shape) mercator with
    | error e =>
      rw [hproject] at h
      cases h
    | ok projection =>
      rw [hproject] at h
      cases h
      exact ⟨rfl, hpos, hproject, rfl, rfl⟩
  · rw [if_neg hpos] at h
    cases h

end Resolved

theorem Geometry.exists_of_ground {run : Except Error Geometry} {spacing : Spacing Float}
    (h : run.toOption.map (·.ground) = some spacing) :
    ∃ geometry, run = .ok geometry ∧ geometry.ground = spacing := by
  cases run with
  | ok geometry => exact ⟨geometry, rfl, Option.some.inj h⟩
  | error e => cases h

theorem Geometry.ground_of_resolved {run : Except Error Geometry} {spacing : Spacing Float}
    {geometry : Geometry} (h : run.toOption.map (·.ground) = some spacing)
    (hrun : run = .ok geometry) : geometry.ground = spacing := by
  rw [hrun] at h
  exact Option.some.inj h

end Relief
