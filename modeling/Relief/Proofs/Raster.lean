import Relief.Terrain
import Relief.Proofs.Grid

namespace Relief

namespace Raster

section

variable {τ : Type} {r : Raster τ} {cells : Array τ} {shape : Shape} {extent : Extent Float}
  {cell : Cell}

theorem get?_of_not_contains (h : ¬ r.shape.Contains cell) : r.get? cell = none :=
  if_neg h

theorem getElem?_cells {i : ℕ} (h : i < r.shape.size) :
    r.cells[i]? = r.get? (r.shape.cellAt i) := by
  rw [get?, if_pos (Shape.contains_cellAt h), Shape.index_cellAt]

theorem size_lt_wordValues (r : Raster τ) : r.shape.size < wordValues :=
  r.size_le_limit.trans_lt (by decide)

theorem set_eq_ok {s : Raster τ} {v : τ} (h : r.set cell v = .ok s) :
    r.shape.Contains cell ∧ s.shape = r.shape ∧
      s.cells = r.cells.setIfInBounds (r.shape.index cell) v := by
  rw [set] at h
  split_ifs at h with hcell
  cases h
  exact ⟨hcell, rfl, rfl⟩

theorem get?_set {s : Raster τ} {v : τ} (h : r.set cell v = .ok s) (other : Cell) :
    s.get? other = if other = cell then some v else r.get? other := by
  obtain ⟨hcell, hshape, hcells⟩ := set_eq_ok h
  rw [get?, get?, hshape, hcells]
  by_cases heq : other = cell
  · rw [heq, if_pos hcell, if_pos rfl, Array.getElem?_setIfInBounds_self, r.size_cells,
      if_pos (Shape.index_lt hcell)]
  · rw [if_neg heq]
    split_ifs with hother
    · have hne : r.shape.index cell ≠ r.shape.index other :=
        fun hindex => heq (Shape.index_inj hother hcell hindex.symm)
      exact Array.getElem?_setIfInBounds_ne hne
    · rfl

theorem ofCells_eq_ok (h : ofCells cells shape = .ok r) :
    (0 < shape.rows ∧ 0 < shape.cols) ∧
      r.shape = shape ∧ r.cells = cells ∧ r.extent = .unit shape := by
  rw [ofCells] at h
  split_ifs at h with hrefused
  · cases h
    rw [Bool.or_eq_true, not_or, Bool.not_eq_true] at hrefused
    exact ⟨Shape.isEmpty_eq_false.1 hrefused.1, rfl, rfl, rfl⟩

theorem ofElevations_eq_map : ofElevations cells shape extent =
    (ofCells cells shape).map fun r => { r with extent := extent } := by
  rw [ofElevations]
  cases ofCells cells shape with
  | error e => rfl
  | ok r => rfl

theorem ofElevations_eq_ok (h : ofElevations cells shape extent = .ok r) :
    (0 < shape.rows ∧ 0 < shape.cols) ∧ r.shape = shape ∧ r.cells = cells ∧ r.extent = extent := by
  rw [ofElevations_eq_map] at h
  cases hbuilt : ofCells cells shape with
  | error e =>
    rw [hbuilt] at h
    cases h
  | ok s =>
    rw [hbuilt] at h
    obtain ⟨hpos, hshape, hcells, -⟩ := ofCells_eq_ok hbuilt
    cases h
    exact ⟨hpos, hshape, hcells, rfl⟩

theorem ofElevations_eq (h : r.shape.isEmpty = false) (hsize : cells.size = r.shape.size) :
    ofElevations cells r.shape extent = .ok ⟨r.shape, cells, extent, hsize, r.size_le_limit⟩ := by
  have hword : cells.size = r.shape.wordSize := by
    rw [hsize, Shape.wordSize, Nat.mod_eq_of_lt r.size_lt_wordValues]
  rw [ofElevations, ofCells, if_neg (by simp [h, hword]), dif_pos ⟨hsize, r.size_le_limit⟩]
  rfl

end

section

variable {τ : Type} [Resources] [Sample τ] {shape : Shape}

theorem buffer_of_le (h : shape.size * Sample.width τ ≤ Resources.block)
    (hword : shape.size < wordValues) (v : τ) :
    buffer shape v = .ok (Array.replicate shape.size v) := by
  rw [buffer, if_neg (not_le.2 hword), if_neg (not_lt.2 h)]

theorem buffer_eq_ok {v : τ} {blank : Array τ} (h : buffer shape v = .ok blank) :
    blank = Array.replicate shape.size v := by
  rw [buffer] at h
  split_ifs at h
  exact (Except.ok.inj h).symm

end

section Filled

variable {τ : Type} [Sample τ] {raster : Raster τ} {shape : Shape} {cell : Cell} {v : τ}

theorem exists_filled (h : shape.size ≤ addressLimit ∧
    max 1 shape.rows * max 1 shape.cols ≤ addressLimit ∧
    shape.size * Sample.width τ ≤ addressLimit) :
    ∃ raster : Raster τ, filled shape v = .ok raster ∧ raster.shape = shape := by
  rw [filled, dif_pos h]
  exact ⟨_, rfl, rfl⟩

theorem extent_filled (h : filled shape v = .ok raster) : raster.extent = .unit raster.shape := by
  rw [filled] at h
  split_ifs at h
  cases h
  rfl

theorem cells_filled (h : filled shape v = .ok raster) : ∀ w ∈ raster.cells, w = v := by
  rw [filled] at h
  split_ifs at h
  cases h
  intro w hw
  exact (Array.mem_replicate.1 hw).2

theorem get?_filled (h : filled shape v = .ok raster) (hcell : raster.shape.Contains cell) :
    raster.get? cell = some v := by
  have hindex : raster.shape.index cell < raster.cells.size := by
    rw [raster.size_cells]
    exact Shape.index_lt hcell
  rw [get?, if_pos hcell, Array.getElem?_eq_getElem hindex]
  exact congrArg some (cells_filled h _ (Array.getElem_mem hindex))

end Filled

variable {shape : Shape} {cell : Cell}

/-- A raster over the box of another whose cells are those of a table. -/
def tabulated (r : Raster Float32) (f : Cell → Float32) : Raster Float32 :=
  ⟨r.shape, r.shape.table f, r.extent, Shape.size_table, r.size_le_limit⟩

theorem get?_tabulated {r : Raster Float32} {f : Cell → Float32}
    (h : r.shape.Contains cell) : (r.tabulated f).get? cell = some (f cell) :=
  (if_pos h).trans (Shape.getElem?_table h)

theorem ofElevations_table {r : Raster Float32} (h : r.shape.isEmpty = false)
    (f : Cell → Float32) :
    ofElevations (r.shape.table f) r.shape r.extent = .ok (r.tabulated f) :=
  ofElevations_eq h Shape.size_table

theorem height_eq (r : Raster Float32) (cell : Cell) : r.terrain.height cell =
    (r.get? cell).bind fun v => if Sample.isVoid v then none else some (Sample.toFloat v) := by
  rw [terrain, get?]
  dsimp only
  split_ifs with h
  · rw [Array.getElem?_map]
    cases r.cells[r.shape.index cell]? with
    | none => rfl
    | some v => rfl
  · rfl

theorem height_filled {r : Raster Float32} {v : Float32} (h : filled shape v = .ok r)
    (hv : Sample.isVoid v = false) (hcell : r.shape.Contains cell) :
    r.terrain.height cell = some (Sample.toFloat v) := by
  rw [height_eq, get?_filled h hcell, Option.bind_some, hv]
  rfl

theorem height_set {r s : Raster Float32} {v : Float32} (h : r.set cell v = .ok s)
    (other : Cell) : s.terrain.height other =
      if other = cell then (if Sample.isVoid v then none else some (Sample.toFloat v))
      else r.terrain.height other := by
  rw [height_eq, height_eq, get?_set h]
  by_cases heq : other = cell
  · rw [if_pos heq, if_pos heq, Option.bind_some]
  · rw [if_neg heq, if_neg heq]

theorem contains_of_height {r : Raster Float32} {z : Float} (h : r.terrain.height cell = some z) :
    r.shape.Contains cell := by
  by_contra hc
  rw [terrain] at h
  dsimp only at h
  rw [if_neg hc] at h
  cases h

end Raster

end Relief
