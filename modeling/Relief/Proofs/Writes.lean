import Relief.Proofs.Raster

namespace Relief

def Shape.written {τ : Type} (shape : Shape) (cells : List τ) (writes : List (Cell × τ)) : List τ :=
  (writes.filter fun w => shape.Contains w.1).foldl
    (fun cells w => cells.set (w.1.row * shape.cols + w.1.col) w.2) cells

namespace Raster

variable {τ : Type} {r : Raster τ} {shape : Shape} {extent : Extent Float} {cells : List τ}
  {cell : Cell} {v : τ}

def write (r : Raster τ) (w : Cell × τ) : Raster τ :=
  match r.set w.1 w.2 with
  | .ok s => s
  | .error _ => r

def written (r : Raster τ) (writes : List (Cell × τ)) : Raster τ :=
  writes.foldl write r

/-- A raster over a box is the list `cells` in row-major order. -/
structure Lists (r : Raster τ) (shape : Shape) (extent : Extent Float) (cells : List τ) : Prop where
  shape_eq : r.shape = shape
  extent_eq : r.extent = extent
  rows_pos : 0 < shape.rows
  cols_pos : 0 < shape.cols
  length_eq : shape.rows * shape.cols = cells.length
  toList_eq : r.cells.toList = cells

/-- Within the grid a cell is read and written at its position, and no other changes. -/
structure Reaches (r : Raster τ) (shape : Shape) (extent : Extent Float) (cells : List τ)
    (cell : Cell) (v : τ) : Prop where
  get_eq : ∃ value, cells[cell.row * shape.cols + cell.col]? = some value ∧ r.get cell = .ok value
  set_eq : ∃ s, r.set cell v = .ok s ∧ r.write (cell, v) = s ∧
    s.Lists shape extent (cells.set (cell.row * shape.cols + cell.col) v) ∧
    ∀ other, s.get other = if other = cell then .ok v else r.get other

/-- Beyond the grid a cell is refused alike whether read or written. -/
structure Refuses (r : Raster τ) (shape : Shape) (cell : Cell) (v : τ) : Prop where
  get_eq : r.get cell = .error (.indexOutOfBounds cell shape)
  set_eq : r.set cell v = .error (.indexOutOfBounds cell shape)
  write_eq : r.write (cell, v) = r

theorem lists_ofElevations {data : Array τ} (h : ofElevations data shape extent = .ok r) :
    r.Lists shape extent data.toList := by
  obtain ⟨⟨hrows, hcols⟩, hshape, hcells, hextent⟩ := ofElevations_eq_ok h
  have hsize : r.cells.size = shape.rows * shape.cols := by
    rw [r.size_cells, hshape, Shape.size]
  refine ⟨hshape, hextent, hrows, hcols, ?_, congrArg Array.toList hcells⟩
  rw [← hsize, hcells, Array.length_toList]

theorem lists_ofCells {data : Array τ} (h : ofCells data shape = .ok r) :
    r.Lists shape (.unit shape) data.toList := by
  obtain ⟨-, -, -, hextent⟩ := ofCells_eq_ok h
  apply lists_ofElevations
  rw [ofElevations_eq_map, h, ← hextent]
  rfl

theorem Lists.refuses (h : r.Lists shape extent cells) (hout : ¬ shape.Contains cell) :
    r.Refuses shape cell v := by
  cases h.shape_eq
  have hset : r.set cell v = .error (.indexOutOfBounds cell r.shape) := if_neg hout
  refine ⟨?_, hset, ?_⟩
  · rw [get, get?_of_not_contains hout]
  · rw [write, hset]

theorem Lists.index_lt (h : r.Lists shape extent cells) (hin : shape.Contains cell) :
    shape.index cell < cells.length :=
  h.length_eq ▸ Shape.index_lt hin

theorem Lists.get?_eq (h : r.Lists shape extent cells) (hin : shape.Contains cell) :
    r.get? cell = cells[shape.index cell]? := by
  cases h.shape_eq
  rw [get?, if_pos hin, ← h.toList_eq, Array.getElem?_toList]

theorem Lists.set (h : r.Lists shape extent cells) (hin : shape.Contains cell) (v : τ) :
    ∃ s, r.set cell v = .ok s ∧ s.Lists shape extent (cells.set (shape.index cell) v) := by
  obtain ⟨rfl, hextent, hrows, hcols, hlength, rfl⟩ := h
  refine ⟨_, if_pos hin, rfl, hextent, hrows, hcols, ?_, Array.toList_setIfInBounds⟩
  rw [List.length_set, hlength]

theorem Lists.get_set {s : Raster τ} (h : r.Lists shape extent cells)
    (hs : s.Lists shape extent (cells.set (shape.index cell) v)) (hin : shape.Contains cell)
    (other : Cell) : s.get other = if other = cell then .ok v else r.get other := by
  by_cases hother : shape.Contains other
  · rw [get, get, hs.get?_eq hother, h.get?_eq hother]
    split_ifs with heq
    · rw [heq, List.getElem?_set_self (h.index_lt hin)]
    · have hne : shape.index cell ≠ shape.index other :=
        fun hindex => heq (Shape.index_inj hother hin hindex.symm)
      rw [List.getElem?_set_ne hne, hs.shape_eq, h.shape_eq]
  · have hne : other ≠ cell := by
      intro heq
      exact hother (heq ▸ hin)
    rw [if_neg hne, (hs.refuses hother (v := v)).get_eq, (h.refuses hother (v := v)).get_eq]

theorem Lists.reaches (h : r.Lists shape extent cells) (hin : shape.Contains cell) :
    r.Reaches shape extent cells cell v := by
  constructor
  · have hvalue := List.getElem?_eq_getElem (h.index_lt hin)
    refine ⟨_, hvalue, ?_⟩
    rw [get, h.get?_eq hin, hvalue]
  · obtain ⟨s, hset, hs⟩ := h.set hin v
    refine ⟨s, hset, ?_, hs, h.get_set hs hin⟩
    rw [write, hset]

theorem Lists.restores (h : r.Lists shape extent cells) :
    ofElevations r.cells shape extent = .ok r := by
  obtain ⟨rfl, rfl, hrows, hcols, -, -⟩ := h
  exact ofElevations_eq (Shape.isEmpty_eq_false.2 ⟨hrows, hcols⟩) r.size_cells

theorem Lists.written (h : r.Lists shape extent cells) (writes : List (Cell × τ)) :
    (r.written writes).Lists shape extent (shape.written cells writes) := by
  -- A write that is made moves the list along; one that is refused is filtered out of it.
  induction writes generalizing r cells with
  | nil => exact h
  | cons w writes ih =>
    rw [Raster.written, List.foldl_cons, Shape.written, List.filter_cons]
    by_cases hin : shape.Contains w.1
    · obtain ⟨s, -, hwrite, hs, -⟩ := (h.reaches hin (v := w.2)).set_eq
      rw [if_pos (decide_eq_true hin), List.foldl_cons, hwrite]
      exact ih hs
    · rw [if_neg (by simpa using hin), (h.refuses hin).write_eq]
      exact ih h

/-- Through all writes, made or refused, a raster stays the list that the writes make of the cells
it was built from, and can be built again from that. -/
theorem writes_refine_list {data : Array τ}
    (hbuilt : ofCells data shape = .ok r ∧ extent = .unit shape ∨
      ofElevations data shape extent = .ok r) (writes : List (Cell × τ)) :
    (r.written writes).Lists shape extent (shape.written data.toList writes) ∧
      (∀ cell v, shape.Contains cell →
        (r.written writes).Reaches shape extent (shape.written data.toList writes) cell v) ∧
      (∀ cell v, ¬ shape.Contains cell → (r.written writes).Refuses shape cell v) ∧
      ofElevations (r.written writes).cells shape extent = .ok (r.written writes) := by
  have hlists : r.Lists shape extent data.toList := by
    cases hbuilt with
    | inl h => exact h.2 ▸ lists_ofCells h.1
    | inr h => exact lists_ofElevations h
  have hwritten := hlists.written writes
  exact ⟨hwritten, fun _ _ hin => hwritten.reaches hin, fun _ _ hout => hwritten.refuses hout,
    hwritten.restores⟩

theorem writes_refine_list_six :
    ∃ r : Raster Float32, ofCells #[1, 2, 3, 4, 5, 6] ⟨2, 3⟩ = .ok r ∧
      (r.written [(⟨1, 0⟩, 9), (⟨2, 0⟩, 7)]).Lists ⟨2, 3⟩ (.unit ⟨2, 3⟩) [1, 2, 3, 9, 5, 6] ∧
      (∀ cell v, Shape.Contains ⟨2, 3⟩ cell →
        (r.written [(⟨1, 0⟩, 9), (⟨2, 0⟩, 7)]).Reaches ⟨2, 3⟩ (.unit ⟨2, 3⟩) [1, 2, 3, 9, 5, 6]
          cell v) ∧
      (∀ cell v, ¬ Shape.Contains ⟨2, 3⟩ cell →
        (r.written [(⟨1, 0⟩, 9), (⟨2, 0⟩, 7)]).Refuses ⟨2, 3⟩ cell v) ∧
      ofElevations (r.written [(⟨1, 0⟩, 9), (⟨2, 0⟩, 7)]).cells ⟨2, 3⟩ (.unit ⟨2, 3⟩) =
        .ok (r.written [(⟨1, 0⟩, 9), (⟨2, 0⟩, 7)]) := by
  have hbuilt : ofCells (#[1, 2, 3, 4, 5, 6] : Array Float32) ⟨2, 3⟩ = .ok _ := rfl
  exact ⟨_, hbuilt, writes_refine_list (.inl ⟨hbuilt, rfl⟩) [(⟨1, 0⟩, 9), (⟨2, 0⟩, 7)]⟩

end Raster

end Relief
