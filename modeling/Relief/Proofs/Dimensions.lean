import Relief.Proofs.Raster

namespace Relief

namespace Raster

section

variable {τ : Type} {cells : Array τ} {shape : Shape}

/-- How a raster of `count` cells comes about or is refused. One of the three always applies. -/
structure Constructs (shape : Shape) (count : ℕ) (result : Except Error (Raster τ)) : Prop where
  ok_iff : (∃ r, result = .ok r) ↔
    0 < shape.rows ∧ 0 < shape.cols ∧ count = shape.rows * shape.cols
  refused_iff : result = .error (.invalidDimensions shape) ↔
    shape.rows = 0 ∨ shape.cols = 0 ∨ count ≠ shape.rows * shape.cols % wordValues
  /-- The shape has too many cells to count, and their number comes round to those given. -/
  wrapped_iff : result = .error .shapeOverflow ↔
    0 < shape.rows ∧ 0 < shape.cols ∧ wordValues ≤ shape.rows * shape.cols ∧
      count = shape.rows * shape.cols % wordValues

theorem refused_iff {count : ℕ} : (shape.isEmpty || count != shape.wordSize) = true ↔
    shape.rows = 0 ∨ shape.cols = 0 ∨ count ≠ shape.rows * shape.cols % wordValues := by
  simp [Shape.isEmpty, Shape.wordSize, Shape.size, or_assoc]

theorem ofCells_constructs (hlimit : cells.size ≤ addressLimit) :
    Constructs shape cells.size (ofCells cells shape) := by
  -- A product within the range of a word does not wrap, so the outcomes exclude each other.
  have hlt : cells.size < wordValues := hlimit.trans_lt (by decide)
  have hmod : shape.rows * shape.cols < wordValues →
      shape.rows * shape.cols % wordValues = shape.rows * shape.cols := Nat.mod_eq_of_lt
  rw [ofCells]
  split_ifs with hrefused hcount
  · rw [refused_iff] at hrefused
    constructor
    · exact iff_of_false (by simp) (by omega)
    · exact iff_of_true rfl hrefused
    · exact iff_of_false (by simp) (by omega)
  · rw [refused_iff] at hrefused
    rw [Shape.size] at hcount
    constructor
    · exact iff_of_true ⟨_, rfl⟩ (by omega)
    · exact iff_of_false (by simp) hrefused
    · exact iff_of_false (by simp) (by omega)
  · rw [refused_iff] at hrefused
    rw [Shape.size] at hcount
    constructor
    · exact iff_of_false (by simp) (by omega)
    · exact iff_of_false (by simp) hrefused
    · exact iff_of_true rfl (by omega)

theorem Constructs.map {count : ℕ} {result : Except Error (Raster τ)}
    (h : Constructs shape count result) (f : Raster τ → Raster τ) :
    Constructs shape count (result.map f) := by
  cases result with
  | error e =>
    constructor
    · simpa [Except.map] using h.ok_iff
    · exact h.refused_iff
    · exact h.wrapped_iff
  | ok r =>
    constructor
    · exact iff_of_true ⟨_, rfl⟩ (h.ok_iff.1 ⟨_, rfl⟩)
    · simpa [Except.map] using h.refused_iff
    · simpa [Except.map] using h.wrapped_iff

theorem ofElevations_constructs (hlimit : cells.size ≤ addressLimit) (extent : Extent Float) :
    Constructs shape cells.size (ofElevations cells shape extent) := by
  rw [ofElevations_eq_map]
  exact (ofCells_constructs hlimit).map _

end

section

variable {τ : Type} [Sample τ] {shape : Shape}

structure Allocates (shape : Shape) (fill : τ) (result : Except Error (Array τ)) : Prop where
  ok_iff : result = .ok (Array.replicate (shape.rows * shape.cols) fill) ↔
    shape.rows * shape.cols * Sample.width τ ≤ addressLimit
  uncountable_iff : result = .error (.invalidDimensions shape) ↔
    wordValues ≤ shape.rows * shape.cols
  refused_iff : result = .error (.allocation (shape.rows * shape.cols)) ↔
    shape.rows * shape.cols < wordValues ∧
      addressLimit < shape.rows * shape.cols * Sample.width τ

theorem size_le_bytes (hwidth : 0 < Sample.width τ) (n : ℕ) : n ≤ n * Sample.width τ :=
  Nat.le_mul_of_pos_right n hwidth

theorem buffer_allocates [Resources] (hwidth : 0 < Sample.width τ)
    (hmemory : Resources.block = addressLimit) (fill : τ) :
    Allocates shape fill (buffer shape fill) := by
  have hlimit : addressLimit < wordValues := by decide
  have hbytes := size_le_bytes hwidth (shape.rows * shape.cols)
  rw [buffer, hmemory, Shape.size]
  split_ifs with huncountable hlarge
  · constructor
    · exact iff_of_false (by simp) (by omega)
    · exact iff_of_true rfl huncountable
    · exact iff_of_false (by simp) (by omega)
  · constructor
    · exact iff_of_false (by simp) (by omega)
    · exact iff_of_false (by simp) huncountable
    · exact iff_of_true rfl ⟨not_le.1 huncountable, hlarge⟩
  · constructor
    · exact iff_of_true rfl (not_lt.1 hlarge)
    · exact iff_of_false (by simp) huncountable
    · exact iff_of_false (by simp) fun h => hlarge h.2

end

/-- Cells that memory holds make a raster exactly if a shape that is not empty has as many. Else
the shape is refused, but for a product that comes round to their number. A buffer of equal cells
is had exactly if its bytes can be addressed. -/
theorem shapes_counted {τ : Type} [Resources] [Sample τ] (hwidth : 0 < Sample.width τ)
    (hmemory : Resources.block = addressLimit) (shape : Shape) (cells : Array τ)
    (hcells : cells.size * Sample.width τ ≤ addressLimit) (fill : τ) :
    Constructs shape cells.size (ofCells cells shape) ∧
      (∀ extent, Constructs shape cells.size (ofElevations cells shape extent)) ∧
      Allocates shape fill (buffer shape fill) := by
  have hlimit : cells.size ≤ addressLimit := (size_le_bytes hwidth _).trans hcells
  exact ⟨ofCells_constructs hlimit, ofElevations_constructs hlimit,
    buffer_allocates hwidth hmemory fill⟩

/-- A machine whose memory is all that can be addressed. -/
@[reducible]
def wholeMemory : Resources where
  block := addressLimit
  block_le_limit := le_rfl
  workers := 1

theorem shapes_counted_row :
    0 < Sample.width Float32 ∧ wholeMemory.block = addressLimit ∧
      (#[1, 2, 3] : Array Float32).size * Sample.width Float32 ≤ addressLimit ∧
      Constructs ⟨1, 3⟩ 3 (ofCells (#[1, 2, 3] : Array Float32) ⟨1, 3⟩) ∧
      (∀ extent, Constructs ⟨1, 3⟩ 3 (ofElevations (#[1, 2, 3] : Array Float32) ⟨1, 3⟩ extent)) ∧
      Allocates ⟨1, 3⟩ (0 : Float32) (@buffer Float32 wholeMemory _ ⟨1, 3⟩ 0) :=
  ⟨by decide, rfl, by decide,
    @shapes_counted Float32 wholeMemory _ (by decide) rfl ⟨1, 3⟩ #[1, 2, 3] (by decide) 0⟩

/-- No cells at all pass for those of `2 ^ 32` rows and columns. -/
theorem wrapped_shape_not_refused :
    (#[] : Array Float32).size ≠ 4294967296 * 4294967296 ∧
      ofCells (#[] : Array Float32) ⟨4294967296, 4294967296⟩ = .error .shapeOverflow ∧
      ofCells (#[] : Array Float32) ⟨4294967296, 4294967296⟩ ≠
        .error (.invalidDimensions ⟨4294967296, 4294967296⟩) := by
  have hwraps : ofCells (#[] : Array Float32) ⟨4294967296, 4294967296⟩ = .error .shapeOverflow :=
    rfl
  rw [hwraps]
  exact ⟨by decide, rfl, by simp⟩

end Raster

end Relief
