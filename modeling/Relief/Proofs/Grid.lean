import Mathlib
import Relief.Grid

namespace Relief

theorem Shape.index_lt {shape : Shape} {c : Cell} (h : shape.Contains c) :
    shape.index c < shape.size := by
  obtain ⟨hr, hc⟩ := h
  calc c.row * shape.cols + c.col < c.row * shape.cols + shape.cols := by omega
    _ = (c.row + 1) * shape.cols := by ring
    _ ≤ shape.rows * shape.cols := Nat.mul_le_mul_right _ hr

theorem Shape.row_le_of_index_le {shape : Shape} {c d : Cell} (hd : shape.Contains d)
    (h : shape.index c ≤ shape.index d) : c.row ≤ d.row := by
  by_contra hlt
  have hmul : (d.row + 1) * shape.cols ≤ c.row * shape.cols :=
    Nat.mul_le_mul_right _ (not_le.1 hlt)
  have hcol := hd.2
  rw [Nat.succ_mul] at hmul
  rw [Shape.index, Shape.index] at h
  omega

theorem Shape.index_inj {shape : Shape} {c d : Cell} (hc : shape.Contains c)
    (hd : shape.Contains d) (h : shape.index c = shape.index d) : c = d := by
  have hrow : c.row = d.row :=
    le_antisymm (Shape.row_le_of_index_le hd h.le) (Shape.row_le_of_index_le hc h.ge)
  rw [Shape.index, Shape.index, hrow, Nat.add_left_cancel_iff] at h
  cases c
  cases d
  simp_all

theorem Shape.isEmpty_eq_false {shape : Shape} :
    shape.isEmpty = false ↔ 0 < shape.rows ∧ 0 < shape.cols := by
  rw [Shape.isEmpty, Bool.or_eq_false_iff, decide_eq_false_iff_not, decide_eq_false_iff_not,
    Nat.pos_iff_ne_zero, Nat.pos_iff_ne_zero]

variable {τ : Type} {shape : Shape} {cell : Cell} {f : Cell → τ}

def Shape.cellAt (shape : Shape) (i : ℕ) : Cell :=
  ⟨i / shape.cols, i % shape.cols⟩

theorem Shape.cellAt_index (h : shape.Contains cell) : shape.cellAt (shape.index cell) = cell := by
  have hcols : 0 < shape.cols := Nat.zero_lt_of_lt h.2
  rw [Shape.cellAt, Shape.index, Nat.mul_comm, Nat.mul_add_div hcols, Nat.mul_add_mod,
    Nat.div_eq_of_lt h.2, Nat.mod_eq_of_lt h.2, Nat.add_zero]

theorem Shape.index_cellAt (shape : Shape) (i : ℕ) : shape.index (shape.cellAt i) = i :=
  Nat.div_add_mod' i shape.cols

theorem Shape.contains_cellAt {i : ℕ} (h : i < shape.size) : shape.Contains (shape.cellAt i) := by
  have hcols : 0 < shape.cols := Nat.pos_of_mul_pos_left (Nat.zero_lt_of_lt h)
  exact ⟨(Nat.div_lt_iff_lt_mul hcols).2 h, Nat.mod_lt i hcols⟩

/-- What `f` gives each cell, in row-major order. -/
def Shape.table (shape : Shape) (f : Cell → τ) : Array τ :=
  Array.ofFn fun i : Fin shape.size => f (shape.cellAt i)

theorem Shape.size_table : (shape.table f).size = shape.size :=
  Array.size_ofFn

theorem Shape.getElem?_table (h : shape.Contains cell) :
    (shape.table f)[shape.index cell]? = some (f cell) := by
  rw [Shape.table, Array.getElem?_ofFn, dif_pos (Shape.index_lt h)]
  exact congrArg (some ∘ f) (Shape.cellAt_index h)

end Relief
