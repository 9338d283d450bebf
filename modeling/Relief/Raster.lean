import Relief.Extent
import Relief.Resources
import Relief.Sample

namespace Relief

structure Raster (τ : Type) where
  shape : Shape
  cells : Array τ
  extent : Extent Float
  size_cells : cells.size = shape.size
  size_le_limit : shape.size ≤ addressLimit

/-- The range of the cells that are not void, and how many cells there are of either kind. -/
structure Statistics (τ : Type) where
  lowest : Option τ
  highest : Option τ
  valid : Nat
  void : Nat

namespace Statistics

variable {τ : Type}

def add [LT τ] [DecidableLT τ] (s : Statistics τ) (v : τ) : Statistics τ where
  lowest := if s.lowest.all (v < ·) then some v else s.lowest
  highest := if s.highest.all (· < v) then some v else s.highest
  valid := s.valid + 1
  void := s.void

end Statistics

namespace Raster

variable {τ : Type}

/-- A raster of equal cells on unit spacing. Of a shape without cells, the axis that is not empty
must still be addressable. -/
def filled [Sample τ] (shape : Shape) (v : τ) : Except Error (Raster τ) :=
  if h : shape.size ≤ addressLimit ∧ max 1 shape.rows * max 1 shape.cols ≤ addressLimit
      ∧ shape.size * Sample.width τ ≤ addressLimit then
    .ok ⟨shape, Array.replicate shape.size v, .unit shape, Array.size_replicate, h.1⟩
  else
    .error .capacityOverflow

def zeros [Sample τ] (shape : Shape) : Except Error (Raster τ) :=
  filled shape Sample.zero

/-- A raster of given cells on unit spacing. The cells are counted in machine words. -/
def ofCells (cells : Array τ) (shape : Shape) : Except Error (Raster τ) :=
  if shape.isEmpty || cells.size != shape.wordSize then
    .error (.invalidDimensions shape)
  else if h : cells.size = shape.size ∧ shape.size ≤ addressLimit then
    .ok ⟨shape, cells, .unit shape, h.1, h.2⟩
  else
    .error .shapeOverflow

def ofElevations (cells : Array τ) (shape : Shape) (extent : Extent Float) :
    Except Error (Raster τ) := do
  let raster ← ofCells cells shape
  return { raster with extent := extent }

def buffer [Resources] [Sample τ] (shape : Shape) (fill : τ) : Except Error (Array τ) :=
  if wordValues ≤ shape.size then
    .error (.invalidDimensions shape)
  else if Resources.block < shape.size * Sample.width τ then
    .error (.allocation shape.size)
  else
    .ok (Array.replicate shape.size fill)

def get? (r : Raster τ) (c : Cell) : Option τ :=
  if r.shape.Contains c then r.cells[r.shape.index c]? else none

/-- The sample of a cell as it is stored; outside the grid it is void. -/
def read [Sample τ] (r : Raster τ) (c : Cell) : τ :=
  (r.get? c).getD Sample.void

def get (r : Raster τ) (c : Cell) : Except Error τ :=
  match r.get? c with
  | some v => .ok v
  | none => .error (.indexOutOfBounds c r.shape)

def set (r : Raster τ) (c : Cell) (v : τ) : Except Error (Raster τ) :=
  if r.shape.Contains c then
    .ok { r with
      cells := r.cells.setIfInBounds (r.shape.index c) v
      size_cells := by simpa using r.size_cells }
  else
    .error (.indexOutOfBounds c r.shape)

def statistics [Sample τ] [LT τ] [DecidableLT τ] (r : Raster τ) : Statistics τ :=
  let known : Statistics τ :=
    r.cells.foldl (fun s v => if Sample.isVoid v then s else s.add v) ⟨none, none, 0, 0⟩
  { known with void := r.cells.size - known.valid }

end Raster

end Relief
