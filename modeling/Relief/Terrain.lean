import Relief.Raster

namespace Relief

structure Terrain (α : Type) where
  shape : Shape
  /-- The height of a cell; a void and a cell outside the shape have none. -/
  height : Cell → Option α

def Raster.terrain {τ : Type} [Sample τ] (r : Raster τ) : Terrain Float :=
  let heights := r.cells.map fun v => if Sample.isVoid v then none else some (Sample.toFloat v)
  { shape := r.shape
    height := fun c => if r.shape.Contains c then heights[r.shape.index c]?.join else none }

end Relief
