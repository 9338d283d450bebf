import Relief.Error
import Relief.Spacing
import Relief.Binary

namespace Relief

/-- The outer edges of a grid in its native units. -/
structure Extent (α : Type) where
  xmin : α
  xmax : α
  ymin : α
  ymax : α
  deriving DecidableEq

namespace Extent

variable {α : Type}

def width [Sub α] (e : Extent α) : α :=
  e.xmax - e.xmin

def height [Sub α] (e : Extent α) : α :=
  e.ymax - e.ymin

def centerY [Add α] [Mul α] [OfScientific α] (e : Extent α) : α :=
  0.5 * (e.ymin + e.ymax)

/-- The size of a cell when the box is cut into a shape's rows and columns. -/
def spacing [Sub α] [Div α] [NatCast α] (e : Extent α) (shape : Shape) : Spacing α :=
  ⟨e.width / (shape.cols : α), e.height / (shape.rows : α)⟩

def unit [NatCast α] [OfScientific α] (shape : Shape) : Extent α :=
  ⟨0.0, (shape.cols : α), 0.0, (shape.rows : α)⟩

def ofBounds (xmin xmax ymin ymax : Float) : Except Error (Extent Float) :=
  if [xmin, xmax, ymin, ymax].all Whole.isFinite ∧ ¬ xmax ≤ xmin ∧ ¬ ymax ≤ ymin then
    .ok ⟨xmin, xmax, ymin, ymax⟩
  else
    .error (.invalidExtent xmin xmax ymin ymax)

end Extent

end Relief
