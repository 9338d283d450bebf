namespace Relief

def wordValues : Nat := 18446744073709551616

structure Shape where
  rows : Nat
  cols : Nat
  deriving DecidableEq, Repr

/-- A place in a grid. Row 0 is the northern edge and column 0 the western one. -/
structure Cell where
  row : Nat
  col : Nat
  deriving DecidableEq, Repr

namespace Shape

def size (s : Shape) : Nat :=
  s.rows * s.cols

/-- The number of cells as a 64-bit word, in which large products wrap round. -/
def wordSize (s : Shape) : Nat :=
  s.size % wordValues

def isEmpty (s : Shape) : Bool :=
  s.rows = 0 || s.cols = 0

def Contains (s : Shape) (c : Cell) : Prop :=
  c.row < s.rows ∧ c.col < s.cols

instance (s : Shape) (c : Cell) : Decidable (s.Contains c) :=
  inferInstanceAs (Decidable (_ ∧ _))

def index (s : Shape) (c : Cell) : Nat :=
  c.row * s.cols + c.col

end Shape

end Relief
