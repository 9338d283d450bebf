import Relief.Grid
import Relief.Scalar

namespace Relief

/-- A fractional place in a grid: `x` counts columns and `y` rows. -/
structure Position (α : Type) where
  x : α
  y : α

inductive Ending where
  | stopped
  | offGrid
  | outOfSteps
  deriving DecidableEq, Repr

/-- Walks from place `i` on for at most `steps` steps; `visit` ends the walk by returning nothing.
-/
@[specialize]
def walk {ι σ : Type} (locate : ι → Option Cell) (next : ι → ι) (visit : ι → Cell → σ → Option σ) :
    (steps : Nat) → (i : ι) → σ → σ × Ending
  | 0, _, s => (s, .outOfSteps)
  | steps + 1, i, s =>
    match locate i with
    | none => (s, .offGrid)
    | some c =>
      match visit i c s with
      | none => (s, .stopped)
      | some t => walk locate next visit steps (next i) t

/-- The nearest cell to a place, if it lies in the grid. -/
@[specialize]
def Shape.nearest {α : Type} [LT α] [LE α] [DecidableLT α] [DecidableLE α] [NatCast α]
    [OfScientific α] [Whole α] (shape : Shape) (p : Position α) : Option Cell :=
  let col := Whole.nearest p.x
  let row := Whole.nearest p.y
  if 0.0 ≤ row ∧ 0.0 ≤ col ∧ row < (shape.rows : α) ∧ col < (shape.cols : α) then
    some ⟨(Whole.toInt row).toNat, (Whole.toInt col).toNat⟩
  else none

@[specialize]
def Shape.nearestWrapped {α : Type} [LT α] [LE α] [DecidableLT α] [DecidableLE α] [NatCast α]
    [OfScientific α] [Whole α] (shape : Shape) (p : Position α) : Option Cell :=
  let row := Whole.nearest p.y
  if 0.0 ≤ row ∧ row < (shape.rows : α) then
    some ⟨(Whole.toInt row).toNat, (Whole.toInt (Whole.nearest p.x) % (shape.cols : Int)).toNat⟩
  else none

def Cell.position {α : Type} [NatCast α] (c : Cell) : Position α :=
  ⟨(c.col : α), (c.row : α)⟩

end Relief
