import Relief.Resources

namespace Relief

/-- The rows from `start` up to but not including `stop`, which belong to one worker. -/
structure RowBlock where
  worker : Nat
  start : Nat
  stop : Nat
  deriving DecidableEq, Repr

namespace RowBlock

def size (b : RowBlock) : Nat :=
  b.stop - b.start

def isEmpty (b : RowBlock) : Bool :=
  b.size = 0

def workerName (b : RowBlock) : String :=
  s!"worker-{b.worker}"

def span (b : RowBlock) : String :=
  s!"{b.start}..{b.stop}"

def cellAt (b : RowBlock) (shape : Shape) (i : Nat) : Cell :=
  ⟨b.start + i / shape.cols, i % shape.cols⟩

def bound (rows workers id : Nat) : Nat :=
  min (id * rows / workers) rows

def ofWorker (rows workers id : Nat) : RowBlock :=
  ⟨id, bound rows workers id, bound rows workers (id + 1)⟩

def width : Nat := 24

/-- Cuts rows into one block per worker, in order and as evenly as whole rows allow; without
workers, one. -/
def partition (rows workers : Nat) : Except Error (List RowBlock) :=
  let workers := max workers 1
  tabulate workers width (ofWorker rows workers)

end RowBlock

end Relief
