import Relief.Logged

namespace Relief

class Buffers (ω : Type) where
  /-- The first cells and the others; nothing if a buffer holds too few. -/
  cut : Nat → ω → Option (ω × ω)
  join : ω → ω → ω

instance {τ : Type} : Buffers (Array τ) where
  cut n a := if n ≤ a.size then some (a.extract 0 n, a.extract n a.size) else none
  join a b := a ++ b

instance {ω ξ : Type} [Buffers ω] [Buffers ξ] : Buffers (ω × ξ) where
  cut n p := do
    let (a, a') ← Buffers.cut n p.1
    let (b, b') ← Buffers.cut n p.2
    return ((a, b), (a', b'))
  join p q := (Buffers.join p.1 q.1, Buffers.join p.2 q.2)

structure WorkerPool where
  workers : Nat
  workers_pos : 0 < workers

namespace WorkerPool

def ofWorkers [Resources] (workers : Nat) : Except Error WorkerPool :=
  if h : 0 < workers then
    if workers ≤ Resources.workers then .ok ⟨workers, h⟩ else .error .tooManyWorkers
  else .error (.invalidParameter .noWorkers)

variable {ω : Type} [Buffers ω]

/-- The part of the outputs that falls to each block, and what is left over. -/
def share (cols : Nat) : List RowBlock → ω → Option (List (RowBlock × ω) × ω)
  | [], outputs => some ([], outputs)
  | block :: blocks, outputs => do
    let (part, rest) ← Buffers.cut (Shape.wordSize ⟨block.size, cols⟩) outputs
    let (shares, left) ← share cols blocks rest
    return ((block, part) :: shares, left)

/-- Has every block with rows worked on, reports it and returns the finished outputs. -/
def run (pool : WorkerPool) (shape : Shape) (outputs : ω) (work : RowBlock → ω → ω) : Logged ω := do
  let blocks ← .ofExcept (RowBlock.partition shape.rows pool.workers)
  match share shape.cols blocks outputs with
  | none => Logged.fail .shortOutput
  | some (shares, left) =>
    let finished := shares.map fun (block, part) => if block.isEmpty then part else work block part
    Logged.report ((shares.filter (!·.1.isEmpty)).map (.blockDone ·.1))
    return finished.foldr Buffers.join left

end WorkerPool

end Relief
