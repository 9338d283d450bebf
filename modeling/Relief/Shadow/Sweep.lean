import Relief.Shadow.Method
import Relief.Sun
import Relief.Terrain
import Relief.Walk

namespace Relief

structure Sweep (α : Type) where
  /-- The horizon over the present cell; none before the first terrain. -/
  horizon : Option α
  /-- The number of consecutive steps below the horizon. -/
  below : Nat
  /-- The depths found so far; none where no sweep has come by. -/
  depths : Array (Option α)

@[specialize]
def Edges.locate {α : Type} [LT α] [LE α] [DecidableLT α] [DecidableLE α] [NatCast α]
    [OfScientific α] [Whole α] (edges : Edges) (shape : Shape) (p : Position α) : Option Cell :=
  match edges with
  | periodic => shape.nearestWrapped p
  | bounded => shape.nearest p

namespace Shadow

section

variable {α : Type} [Sub α] [LT α] [LE α] [DecidableLT α] [DecidableLE α] [OfScientific α]

/-- Records the cell at position `i`, of height `z`. If it is found below the horizon for the second
or a later step in a row, it gets its depth below it. -/
@[inline]
def sweepCell (s : Sweep α) (i : Nat) : Option α → Sweep α
  | none => { s with below := 0, depths := s.depths.setIfInBounds i (some 0.0) }
  | some z =>
    match s.horizon with
    | none => lit s i z
    | some h =>
      if h ≤ z then lit s i z
      else
        let depth := if 0 < s.below then h - z else 0.0
        { s with below := s.below + 1, depths := s.depths.setIfInBounds i (some depth) }
where
  /-- Terrain at or above the horizon becomes the horizon; it is marked only if no sweep was here
  before. -/
  lit (s : Sweep α) (i : Nat) (z : α) : Sweep α :=
    let depths :=
      match s.depths[i]? with
      | some none => s.depths.setIfInBounds i (some 0.0)
      | _ => s.depths
    { horizon := some z, below := 0, depths }

@[inline]
def sweepStep (terrain : Terrain α) (fall : α) (highest : Option α) (c : Cell) (s : Sweep α) :
    Option (Sweep α) :=
  if s.horizon.any fun h => highest.all (· < h) then none
  else
    let t := sweepCell s (terrain.shape.index c) (terrain.height c)
    some { t with horizon := t.horizon.map (· - fall) }

end

section

variable {α β : Type} [Sub α] [LT α] [LE α] [DecidableLT α] [DecidableLE α] [NatCast α]
  [OfScientific α] [Whole α] [Sub β] [LT β] [LE β] [DecidableLT β] [DecidableLE β]
  [OfScientific β]

@[specialize]
def sweep (terrain : Terrain β) (motion : Motion α) (fall : β) (highest : Option β)
    (edges : Edges) (budget : Nat) (depths : Array (Option β)) (seed : Cell) : Sweep β × Ending :=
  walk (edges.locate terrain.shape)
    (fun p => ⟨p.x - motion.x, p.y - motion.y⟩)
    (fun _ c s => sweepStep terrain fall highest c s)
    budget (seed.position : Position α) ⟨none, 0, depths⟩

end

section

variable {α : Type} [Mul α] [Div α] [Neg α] [LT α] [LE α] [DecidableLT α] [DecidableLE α]
  [NatCast α] [OfScientific α]

/-- A slower motion along an axis counts as none. -/
def minAxisSpeed : α := 1e-9

def crossing (cells : Nat) (speed : α) : Option α :=
  if minAxisSpeed < magnitude speed then some ((cells : α) / magnitude speed) else none

def lesser : Option α → Option α → Option α
  | some a, some b => some (if b < a then b else a)
  | some a, none => some a
  | none, b => b

/-- The steps after which a sweep must have left the grid. With wrapping columns a ray along the
rows gets two laps, so that the second carries the horizon of the first past its start. Without
horizontal motion there is none. -/
def budget? [Whole α] (motion : Motion α) (shape : Shape) (edges : Edges) : Option Nat :=
  let across := crossing shape.cols motion.x
  let down := crossing shape.rows motion.y
  let steps :=
    match edges with
    | .bounded => lesser across down
    | .periodic => down <|> across.map (2.0 * ·)
  let most : α := ((min (2 * shape.size) (wordValues - 1) : Nat) : α)
  steps.map fun s => (Whole.toInt (Whole.ceil (if most < s then most else s))).toNat + 1

def outermost (n : Nat) : List Nat :=
  if n ≤ 1 then [0] else [0, n - 1]

/-- The cells from which sweeps start, in order. Where columns wrap round and the light runs along
the rows, every row has its own. -/
def seeds (motion : Motion α) (shape : Shape) (edges : Edges) : List Cell :=
  let alongRows := edges = .periodic ∧ magnitude motion.y ≤ minAxisSpeed
  let fromRows :=
    if alongRows then (List.range shape.rows).map (⟨·, 0⟩)
    else (outermost shape.rows).flatMap fun row => (List.range shape.cols).map (⟨row, ·⟩)
  let fromCols :=
    match edges with
    | .periodic => []
    | .bounded => (outermost shape.cols).flatMap fun col => (List.range shape.rows).map (⟨·, col⟩)
  fromRows ++ fromCols

@[specialize]
def sweptDepths {β : Type} [Sub β] [LT β] [LE β] [DecidableLT β] [DecidableLE β] [OfScientific β]
    [Sub α] [Whole α] (terrain : Terrain β) (motion : Motion α) (fall : β) (highest : Option β)
    (edges : Edges) (budget : Nat) : Array (Option β) :=
  (seeds motion terrain.shape edges).foldl
    (fun depths seed => (sweep terrain motion fall highest edges budget depths seed).1.depths)
    (Array.replicate terrain.shape.size none)

end

end Shadow

namespace Raster

open Shadow

/-- A step of a sweep over the samples of a raster, each tested for a void when it is read. -/
@[inline]
def sweepStep (dem : Raster Float32) (fall : Float) (highest : Option Float) (c : Cell)
    (s : Sweep Float) : Option (Sweep Float) :=
  if s.horizon.any fun h => highest.all (· < h) then none
  else
    let v := dem.read c
    let i := dem.shape.index c
    let t := if Sample.isVoid v then sweepCell s i none else sweepCell s i (some (Sample.toFloat v))
    some { t with horizon := t.horizon.map (· - fall) }

def sweep (dem : Raster Float32) (motion : Motion Float) (fall : Float) (highest : Option Float)
    (edges : Edges) (budget : Nat) (depths : Array (Option Float)) (seed : Cell) :
    Sweep Float × Ending :=
  walk (edges.locate dem.shape)
    (fun p => ⟨p.x - motion.x, p.y - motion.y⟩)
    (fun _ c s => dem.sweepStep fall highest c s)
    budget (seed.position : Position Float) ⟨none, 0, depths⟩

def sweptDepths (dem : Raster Float32) (motion : Motion Float) (fall : Float)
    (highest : Option Float) (edges : Edges) (budget : Nat) : Array (Option Float) :=
  (seeds motion dem.shape edges).foldl
    (fun depths seed => (dem.sweep motion fall highest edges budget depths seed).1.depths)
    (Array.replicate dem.shape.size none)

end Raster

end Relief
