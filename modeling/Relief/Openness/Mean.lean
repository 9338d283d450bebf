import Relief.Openness.Horizon

namespace Relief

structure Openness (α : Type) where
  positive : Option α
  negative : Option α
  deriving DecidableEq

namespace Openness

variable {α : Type} [Add α] [Mul α] [Div α] [Neg α] [LT α] [DecidableLT α] [NatCast α]
  [OfScientific α] [Trig α]

/-- Horizons at or beyond this angle come from spikes or voids. -/
def outlierLimit : α :=
  toRadians 70.0

def meanSine (angles : List α) : Option α :=
  let kept := angles.filter fun a => -outlierLimit < a ∧ a < outlierLimit
  if kept.isEmpty then none
  else some (kept.foldl (fun sum a => sum + Trig.sin a) 0.0 / (kept.length : α))

def ofHorizons (horizons : Array (Option (Horizon α))) : Openness α :=
  let known := horizons.toList.filterMap id
  { positive := meanSine (known.map (·.upper))
    negative := meanSine (known.map (·.lower)) }

end Openness

end Relief
