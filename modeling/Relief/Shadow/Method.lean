namespace Relief

inductive Edges where
  /-- Columns wrap round; rays start from the northern and southern edges. -/
  | periodic
  /-- Rays end at every edge and start from all four. -/
  | bounded
  deriving DecidableEq, Repr

inductive ShadowMethod where
  | exact
  | fastSweep (edges : Edges)
  deriving DecidableEq, Repr

def Edges.label : Edges → String
  | periodic => "Periodic"
  | bounded => "Bounded"

def ShadowMethod.label : ShadowMethod → String
  | exact => "Exact"
  | fastSweep edges => s!"FastSweep({edges.label})"

end Relief
