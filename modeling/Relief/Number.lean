import Relief.Decimal

namespace Relief.Number

open Float.Model

def write (zero : String) (positive : Nat → Int → String) (x : Float) : String :=
  match x.toModel.unpack with
  | .notANumber => "NaN"
  | .infinity s => sign s ++ "inf"
  | .zero s => sign s ++ zero
  | .finite s m e _ => sign s ++ positive m e
where
  sign : UnpackedFloat.Sign → String
    | .positive => ""
    | .negative => "-"

def shortest : Float → String :=
  write "0" fun m e => (Decimal.shortest m e).trimmed.positional

/-- The fewest digits that read back, with at least one after a point. Numbers below `10 ^ -4` and
from `10 ^ 16` on have an exponent instead. -/
def pointed : Float → String :=
  write "0.0" fun m e =>
    let d := (Decimal.shortest m e).trimmed
    let lead := (Ratio.ofBinary m e).leadingPlace
    if lead < -4 ∨ 16 ≤ lead then d.scientific
    else if 0 ≤ d.exponent then d.positional ++ ".0"
    else d.positional

def fixed (places : Nat) : Float → String :=
  write (Decimal.positional ⟨0, -places⟩) fun m e =>
    (Decimal.atPlace (-places) (.ofBinary m e)).positional

def nineDigits (x : Float) : String :=
  if x == 0.0 then "0"
  else write "0" (fun m e => (Decimal.significant 9 (.ofBinary m e)).trimmed.scientific) x

end Relief.Number
