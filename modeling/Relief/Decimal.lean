namespace Relief

structure Decimal where
  coefficient : Nat
  exponent : Int
  deriving DecidableEq, Repr

def roundHalfEven (num den : Nat) : Nat :=
  let quotient := num / den
  let twice := 2 * (num % den)
  if twice < den then quotient
  else if den < twice then quotient + 1
  else quotient + quotient % 2

structure Ratio where
  num : Nat
  den : Nat

namespace Ratio

def ofBinary (m : Nat) (e : Int) : Ratio :=
  if 0 ≤ e then ⟨m <<< e.toNat, 1⟩ else ⟨m, 1 <<< (-e).toNat⟩

def inUnits (r : Ratio) (place : Int) : Ratio :=
  if 0 ≤ place then ⟨r.num, r.den * Nat.pow 10 place.toNat⟩
  else ⟨r.num * Nat.pow 10 (-place).toNat, r.den⟩

/-- Moves a place up, at most `steps` times, while a unit of the next place still fits into the
value. -/
def climb (r : Ratio) : Nat → Int → Int
  | 0, place => place
  | steps + 1, place =>
    let units := r.inUnits (place + 1)
    if units.den ≤ units.num then climb r steps (place + 1) else place

/-- The place of the first digit of a positive value: binary logarithms leave at most three
candidates. -/
def leadingPlace (r : Ratio) : Int :=
  r.climb 4 (((r.num.log2 : Int) - r.den.log2 - 1) * 30103 / 100000 - 1)

end Ratio

namespace Decimal

def atPlace (place : Int) (r : Ratio) : Decimal :=
  let units := r.inUnits place
  ⟨roundHalfEven units.num units.den, place⟩

def significant (n : Nat) (r : Ratio) : Decimal :=
  let d := atPlace (r.leadingPlace + 1 - n) r
  if d.coefficient = Nat.pow 10 n then ⟨Nat.pow 10 (n - 1), d.exponent + 1⟩ else d

def between (low high : Ratio) (closed : Bool) (x : Nat) : Bool :=
  if closed then low.num ≤ x * low.den && x * high.den ≤ high.num
  else low.num < x * low.den && x * high.den < high.num

/-- The coefficient at a place whose value rounds to the binary64 `m * 2 ^ e` and lies nearest to
it; of two equally near ones the greater. The values that round to it reach half a unit to either
side, except below a power of two, where the unit halves, and include their ends when `m` is even.
-/
def nearestAt? (m : Nat) (e : Int) (place : Int) : Option Nat :=
  let value := (Ratio.ofBinary (4 * m) (e - 2)).inUnits place
  let gap := if m = Nat.pow 2 52 ∧ -1074 < e then 1 else 2
  let low := (Ratio.ofBinary (4 * m - gap) (e - 2)).inUnits place
  let high := (Ratio.ofBinary (4 * m + 2) (e - 2)).inUnits place
  let holds := between low high (m % 2 = 0)
  let below := value.num / value.den
  match holds below, holds (below + 1) with
  | true, true => some (if 2 * (value.num % value.den) < value.den then below else below + 1)
  | true, false => some below
  | false, true => some (below + 1)
  | false, false => none

/-- The fewest digits that single out the binary64 `m * 2 ^ e`; seventeen always do. -/
def shortest (m : Nat) (e : Int) : Decimal :=
  let r := Ratio.ofBinary m e
  let lead := r.leadingPlace
  let found := (List.range 17).findSome? fun (n : Nat) =>
    (nearestAt? m e (lead - n)).map fun c => Decimal.mk c (lead - n)
  found.getD (significant 17 r)

def trimmed (d : Decimal) : Decimal :=
  let zeros := ((Nat.toDigits 10 d.coefficient).reverse.takeWhile (· = '0')).length
  ⟨d.coefficient / Nat.pow 10 zeros, d.exponent + zeros⟩

def positional (d : Decimal) : String :=
  let digits := Nat.toDigits 10 d.coefficient
  if 0 ≤ d.exponent then
    String.ofList (digits ++ List.replicate d.exponent.toNat '0')
  else
    let places := (-d.exponent).toNat
    let padded := List.replicate (places + 1 - digits.length) '0' ++ digits
    let whole := padded.take (padded.length - places)
    String.ofList (whole ++ '.' :: padded.drop whole.length)

def scientific (d : Decimal) : String :=
  let digits := Nat.toDigits 10 d.coefficient
  let rest := digits.drop 1
  let point := if rest.isEmpty then [] else ['.']
  String.ofList (digits.take 1 ++ point ++ rest ++ ['e']) ++ toString (d.exponent + rest.length)

end Decimal

end Relief
