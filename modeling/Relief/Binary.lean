import Relief.Scalar

namespace Relief

open Float.Model

namespace Binary

/-- Rounds a value to the nearest one of a format; a half goes to the even neighbour. -/
def fit (format : Format) : UnpackedFloat → UnpackedFloat
  | .finite s m e _ => .normalize format (s.apply m) e s
  | special => special

def widen (x : Float32) : Float :=
  .ofModel (.pack (fit .binary64 x.toModel.unpack))

/-- The nearest binary32; a value beyond its range becomes an infinity. -/
def narrow (x : Float) : Float32 :=
  .ofModel (.pack (fit .binary32 x.toModel.unpack))

def wholeFrom : Float := 4503599627370496.0

@[inline]
def truncate (x : Float) : Float :=
  let m := x.abs
  if m < wholeFrom then
    let w := m.toUInt64.toFloat
    if x < 0.0 then -w else w
  else x

@[inline]
def nearest (x : Float) : Float :=
  let m := x.abs
  if m < wholeFrom then
    let w := m.toUInt64.toFloat
    let r := if m - w < 0.5 then w else w + 1.0
    if x < 0.0 then -r else r
  else x

def ceil (x : Float) : Float :=
  let w := truncate x
  if w < x then w + 1.0 else w

/-- The whole part as a signed 64-bit integer, held at the ends of their range. -/
@[inline]
def toInt (x : Float) : Int :=
  let m := x.abs.toUInt64.toNat
  if x < 0.0 then -(min m 9223372036854775808 : Nat) else (min m 9223372036854775807 : Nat)

/-- The remainder of two values `m * 2 ^ e` and `n * 2 ^ f` over their common unit. -/
def remainder (x y : Float) : Float :=
  .ofModel <| .pack <|
    match x.toModel.unpack, y.toModel.unpack with
    | .finite s m e _, .finite _ n f _ =>
      let unit := min e f
      let left := (m <<< (e - unit).toNat) % (n <<< (f - unit).toNat)
      .normalize .binary64 (s.apply left) unit s
    | .zero s, .finite .. => .zero s
    | .zero s, .infinity _ => .zero s
    | .finite s m e h, .infinity _ => .finite s m e h
    | _, _ => .notANumber

def hypot (x y : Float) : Float :=
  .ofModel <| .pack <|
    match x.toModel.unpack, y.toModel.unpack with
    | .infinity _, _ => .infinity .positive
    | _, .infinity _ => .infinity .positive
    | .finite _ m e hm, .finite _ n f _ =>
      let unit := min e f
      let a := m <<< (e - unit).toNat
      let b := n <<< (f - unit).toNat
      if h : 0 < a * a + b * b then
        .sqrt .binary64 (.finite .positive (a * a + b * b) (2 * unit) h)
      else .finite .positive m e hm
    | .finite _ m e h, .zero _ => .finite .positive m e h
    | .zero _, .finite _ m e h => .finite .positive m e h
    | .zero _, .zero _ => .zero .positive
    | _, _ => .notANumber

end Binary

instance binaryNatCast : NatCast Float := ⟨Float.ofNat⟩

instance binaryWhole : Whole Float where
  isFinite := Float.isFinite
  nearest := Binary.nearest
  ceil := Binary.ceil
  toInt := Binary.toInt
  remainder := Binary.remainder

end Relief
