import Relief.Binary

namespace Relief

class Sample (τ : Type) where
  zero : τ
  void : τ
  /-- Whether a value marks a void: no number, or at most the floor `-1e38`. -/
  isVoid : τ → Bool
  toFloat : τ → Float
  ofFloat : Float → τ
  width : Nat

instance binary32Sample : Sample Float32 where
  zero := 0.0
  void := -3.4028235e38
  isVoid v := v.isNaN || v ≤ -1.0e38
  toFloat := Binary.widen
  ofFloat := Binary.narrow
  width := 4

instance binary64Sample : Sample Float where
  zero := 0.0
  void := -3.40282347e38
  isVoid v := v.isNaN || v ≤ -1.0e38
  toFloat := id
  ofFloat := id
  width := 8

end Relief
