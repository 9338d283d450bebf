import Relief.Error

namespace Relief

/-- More bytes or items than this cannot be addressed, `2 ^ 63 - 1`. -/
def addressLimit : Nat := 9223372036854775807

class Resources where
  block : Nat
  block_le_limit : block ≤ addressLimit
  workers : Nat

/-- The list of the items at `0`, …, `count - 1`, of a width in bytes, unless so many cannot be
addressed. -/
def tabulate {β : Type} (count width : Nat) (item : Nat → β) : Except Error (List β) :=
  if count * width ≤ addressLimit then .ok ((List.range count).map item)
  else .error .capacityOverflow

end Relief
