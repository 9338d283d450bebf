import Relief.Binary
import Relief.Resources

namespace Relief

instance machineTrig : Trig Float where
  pi := 3.141592653589793
  sin := Float.sin
  cos := Float.cos
  atan := Float.atan
  atan2 := Float.atan2
  log := Float.log
  sqrt := Float.sqrt
  hypot := Binary.hypot

instance machineResources : Resources where
  block := 34359738368
  block_le_limit := by decide
  workers := 32768

end Relief
