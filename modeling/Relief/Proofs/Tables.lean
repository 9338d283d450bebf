import Relief.Binary

namespace Relief

/-- The entry of a table at a number; of one that is not listed, `rest`. -/
def tabled (entries : List (Float × Float)) (rest x : Float) : Float :=
  match entries.find? (·.1 == x) with
  | some e => e.2
  | none => rest

theorem tabled_cases {P : Float → Prop} {entries : List (Float × Float)} {rest x : Float}
    (h : ∀ e ∈ entries, (e.1 == x) = true → P e.2) (hrest : P rest) :
    P (tabled entries rest x) := by
  rw [tabled]
  cases he : entries.find? (·.1 == x) with
  | none => exact hrest
  | some e =>
    have hkey := List.find?_some he
    exact h e (List.mem_of_find?_eq_some he) hkey

def sines : List (Float × Float) :=
  [(1.5707963267948966, 1.0), (0.7853981633974483, 0.7071067811865475),
    (-0.7853981633974483, -0.7071067811865475)]

def arctangents : List (Float × Float) :=
  [(10.0, 1.4711276743037347), (4.5, 1.3521273809209546), (2.0, 1.1071487177940904),
    (1.0, 0.7853981633974483), (-1.0, -0.7853981633974483), (-2.0, -1.1071487177940904),
    (-3.0, -1.2490457723982544)]

def logarithms : List (Float × Float) :=
  [(0.5, -0.6931471805599453), (1.0, 0.0), (2.0, 0.6931471805599453), (3.0, 1.0986122886681098)]

/-- The elementary functions as the C library has them at some angles, slopes and numbers. They are
of no use elsewhere, but for their signs, and all steps are one long. -/
@[reducible]
def tableTrig : Trig Float where
  pi := 3.141592653589793
  sin := tabled sines 0.0
  cos := tabled [(0.0, 1.0), (1.5707963267948966, 6.123233995736766e-17)] 0.0
  atan t := tabled arctangents (if t.isNaN then t else 0.0) t
  atan2 y _ := tabled [(1.0, 1.5707963267948966)] 0.0 y
  log v := tabled logarithms (if v < 1.0 then -1.0 else if 1.0 < v then 1.0 else 0.0) v
  sqrt := tabled [(1.0, 1.0)] 0.0
  hypot _ _ := 1.0

end Relief
