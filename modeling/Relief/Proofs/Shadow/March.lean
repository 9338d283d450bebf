import Relief.Shadow
import Relief.Proofs.Binary.Nonnegative
import Relief.Proofs.Statistics
import Relief.Proofs.Walk

namespace Relief.Shadow

open Binary

structure Steady (ray : Ray Float) : Prop where
  ne_bot : value ray.height ≠ ⊥
  nonneg : 0.0 ≤ ray.volume

def advance (terrain : Terrain Float) (rise : Float) (ray : Ray Float) (c : Cell) : Ray Float :=
  { ray.pass (terrain.height c) with height := ray.height + rise }

variable {terrain : Terrain Float} {rise : Float} {ray : Ray Float} {c : Cell}

theorem pass_volume_of_not_lt {h : Option Float} (hh : ∀ z, h = some z → ¬ ray.height < z) :
    (ray.pass h).volume = ray.volume := by
  cases h with
  | none => rfl
  | some z => rw [Ray.pass, if_neg (hh z rfl)]

theorem Steady.pass_volume (hr : Steady ray) {z : Float} (h : ray.height < z) :
    0.0 ≤ (ray.pass (some z)).volume ∧ value ray.volume ≤ value (ray.pass (some z)).volume ∧
      0 < value (ray.pass (some z)).volume := by
  obtain ⟨hn, hpos⟩ := value_sub_pos h hr.ne_bot
  rw [Ray.pass, if_pos h]
  exact value_add_of_nonneg hr.nonneg hn hpos

theorem Steady.advance (hr : Steady ray) (hrise : ¬ rise < 0.0) (terrain : Terrain Float)
    (c : Cell) :
    Steady (advance terrain rise ray c) ∧
      value ray.volume ≤ value (advance terrain rise ray c).volume := by
  have hb : value (ray.height + rise) ≠ ⊥ := add_ne_bot hr.ne_bot hrise
  by_cases hz : ∃ z, terrain.height c = some z ∧ ray.height < z
  · obtain ⟨z, hz, hlt⟩ := hz
    obtain ⟨h0, hv, -⟩ := hr.pass_volume hlt
    rw [← hz] at h0 hv
    exact ⟨⟨hb, h0⟩, hv⟩
  · have hv : (ray.pass (terrain.height c)).volume = ray.volume :=
      pass_volume_of_not_lt fun z h hlt => hz ⟨z, h, hlt⟩
    exact ⟨⟨hb, hv ▸ hr.nonneg⟩, hv ▸ le_rfl⟩

/-- Terrain rises above a ray of height `z` that passes the cells one after another. -/
def RisesAbove (terrain : Terrain Float) (rise : Float) (cells : List Cell) (z : Float) : Prop :=
  ∃ k c h, cells[k]? = some c ∧ terrain.height c = some h ∧ (· + rise)^[k] z < h

theorem risesAbove_cons {cells : List Cell} {z : Float} :
    RisesAbove terrain rise (c :: cells) z ↔
      (∃ h, terrain.height c = some h ∧ z < h) ∨ RisesAbove terrain rise cells (z + rise) := by
  constructor
  · rintro ⟨k, d, h, hd, hh, hlt⟩
    cases k with
    | zero =>
      obtain rfl := Option.some.inj hd
      exact .inl ⟨h, hh, hlt⟩
    | succ k => exact .inr ⟨k, d, h, hd, hh, hlt⟩
  · rintro (⟨h, hh, hlt⟩ | ⟨k, d, h, hd, hh, hlt⟩)
    · exact ⟨0, c, h, rfl, hh, hlt⟩
    · exact ⟨k + 1, d, h, hd, hh, hlt⟩

theorem Steady.advance_volume_eq_zero_iff (hr : Steady ray) :
    value (Shadow.advance terrain rise ray c).volume = 0 ↔
      value ray.volume = 0 ∧ ¬ ∃ h, terrain.height c = some h ∧ ray.height < h := by
  by_cases hz : ∃ z, terrain.height c = some z ∧ ray.height < z
  · obtain ⟨z, hz', hlt⟩ := hz
    have hpos := (hr.pass_volume hlt).2.2
    rw [← hz'] at hpos
    exact iff_of_false hpos.ne' fun h => h.2 ⟨z, hz', hlt⟩
  · have hv : (ray.pass (terrain.height c)).volume = ray.volume :=
      pass_volume_of_not_lt fun z h hlt => hz ⟨z, h, hlt⟩
    rw [and_iff_left hz, ← hv]
    rfl

theorem Steady.volume_foldl (hr : Steady ray) (hrise : ¬ rise < 0.0) (terrain : Terrain Float)
    (cells : List Cell) :
    Steady (cells.foldl (Shadow.advance terrain rise) ray) ∧
      (value (cells.foldl (Shadow.advance terrain rise) ray).volume = 0 ↔
        value ray.volume = 0 ∧ ¬ RisesAbove terrain rise cells ray.height) := by
  induction cells generalizing ray with
  | nil =>
    refine ⟨hr, (and_iff_left ?_).symm⟩
    rintro ⟨k, c, h, hc, -⟩
    simp at hc
  | cons c cells ih =>
    obtain ⟨hs, hiff⟩ := ih (hr.advance hrise terrain c).1
    rw [List.foldl_cons, hiff, hr.advance_volume_eq_zero_iff, risesAbove_cons, not_or, and_assoc]
    exact ⟨hs, Iff.rfl⟩

def marchPath (terrain : Terrain Float) (motion : Motion Float) (steps : ℕ) (cell : Cell) :
    List Cell :=
  path terrain.shape.nearest (fun p => ⟨p.x + motion.x, p.y + motion.y⟩) steps
    (cell.position : Position Float)

variable {motion : Motion Float} {highest : Option Float} {cell : Cell} {z : Float} {n : ℕ}

theorem march_plain_eq_foldl :
    (march terrain motion rise (fun _ => true) n cell z).1 =
      (marchPath terrain motion n cell).foldl (Shadow.advance terrain rise) ⟨z, 0.0⟩ :=
  walk_eq_foldl (P := fun _ => True) (fun _ _ _ _ => rfl) (fun _ _ _ => trivial) n _ trivial

/-- No terrain is above the ray. -/
def Clears (terrain : Terrain Float) (ray : Ray Float) : Prop :=
  ∀ c h, terrain.height c = some h → ¬ ray.height < h

theorem Clears.advance (h : Clears terrain ray) (hrise : ¬ rise < 0.0) (c : Cell) :
    Clears terrain (Shadow.advance terrain rise ray c) ∧
      (Shadow.advance terrain rise ray c).volume = ray.volume :=
  ⟨fun d z hz => not_add_lt (h d z hz) hrise, pass_volume_of_not_lt fun z hz => h c z hz⟩

section Bounded

/-- No height of the terrain exceeds the highest one. -/
def Bounds (terrain : Terrain Float) (highest : Option Float) : Prop :=
  ∀ c h, terrain.height c = some h →
    ∃ m, highest = some m ∧ m.isNaN = false ∧ value h ≤ value m

theorem Bounds.clears (h : Bounds terrain highest) (hb : ¬ below highest ray.height = true) :
    Clears terrain ray := by
  intro c z hz hlt
  obtain ⟨m, rfl, hnm, hle⟩ := h c z hz
  obtain ⟨⟨hn, -⟩, hv⟩ := lt_iff.1 hlt
  exact hb (decide_eq_true (le_iff.2 ⟨⟨hn, hnm⟩, hv.le.trans hle⟩))

def marchVisit (terrain : Terrain Float) (rise : Float) (mayMeet : Float → Bool) :
    Position Float → Cell → Ray Float → Option (Ray Float) :=
  fun _ c ray => if mayMeet ray.height then some (advance terrain rise ray c) else none

variable {locate : Position Float → Option Cell} {next : Position Float → Position Float}

theorem Clears.walk_volume {mayMeet : Float → Bool} (h : Clears terrain ray)
    (hrise : ¬ rise < 0.0) (n : ℕ) (p : Position Float) :
    (walk locate next (marchVisit terrain rise mayMeet) n p ray).1.volume = ray.volume := by
  induction n generalizing p ray with
  | zero => rfl
  | succ n ih =>
    rw [walk]
    cases locate p with
    | none => rfl
    | some c =>
      obtain ⟨hc, hv⟩ := h.advance hrise c
      dsimp only [marchVisit]
      split_ifs
      · exact (ih hc (next p)).trans hv
      · rfl

/-- Giving a march up once the ray is above the highest cell leaves nothing out. -/
theorem Bounds.walk_volume (h : Bounds terrain highest) (hrise : ¬ rise < 0.0) (n : ℕ)
    (p : Position Float) :
    (walk locate next (marchVisit terrain rise (below highest)) n p ray).1.volume =
      (walk locate next (marchVisit terrain rise fun _ => true) n p ray).1.volume := by
  induction n generalizing p ray with
  | zero => rfl
  | succ n ih =>
    by_cases hb : below highest ray.height = true
    · rw [walk, walk]
      cases locate p with
      | none => rfl
      | some c =>
        simp only [marchVisit, hb, if_true]
        exact ih (next p)
    -- above the highest cell the plain march goes on, but nothing is added any more
    · rw [(h.clears hb).walk_volume hrise, (h.clears hb).walk_volume hrise]

end Bounded

theorem bounds_highest (dem : Raster Float32) :
    Bounds dem.terrain (dem.statistics.highest.map Sample.toFloat) :=
  fun _ _ h => Raster.height_le_highest h

theorem steady_start {dem : Raster Float32} (h : dem.terrain.height cell = some z) :
    Steady ⟨z, 0.0⟩ where
  ne_bot := (Raster.value_height h).2
  nonneg := le_iff.2 ⟨⟨isNaN_zero, isNaN_zero⟩, le_rfl⟩

theorem march_volume_eq (dem : Raster Float32) (motion : Motion Float)
    (hrise : ¬ rise < 0.0) (cell : Cell) (z : Float) (n : ℕ) :
    (march dem.terrain motion rise (below (dem.statistics.highest.map Sample.toFloat)) n
        cell z).1.volume =
      (march dem.terrain motion rise (fun _ => true) n cell z).1.volume :=
  (bounds_highest dem).walk_volume hrise n _

theorem march_volume_of_ended {dem : Raster Float32} (hrise : ¬ rise < 0.0) {m : ℕ}
    (hend : (march dem.terrain motion rise (below (dem.statistics.highest.map Sample.toFloat)) n
      cell z).2 ≠ .outOfSteps) (hle : n ≤ m) :
    (march dem.terrain motion rise (fun _ => true) m cell z).1.volume =
      (march dem.terrain motion rise (below (dem.statistics.highest.map Sample.toFloat)) n
        cell z).1.volume := by
  rw [← march_volume_eq dem motion hrise]
  exact congrArg (fun w => w.1.volume) (walk_of_ended hend hle)

theorem march_volume_iff {dem : Raster Float32} (motion : Motion Float)
    (hrise : ¬ rise < 0.0) (h : dem.terrain.height cell = some z) (n : ℕ) :
    0.0 ≤ (march dem.terrain motion rise (fun _ => true) n cell z).1.volume ∧
      (value (march dem.terrain motion rise (fun _ => true) n cell z).1.volume = 0 ↔
        ¬ RisesAbove dem.terrain rise (marchPath dem.terrain motion n cell) z) := by
  obtain ⟨hs, hiff⟩ := (steady_start h).volume_foldl hrise dem.terrain
    (marchPath dem.terrain motion n cell)
  rw [march_plain_eq_foldl]
  exact ⟨hs.nonneg, hiff.trans (and_iff_right value_zero)⟩

theorem march_volume_beq {dem : Raster Float32} (motion : Motion Float)
    (hrise : ¬ rise < 0.0) (h : dem.terrain.height cell = some z) (n : ℕ) :
    ((march dem.terrain motion rise (fun _ => true) n cell z).1.volume == 0.0) = true ↔
      ¬ RisesAbove dem.terrain rise (marchPath dem.terrain motion n cell) z := by
  obtain ⟨h0, hiff⟩ := march_volume_iff motion hrise h n
  rw [beq_iff, and_iff_right ⟨(le_iff.1 h0).1.2, isNaN_zero⟩, value_zero, hiff]

/-- The shade of a cell that is not void. -/
theorem exactShade_eq [Trig Float] {dem : Raster Float32} (motion : Motion Float)
    (hrise : ¬ rise < 0.0) (h : dem.terrain.height cell = some z) :
    let volume := (march dem.terrain motion rise (fun _ => true) marchSteps cell z).1.volume
    let rises := RisesAbove dem.terrain rise (marchPath dem.terrain motion marchSteps cell) z
    let shade := exactShade dem.terrain motion rise (dem.statistics.highest.map Sample.toFloat) cell
    (¬ rises → shade = 0.0) ∧ (rises → 0.0 < volume ∧ shade = Trig.log volume) := by
  have hv := march_volume_eq dem motion hrise cell z marchSteps
  have hbeq := march_volume_beq motion hrise h marchSteps
  obtain ⟨h0, hiff⟩ := march_volume_iff motion hrise h marchSteps
  intro volume rises shade
  have hshade : shade = if volume == 0.0 then 0.0 else Trig.log volume := by
    change exactShade _ _ _ _ _ = _
    rw [exactShade, h]
    dsimp only
    rw [hv, volumeShade]
  constructor
  · intro hr
    rw [hshade, if_pos (hbeq.2 hr)]
  · intro hr
    obtain ⟨hn, hle⟩ := le_iff.1 h0
    rw [value_zero] at hle
    refine ⟨lt_iff.2 ⟨hn, ?_⟩, by rw [hshade, if_neg (fun hb => hbeq.1 hb hr)]⟩
    exact lt_of_le_of_ne hle fun heq => hiff.1 heq.symm hr

def Undefined (shade : Float32) : Prop :=
  shade.isNaN = true ∨ (shade.isInf = true ∧ shade < 0.0)

theorem singleValue_of_isInf {w : Float32} (h : w.isInf = true) (h0 : w < 0.0) :
    singleValue w = ⊥ := by
  have hlt := (single_lt_iff.1 h0).2
  change w.toModel.unpack.isInf = true at h
  change Binary.extended w.toModel.unpack = ⊥
  change Binary.extended w.toModel.unpack < 0 at hlt
  cases hu : w.toModel.unpack with
  | finite | zero | notANumber =>
    rw [hu] at h
    cases h
  | infinity s =>
    cases s with
    | negative => rfl
    | positive =>
      rw [hu] at hlt
      exact absurd hlt (by simp [Binary.extended])

theorem number_floorOfLog : (-746.0 : Float).isFinite = true ∧ number (-746.0) = -746 := by
  have h : (746.0 : Float).toModel.unpack =
      .finite .positive (746 * 2 ^ 43) (-43) (by norm_num) := rfl
  refine ⟨isFinite_neg (by decide), ?_⟩
  rw [number_neg, number, h, real, signed]
  norm_num

theorem not_undefined_narrow {x : Float} (h : -746.0 ≤ x) : ¬ Undefined (narrow x) := by
  obtain ⟨⟨-, hnx⟩, hle⟩ := le_iff.1 h
  obtain ⟨hn, hv⟩ := singleValue_narrow hnx
  have hr : Float.Model.Format.binary32.minExponent ≤ 0 := minExponent_nonpos _
  have hrep : Representable .binary32 (-746) := ⟨-746, 0, by decide, hr, by norm_num⟩
  have hl : |(-746 : ℝ)| < limit .binary32 := by
    have hlim : limit .binary32 = 2 ^ 128 := rfl
    rw [hlim]
    norm_num
  have hd : delivered .binary32 ((-746 : ℝ) : EReal) = ((-746 : ℝ) : EReal) := by
    rw [delivered_coe, hrep.rounded_eq, clip_coe hl]
  have hmono : delivered .binary32 _ ≤ delivered .binary32 _ := delivered_mono hle
  rw [value_of_isFinite number_floorOfLog.1, number_floorOfLog.2, hd, ← hv] at hmono
  rintro (hnan | ⟨hinf, hneg⟩)
  · rw [hn] at hnan
    cases hnan
  · rw [singleValue_of_isInf hinf hneg] at hmono
    exact EReal.coe_ne_bot _ (le_bot_iff.1 hmono)

/-- Giving up above the highest cell loses nothing: the volume is that of the march that goes on to
the edge of the grid, and it is zero exactly when no terrain rises above the ray. So the shade is 1
for a void, 0 where nothing rises and otherwise the logarithm of a positive volume, and it is always
defined. -/
theorem march_cutOff_lossless [Trig Float] (dem : Raster Float32) (sun : Sun Float) (cell : Cell)
    (hrise : 0.0 ≤ sun.z) (hlog : ∀ v : Float, 0.0 < v → -746.0 ≤ Trig.log v) :
    let highest := dem.statistics.highest.map Sample.toFloat
    let shade := exactShade dem.terrain sun.toMotion sun.z highest cell
    (∀ z, dem.terrain.height cell = some z →
      let cutOff := fun n => march dem.terrain sun.toMotion sun.z (below highest) n cell z
      let plain := fun n => (march dem.terrain sun.toMotion sun.z (fun _ => true) n cell z).1.volume
      let rises := fun n =>
        RisesAbove dem.terrain sun.z (marchPath dem.terrain sun.toMotion n cell) z
      (∀ n, (cutOff n).1.volume = plain n) ∧
      (∀ n, (cutOff n).2 ≠ .outOfSteps → ∀ m ≥ n, plain m = (cutOff n).1.volume) ∧
      (∀ n, ((cutOff n).1.volume == 0.0) = true ↔ ¬ rises n) ∧
      (¬ rises marchSteps → shade = 0.0) ∧
      (rises marchSteps → 0.0 < plain marchSteps ∧ shade = Trig.log (plain marchSteps))) ∧
    (dem.terrain.height cell = none → shade = 1.0) ∧
    ¬ Undefined (Sample.ofFloat shade) := by
  intro highest shade
  have hrise := not_neg_of_nonneg hrise
  have hvoid : dem.terrain.height cell = none → shade = 1.0 := by
    intro h
    change exactShade _ _ _ _ _ = _
    rw [exactShade, h]
  refine ⟨?_, hvoid, not_undefined_narrow ?_⟩
  · intro z h cutOff plain rises
    obtain ⟨hlit, hdark⟩ := exactShade_eq sun.toMotion hrise h
    have hvol (n : ℕ) : (cutOff n).1.volume = plain n := march_volume_eq dem _ hrise cell z n
    refine ⟨hvol, ?_, ?_, hlit, hdark⟩
    · intro n hend m hm
      rw [← hvol m]
      exact congrArg (fun w => w.1.volume) (walk_of_ended hend hm)
    · intro n
      rw [hvol n]
      exact march_volume_beq _ hrise h n
  · cases h : dem.terrain.height cell with
    | none =>
      rw [hvoid h]
      decide +kernel
    | some z =>
      obtain ⟨hlit, hdark⟩ := exactShade_eq sun.toMotion hrise h
      by_cases hr : RisesAbove dem.terrain sun.z
          (marchPath dem.terrain sun.toMotion marchSteps cell) z
      · obtain ⟨hpos, hs⟩ := hdark hr
        change -746.0 ≤ exactShade _ _ _ _ _
        rw [hs]
        exact hlog _ hpos
      · change -746.0 ≤ exactShade _ _ _ _ _
        rw [hlit hr]
        decide +kernel

@[reducible]
def logOfTwo : Trig Float where
  pi := 3.141592653589793
  sin _ := 0.0
  cos _ := 0.0
  atan _ := 0.0
  atan2 _ _ := 0.0
  log v := if v == 2.0 then 0.6931471805599453 else 0.0
  sqrt _ := 0.0
  hypot _ _ := 0.0

theorem march_cutOff_lossless_wall :
    letI := logOfTwo
    let dem : Raster Float32 := ⟨⟨1, 2⟩, #[0.0, 3.0], .unit ⟨1, 2⟩, rfl, by decide⟩
    let sun : Sun Float := ⟨⟨1.0, 0.0⟩, 1.0⟩
    let highest := dem.statistics.highest.map Sample.toFloat
    let shade := exactShade dem.terrain sun.toMotion sun.z highest ⟨0, 0⟩
    0.0 ≤ sun.z ∧ (∀ v : Float, 0.0 < v → -746.0 ≤ Trig.log v) ∧
      shade = 0.6931471805599453 ∧ ¬ Undefined (Sample.ofFloat shade) := by
  let : Trig Float := logOfTwo
  intro dem sun highest shade
  have hrise : 0.0 ≤ sun.z := by decide +kernel
  have hlog : ∀ v : Float, 0.0 < v → -746.0 ≤ Trig.log v := by
    intro v _
    change -746.0 ≤ if v == 2.0 then 0.6931471805599453 else 0.0
    split_ifs
    · decide +kernel
    · decide +kernel
  obtain ⟨hcell, -, hdef⟩ := march_cutOff_lossless dem sun ⟨0, 0⟩ hrise hlog
  obtain ⟨-, -, -, -, hdark⟩ := hcell 0.0 (by decide +kernel)
  have hpath : (marchPath dem.terrain sun.toMotion marchSteps ⟨0, 0⟩)[1]? = some ⟨0, 1⟩ := by
    rw [marchPath, path_getElem?_eq_some]
    refine ⟨by decide, ?_, by decide +kernel⟩
    intro j hj
    obtain rfl : j = 0 := by omega
    decide +kernel
  have hrises : RisesAbove dem.terrain sun.z
      (marchPath dem.terrain sun.toMotion marchSteps ⟨0, 0⟩) 0.0 :=
    ⟨1, ⟨0, 1⟩, 3.0, hpath, by decide +kernel, by decide +kernel⟩
  have hended : march dem.terrain sun.toMotion sun.z (fun _ => true) marchSteps ⟨0, 0⟩ 0.0 =
      march dem.terrain sun.toMotion sun.z (fun _ => true) 3 ⟨0, 0⟩ 0.0 :=
    walk_of_ended (by decide +kernel) (by decide)
  have hshade := (hdark hrises).2
  dsimp only at hshade
  rw [hended] at hshade
  exact ⟨hrise, hlog, hshade.trans (by decide +kernel), hdef⟩

end Relief.Shadow
