import Relief.Proofs.Analyses
import Relief.Proofs.Binary.Iteration
import Relief.Proofs.Binary.Opposite
import Relief.Proofs.Location
import Relief.Proofs.Walk

namespace Relief

open Binary

section Line

variable {count : ℕ} {x y z s : Float} {d e : ℕ}

theorem OnLine.between (hx : OnLine count x) (hz : OnLine count z) (hxy : x ≤ y) (hyz : y ≤ z) :
    OnLine count y := by
  have hy : y.isFinite = true := isFinite_of_between hxy hyz hx.1 hz.1
  rw [le_iff_number hx.1 hy] at hxy
  rw [le_iff_number hy hz.1] at hyz
  refine ⟨hy, hx.2.1.trans (halfAway_mono hxy), ?_⟩
  have hle : ((halfAway (number y) : ℝ) : EReal) ≤ (halfAway (number z) : ℝ) := by
    exact_mod_cast halfAway_mono hyz
  exact hle.trans_lt hz.2.2

theorem multiple_between (h : d ≤ e) (hmul : (s * (e : Float)).isFinite = true) :
    0.0 ≤ s * (d : Float) ∧ s * (d : Float) ≤ s * (e : Float) ∨
      s * (e : Float) ≤ s * (d : Float) ∧ s * (d : Float) ≤ 0.0 := by
  obtain ⟨hs, he⟩ := isFinite_of_mul hmul
  have hd : (d : Float).isFinite = true :=
    isFinite_of_between (natCast_nonneg d) (natCast_mono h) isFinite_zero he
  have h0 := (le_iff_number isFinite_zero hd).1 (natCast_nonneg d)
  have hde := (le_iff_number hd he).1 (natCast_mono h)
  obtain ⟨hnd, hvd⟩ := value_mul hs hd
  obtain ⟨hne, hve⟩ := value_mul hs he
  have hzero : (0 : EReal) = delivered .binary64 ((0 : ℝ) : EReal) := by
    rw [EReal.coe_zero, delivered_zero]
  rw [number_zero] at h0
  rw [le_iff_of_number isNaN_zero hnd, le_iff_of_number hnd hne, le_iff_of_number hne hnd,
    le_iff_of_number hnd isNaN_zero, value_zero, hvd, hve, hzero]
  rcases le_total 0 (number s) with hsign | hsign
  · left
    constructor
    · exact delivered_mono (EReal.coe_le_coe_iff.2 (mul_nonneg hsign h0))
    · exact delivered_mono (EReal.coe_le_coe_iff.2 (mul_le_mul_of_nonneg_left hde hsign))
  · right
    constructor
    · exact delivered_mono (EReal.coe_le_coe_iff.2 (mul_le_mul_of_nonpos_left hde hsign))
    · exact delivered_mono (EReal.coe_le_coe_iff.2 (mul_nonpos_of_nonpos_of_nonneg hsign h0))

/-- A line that starts on the grid and is on it further out has not left it in between. -/
theorem OnLine.multiple (hx : OnLine count x) (he : OnLine count (x + s * (e : Float)))
    (h : d ≤ e) : OnLine count (x + s * (d : Float)) := by
  obtain ⟨-, hmul⟩ := isFinite_of_add he.1
  have hadd {a b : Float} (hab : a ≤ b) (ha : a.isFinite = true) : x + a ≤ x + b := by
    have hself : x ≤ x := (le_iff_number hx.1 hx.1).2 le_rfl
    exact add_mono hself hab (isFinite_iff.1 hx.1).2.1 (isFinite_iff.1 ha).2.1
  have hstart : OnLine count (x + 0.0) := by
    obtain ⟨hn, hv⟩ := value_add_number hx.1 isFinite_zero
    rw [number_zero, add_zero, ← value_of_isFinite hx.1, delivered_value] at hv
    exact hx.congr hn hv
  rcases multiple_between h hmul with ⟨h0, hle⟩ | ⟨hle, h0⟩
  · have hfin : (s * (d : Float)).isFinite = true := isFinite_of_between h0 hle isFinite_zero hmul
    exact hstart.between he (hadd h0 isFinite_zero) (hadd hle hfin)
  · have hfin : (s * (d : Float)).isFinite = true := isFinite_of_between hle h0 hmul isFinite_zero
    exact he.between hstart (hadd hle hmul) (hadd h0 hfin)

end Line

section Extremes

variable {angles : Set Float} {x a : Float}

structure Greatest (angles : Set Float) (x : Float) : Prop where
  mem : x ∈ angles
  isNaN : x.isNaN = false
  le : ∀ a ∈ angles, a.isNaN = false → a ≤ x

structure Least (angles : Set Float) (x : Float) : Prop where
  mem : x ∈ angles
  isNaN : x.isNaN = false
  le : ∀ a ∈ angles, a.isNaN = false → x ≤ a

theorem greatest_insert (h : Greatest angles x) (a : Float) :
    Greatest (insert a angles) (if x < a then a else x) := by
  split_ifs with hlt
  · have ha : a.isNaN = false := (lt_iff.1 hlt).1.2
    refine ⟨Set.mem_insert a angles, ha, ?_⟩
    rintro b (rfl | hb) hn
    · exact le_self_of_number ha
    · exact trans_le (h.le b hb hn) (lt_imp_le hlt)
  · refine ⟨Set.mem_insert_of_mem a h.mem, h.isNaN, ?_⟩
    rintro b (rfl | hb) hn
    · exact le_of_not_lt_of_number h.isNaN hn hlt
    · exact h.le b hb hn

theorem least_insert (h : Least angles x) (a : Float) :
    Least (insert a angles) (if a < x then a else x) := by
  split_ifs with hlt
  · have ha : a.isNaN = false := (lt_iff.1 hlt).1.1
    refine ⟨Set.mem_insert a angles, ha, ?_⟩
    rintro b (rfl | hb) hn
    · exact le_self_of_number ha
    · exact trans_le (lt_imp_le hlt) (h.le b hb hn)
  · refine ⟨Set.mem_insert_of_mem a h.mem, h.isNaN, ?_⟩
    rintro b (rfl | hb) hn
    · exact le_of_not_lt_of_number hn h.isNaN hlt
    · exact h.le b hb hn

theorem greatest_of_isNaN (h : ∀ b ∈ angles, b.isNaN = true) (ha : a.isNaN = false) :
    Greatest (insert a angles) a := by
  refine ⟨Set.mem_insert a angles, ha, ?_⟩
  rintro b (rfl | hb) hn
  · exact le_self_of_number ha
  · exact absurd (h b hb) (ne_true_of_eq_false hn)

theorem least_of_isNaN (h : ∀ b ∈ angles, b.isNaN = true) (ha : a.isNaN = false) :
    Least (insert a angles) a := by
  refine ⟨Set.mem_insert a angles, ha, ?_⟩
  rintro b (rfl | hb) hn
  · exact le_self_of_number ha
  · exact absurd (h b hb) (ne_true_of_eq_false hn)

end Extremes

namespace Horizon

section Spans

variable {range : Option (Horizon Float)} {angles : Set Float}

structure Spans (range : Option (Horizon Float)) (angles : Set Float) : Prop where
  none_iff : range = none ↔ ∀ a ∈ angles, a.isNaN = true
  upper : ∀ h, range = some h → Greatest angles h.upper
  lower : ∀ h, range = some h → Least angles h.lower

theorem spans_empty : Spans none ∅ where
  none_iff := iff_of_true rfl fun a h => absurd h (Set.notMem_empty a)
  upper _ h := nomatch h
  lower _ h := nomatch h

theorem Spans.of_some {h : Horizon Float} (hu : Greatest angles h.upper)
    (hl : Least angles h.lower) : Spans (some h) angles where
  none_iff := by
    refine iff_of_false (Option.some_ne_none h) fun hall => ?_
    exact absurd (hall _ hu.mem) (ne_true_of_eq_false hu.isNaN)
  upper _ hh := Option.some.inj hh ▸ hu
  lower _ hh := Option.some.inj hh ▸ hl

theorem Spans.widen (h : Spans range angles) (a : Float) :
    Spans (widen range a) (insert a angles) := by
  cases hr : range with
  | none =>
    have hall := h.none_iff.1 hr
    rw [Horizon.widen]
    split_ifs with ha
    · have hn : a.isNaN = false := (le_iff.1 ha).1.1
      exact .of_some (greatest_of_isNaN hall hn) (least_of_isNaN hall hn)
    · have hn : a.isNaN = true := by
        by_contra hn
        exact ha (le_self_of_number (eq_false_of_ne_true hn))
      refine ⟨iff_of_true rfl ?_, nofun, nofun⟩
      rintro b (rfl | hb)
      · exact hn
      · exact hall b hb
  | some r => exact .of_some (greatest_insert (h.upper r hr) a) (least_insert (h.lower r hr) a)

theorem Spans.foldl (h : Spans range angles) (l : List Float) :
    Spans (l.foldl Horizon.widen range) (angles ∪ {a | a ∈ l}) := by
  induction l generalizing range angles with
  | nil => simpa using h
  | cons a l ih =>
    have hset : angles ∪ {b | b ∈ a :: l} = insert a angles ∪ {b | b ∈ l} := by
      ext b
      simp [or_assoc, or_left_comm]
    rw [hset]
    exact ih (h.widen a)

/-- What a profile tells of the angles along a direction: nothing if none of them is a number, else
the range of them all and the horizontal. -/
structure Tells (entry : Option (Horizon Float)) (angles : Set Float) : Prop where
  none_iff : entry = none ↔ ∀ a ∈ angles, a.isNaN = true
  upper : ∀ h, entry = some h → Greatest (insert 0.0 angles) h.upper
  lower : ∀ h, entry = some h → Least (insert 0.0 angles) h.lower

theorem Spans.clamp (h : Spans range angles) : Tells (range.map Horizon.clamp) angles where
  none_iff := Option.map_eq_none_iff.trans h.none_iff
  upper := by
    intro h' hh
    obtain ⟨r, hr, rfl⟩ := Option.map_eq_some_iff.1 hh
    exact greatest_insert (h.upper r hr) 0.0
  lower := by
    intro h' hh
    obtain ⟨r, hr, rfl⟩ := Option.map_eq_some_iff.1 hh
    exact least_insert (h.lower r hr) 0.0

theorem Tells.bounds {entry : Option (Horizon Float)} (h : Tells entry angles) {r : Horizon Float}
    (hr : entry = some r) : r.lower ≤ 0.0 ∧ 0.0 ≤ r.upper :=
  ⟨(h.lower r hr).le 0.0 (Set.mem_insert 0.0 angles) isNaN_zero,
    (h.upper r hr).le 0.0 (Set.mem_insert 0.0 angles) isNaN_zero⟩

end Spans

variable {terrain : Terrain Float} {base : Cell} {z : Float} {direction : Direction Float}
  {stride maxDistance n d e : ℕ}

/-- A line from a cell on the grid that is on the grid further out has not left it in between. -/
theorem isSome_nearest_placeAt {shape : Shape}
    (hbase : (shape.nearest (base.position : Position Float)).isSome)
    (he : (shape.nearest (placeAt direction base e)).isSome) (h : d ≤ e) :
    (shape.nearest (placeAt direction base d)).isSome := by
  rw [Shape.isSome_nearest_iff] at hbase he ⊢
  exact ⟨hbase.1.multiple he.1 h, hbase.2.multiple he.2 h⟩

def multiples (stride maxDistance : ℕ) : Set ℕ :=
  {d | 0 < d ∧ stride ∣ d ∧ d ≤ maxDistance}

/-- The multiples of a stride at which the line from a cell has not left the grid yet. -/
def unbroken (shape : Shape) (base : Cell) (direction : Direction Float)
    (stride maxDistance : ℕ) : Set ℕ :=
  {d ∈ multiples stride maxDistance | ∀ e ∈ multiples stride d,
    (shape.nearest (placeAt direction base e)).isSome}

theorem iterate_stride (stride k : ℕ) : (· + stride)^[k] stride = stride * (k + 1) := by
  rw [add_right_iterate_apply, smul_eq_mul]
  ring

theorem mem_multiples_iff (hs : 0 < stride) :
    d ∈ multiples stride maxDistance ↔ ∃ k < maxDistance / stride, d = stride * (k + 1) := by
  constructor
  · rintro ⟨hd, ⟨k, rfl⟩, hle⟩
    obtain ⟨k, rfl⟩ := Nat.exists_eq_add_one_of_ne_zero (Nat.pos_of_mul_pos_left hd).ne'
    refine ⟨k, ?_, rfl⟩
    rwa [Nat.lt_iff_add_one_le, Nat.le_div_iff_mul_le hs, mul_comm]
  · rintro ⟨k, hk, rfl⟩
    rw [Nat.lt_iff_add_one_le, Nat.le_div_iff_mul_le hs, mul_comm] at hk
    exact ⟨Nat.mul_pos hs k.succ_pos, Dvd.intro _ rfl, hk⟩

theorem isSome_nearest_base {dem : Raster Float32} (hz : dem.terrain.height base = some z)
    (hfar : 2 ^ 53 ≤ base.row ∨ 2 ^ 53 ≤ base.col →
      (dem.shape.nearest (base.position : Position Float)).isSome) :
    (dem.shape.nearest (base.position : Position Float)).isSome := by
  by_cases hsmall : base.row < 2 ^ 53 ∧ base.col < 2 ^ 53
  · have hnear := Shape.nearest_position (Raster.contains_of_height hz) hsmall.1 hsmall.2
    exact Option.isSome_of_eq_some hnear
  · exact hfar (by omega)

section Samples

variable [Trig Float]

/-- The angles to the cells nearest to the places at given distances, as far as these lie in the
grid and are not void. -/
def seen (terrain : Terrain Float) (base : Cell) (z : Float) (direction : Direction Float)
    (distances : Set ℕ) : Set Float :=
  {a | ∃ d ∈ distances, ∃ c h, terrain.shape.nearest (placeAt direction base d) = some c ∧
    terrain.height c = some h ∧ a = Trig.atan ((h - z) / ((d : Float) * direction.groundStep))}

theorem seen_unbroken (hbase : (terrain.shape.nearest (base.position : Position Float)).isSome) :
    seen terrain base z direction (unbroken terrain.shape base direction stride maxDistance) =
      seen terrain base z direction (multiples stride maxDistance) := by
  ext a
  constructor
  · rintro ⟨d, ⟨hd, -⟩, h⟩
    exact ⟨d, hd, h⟩
  · rintro ⟨d, hd, c, h, hc, hh⟩
    refine ⟨d, ⟨hd, ?_⟩, c, h, hc, hh⟩
    intro e he
    exact isSome_nearest_placeAt hbase (Option.isSome_of_eq_some hc) he.2.2

def angleTo (terrain : Terrain Float) (z : Float) (direction : Direction Float) (d : ℕ)
    (c : Cell) : Option Float :=
  (terrain.height c).map fun h => Trig.atan ((h - z) / ((d : Float) * direction.groundStep))

def samples (terrain : Terrain Float) (base : Cell) (z : Float) (direction : Direction Float)
    (stride maxDistance : ℕ) : List Float :=
  found (fun d => terrain.shape.nearest (placeAt direction base d)) (· + stride)
    (angleTo terrain z direction) (maxDistance / stride) stride

theorem angles_eq_foldl : angles terrain base z direction stride maxDistance =
    (samples terrain base z direction stride maxDistance).foldl widen none := by
  refine walk_eq_foldl_found ?_ _ _ _
  intro d c range
  rw [angleTo]
  cases terrain.height c with
  | none => rfl
  | some h => rfl

theorem angleTo_eq_some {c : Cell} {a : Float} : angleTo terrain z direction d c = some a ↔
    ∃ h, terrain.height c = some h ∧
      a = Trig.atan ((h - z) / ((d : Float) * direction.groundStep)) := by
  rw [angleTo, Option.map_eq_some_iff]
  exact exists_congr fun h => and_congr_right fun _ => eq_comm

theorem mem_samples (hs : 0 < stride) {a : Float} :
    a ∈ samples terrain base z direction stride maxDistance ↔
      a ∈ seen terrain base z direction
        (unbroken terrain.shape base direction stride maxDistance) := by
  rw [samples, mem_found]
  simp only [iterate_stride, angleTo_eq_some]
  constructor
  · rintro ⟨k, hk, hj, c, hc, h, hh, ha⟩
    refine ⟨_, ⟨(mem_multiples_iff hs).2 ⟨k, hk, rfl⟩, ?_⟩, c, h, hc, hh, ha⟩
    intro e he
    obtain ⟨j, hjk, rfl⟩ := (mem_multiples_iff hs).1 he
    rw [Nat.mul_div_cancel_left _ hs] at hjk
    rcases Nat.lt_succ_iff_lt_or_eq.1 hjk with hlt | rfl
    · exact hj j hlt
    · exact Option.isSome_of_eq_some hc
  · rintro ⟨d, ⟨hd, hreach⟩, c, h, hc, hh, ha⟩
    obtain ⟨k, hk, rfl⟩ := (mem_multiples_iff hs).1 hd
    refine ⟨k, hk, fun j hj => hreach _ ?_, c, hc, h, hh, ha⟩
    refine (mem_multiples_iff hs).2 ⟨j, ?_, rfl⟩
    rw [Nat.mul_div_cancel_left _ hs]
    omega

theorem tells_along (hs : 0 < stride) : Tells (along terrain base z stride maxDistance direction)
    (seen terrain base z direction
      (unbroken terrain.shape base direction stride maxDistance)) := by
  have hspans := spans_empty.foldl (samples terrain base z direction stride maxDistance)
  have hset : ∅ ∪ {a | a ∈ samples terrain base z direction stride maxDistance} =
      seen terrain base z direction (unbroken terrain.shape base direction stride maxDistance) := by
    rw [Set.empty_union]
    exact Set.ext fun a => mem_samples hs
  rw [hset] at hspans
  rw [along, angles_eq_foldl]
  exact hspans.clamp

theorem along_of_off_grid
    (h : terrain.shape.nearest (placeAt direction base stride) = none) :
    along terrain base z stride maxDistance direction = none := by
  rw [along, angles]
  cases maxDistance / stride with
  | zero => rfl
  | succ n =>
    rw [walk, h]
    rfl

/-- A profile has one entry for each direction, whatever its buffer held. It tells the range of all
angles to be seen at multiples of the stride, a stride of zero counting as one, and of the
horizontal; and nothing where none is a number, or from a void. Where the base cell has coordinates
that are rounded off the grid, that is so as far as the line first leaves the grid. -/
theorem profile_covers_samples (dem : Raster Float32) (base : Cell)
    (directions : List (Direction Float)) (stride maxDistance : ℕ)
    (buffer : Array (Option (Horizon Float))) :
    let profile := profileInto buffer dem.terrain base directions stride maxDistance
    profile.size = directions.length ∧
      (dem.terrain.height base = none → ∀ i < directions.length, profile[i]? = some none) ∧
      ∀ z, dem.terrain.height base = some z → ∀ (i : ℕ) direction, directions[i]? = some direction →
        ∃ entry, profile[i]? = some entry ∧
          (∀ h, entry = some h → h.lower ≤ 0.0 ∧ 0.0 ≤ h.upper) ∧
          Tells entry (seen dem.terrain base z direction
            (unbroken dem.shape base direction (max stride 1) maxDistance)) ∧
          ((2 ^ 53 ≤ base.row ∨ 2 ^ 53 ≤ base.col →
              (dem.shape.nearest (base.position : Position Float)).isSome) →
            Tells entry (seen dem.terrain base z direction
              (multiples (max stride 1) maxDistance))) := by
  intro profile
  have hlist : profile.toList = directions.map fun direction =>
      (dem.terrain.height base).bind fun z =>
        along dem.terrain base z (max stride 1) maxDistance direction := by
    change (profileInto _ _ _ _ _ _).toList = _
    rw [profileInto_eq, toList_profile]
  refine ⟨?_, ?_, ?_⟩
  · rw [← Array.length_toList, hlist, List.length_map]
  · intro hz i hi
    rw [← Array.getElem?_toList, hlist, List.getElem?_map, List.getElem?_eq_getElem hi, hz]
    rfl
  · intro z hz i direction hi
    have htells : Tells (along dem.terrain base z (max stride 1) maxDistance direction)
        (seen dem.terrain base z direction
          (unbroken dem.terrain.shape base direction (max stride 1) maxDistance)) :=
      tells_along (by omega)
    refine ⟨_, ?_, fun h => htells.bounds, htells, ?_⟩
    · rw [← Array.getElem?_toList, hlist, List.getElem?_map, hi, hz]
      rfl
    · intro hfar
      have hbase : (dem.terrain.shape.nearest (base.position : Position Float)).isSome :=
        isSome_nearest_base hz hfar
      rwa [seen_unbroken hbase] at htells

end Samples

/-- Along a row a void, a hill and a hollow, seen from the cell before them. -/
theorem profile_covers_samples_hill :
    letI := tableTrig
    let dem : Raster Float32 :=
      ⟨⟨1, 4⟩, #[0.0, -1.0e38, 2.0, -3.0], .unit ⟨1, 4⟩, rfl, by decide⟩
    let east : Direction Float := ⟨1.0, 0.0, 1.0⟩
    let slopes : Horizon Float := ⟨0.7853981633974483, -0.7853981633974483⟩
    profileInto #[none, none] dem.terrain ⟨0, 0⟩ [east] 0 9 = #[some slopes] ∧
      Tells (some slopes) (seen dem.terrain ⟨0, 0⟩ 0.0 east (multiples 1 9)) := by
  let : Trig Float := tableTrig
  intro dem east slopes
  have hprofile : profileInto #[none, none] dem.terrain ⟨0, 0⟩ [east] 0 9 = #[some slopes] := by
    decide +kernel
  obtain ⟨-, -, hentries⟩ := profile_covers_samples dem ⟨0, 0⟩ [east] 0 9 #[none, none]
  obtain ⟨entry, hentry, -, -, htells⟩ := hentries 0.0 (by decide +kernel) 0 east rfl
  rw [hprofile] at hentry
  obtain rfl := Option.some.inj hentry
  exact ⟨hprofile, htells fun hfar => absurd hfar (by decide)⟩

theorem exists_far_row :
    let base : Cell := ⟨0, 2 ^ 53 + 3⟩
    let west : Direction Float := ⟨-1.0, 0.0, 1.0⟩
    ∃ dem : Raster Float32, Raster.filled ⟨1, 2 ^ 53 + 4⟩ 0.0 = .ok dem ∧
      dem.terrain.height base = some 0.0 ∧
      dem.terrain.shape.nearest (placeAt west base 1) = none ∧
      ∃ c, dem.terrain.shape.nearest (placeAt west base 2) = some c ∧
        dem.terrain.height c = some 0.0 := by
  intro base west
  obtain ⟨dem, hdem, hshape⟩ : ∃ dem : Raster Float32,
      Raster.filled ⟨1, 2 ^ 53 + 4⟩ 0.0 = .ok dem ∧ dem.shape = ⟨1, 2 ^ 53 + 4⟩ :=
    Raster.exists_filled (by decide)
  have hheight (c : Cell) (hc : dem.shape.Contains c) : dem.terrain.height c = some 0.0 :=
    Raster.height_filled hdem (by decide +kernel) hc
  have hterrain : dem.terrain.shape = ⟨1, 2 ^ 53 + 4⟩ := hshape
  refine ⟨dem, hdem, hheight base ?_, ?_, ⟨0, 2 ^ 53 + 2⟩, ?_, hheight _ ?_⟩
  · rw [hshape]
    decide
  · rw [hterrain]
    decide +kernel
  · rw [hterrain]
    decide +kernel
  · rw [hshape]
    decide

/-- Far in the east of a level row a cell is rounded off the grid. A profile to the west ends at the
first place, which is off the grid too, though the second is back on it. -/
theorem profile_ends_before_sample :
    letI := tableTrig
    let base : Cell := ⟨0, 2 ^ 53 + 3⟩
    let west : Direction Float := ⟨-1.0, 0.0, 1.0⟩
    ∃ dem : Raster Float32, Raster.filled ⟨1, 2 ^ 53 + 4⟩ 0.0 = .ok dem ∧
      dem.terrain.height base = some 0.0 ∧
      profileInto #[] dem.terrain base [west] 1 2 = #[none] ∧
      ¬ Tells none (seen dem.terrain base 0.0 west (multiples 1 2)) := by
  let : Trig Float := tableTrig
  intro base west
  obtain ⟨dem, hdem, hbase, hfirst, c, hsecond, hc⟩ := exists_far_row
  refine ⟨dem, hdem, hbase, ?_, fun h => ?_⟩
  · rw [profileInto, hbase]
    exact congrArg (#[·]) (along_of_off_grid hfirst)
  · have hlevel : (0.0 : Float) ∈ seen dem.terrain base 0.0 west (multiples 1 2) :=
      ⟨2, ⟨two_pos, one_dvd 2, le_rfl⟩, c, 0.0, hsecond, hc, by decide +kernel⟩
    exact absurd (h.none_iff.1 rfl 0.0 hlevel) (by decide)

end Horizon

end Relief
