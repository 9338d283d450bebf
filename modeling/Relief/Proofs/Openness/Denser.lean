import Relief.Proofs.Openness.Profile

namespace Relief

open Binary

theorem Greatest.mono {angles more : Set Float} {x y : Float} (hx : Greatest angles x)
    (hy : Greatest more y) (h : angles ⊆ more) : x ≤ y :=
  hy.le x (h hx.mem) hx.isNaN

theorem Least.mono {angles more : Set Float} {x y : Float} (hx : Least angles x)
    (hy : Least more y) (h : angles ⊆ more) : y ≤ x :=
  hy.le x (h hx.mem) hx.isNaN

namespace Horizon

/-- One horizon, where there is one, lies within the other. -/
structure Enclosed (entry wider : Option (Horizon Float)) : Prop where
  some : ∀ a, entry = some a → ∃ b, wider = some b ∧ a.upper ≤ b.upper ∧ b.lower ≤ a.lower
  none : wider = none → entry = none

theorem enclosed_none (wider : Option (Horizon Float)) : Enclosed none wider where
  some _ h := nomatch h
  none _ := rfl

variable {entry wider : Option (Horizon Float)} {angles more : Set Float}

theorem Tells.enclosed (h : Tells entry angles) (h' : Tells wider more) (hsub : angles ⊆ more) :
    Enclosed entry wider := by
  have hnone (hw : wider = Option.none) : entry = Option.none :=
    h.none_iff.2 fun a ha => h'.none_iff.1 hw a (hsub ha)
  refine ⟨fun a ha => ?_, hnone⟩
  cases hw : wider with
  | none =>
    rw [hnone hw] at ha
    cases ha
  | some b =>
    have hinsert : insert 0.0 angles ⊆ insert 0.0 more := Set.insert_subset_insert hsub
    exact ⟨b, rfl, (h.upper a ha).mono (h'.upper b hw) hinsert,
      (h.lower a ha).mono (h'.lower b hw) hinsert⟩

variable {shape : Shape} {base : Cell} {direction : Direction Float} {s m near far : ℕ}

theorem multiples_subset (m s : ℕ) (h : near ≤ far) :
    multiples (m * s) near ⊆ multiples s far :=
  fun _ hd => ⟨hd.1, (Dvd.intro_left m rfl).trans hd.2.1, hd.2.2.trans h⟩

/-- A line from a place on the grid does not come back to it, so that a denser profile ends before
none of the samples of a sparser one. -/
theorem unbroken_subset (hbase : (shape.nearest (base.position : Position Float)).isSome)
    (h : near ≤ far) :
    unbroken shape base direction (m * s) near ⊆ unbroken shape base direction s far := by
  rintro d ⟨hd, hreach⟩
  refine ⟨multiples_subset m s h hd, fun e he => ?_⟩
  exact isSome_nearest_placeAt hbase (hreach d ⟨hd.1, hd.2.1, le_rfl⟩) he.2.2

section Profiles

variable [Trig Float] {terrain : Terrain Float} {z : Float} {distances others : Set ℕ}

theorem seen_subset (h : distances ⊆ others) :
    seen terrain base z direction distances ⊆ seen terrain base z direction others := by
  rintro a ⟨d, hd, hseen⟩
  exact ⟨d, h hd, hseen⟩

theorem along_enclosed (hs : 0 < s) (hms : 0 < m * s)
    (h : unbroken terrain.shape base direction (m * s) near ⊆
      unbroken terrain.shape base direction s far) :
    Enclosed (along terrain base z (m * s) near direction) (along terrain base z s far direction) :=
  (tells_along hms).enclosed (tells_along hs) (seen_subset h)

theorem getElem?_profile (terrain : Terrain Float) (base : Cell)
    (directions : List (Direction Float)) (stride maxDistance i : ℕ) :
    (profile terrain base directions stride maxDistance)[i]? =
      directions[i]?.map fun direction => (terrain.height base).bind fun z =>
        along terrain base z (max stride 1) maxDistance direction := by
  rw [← Array.getElem?_toList, toList_profile, List.getElem?_map]

/-- Along each direction a profile of a denser stride and a longer reach tells a horizon that takes
in that of the sparser one, and nothing only where the sparser one tells nothing: on every line
that a denser profile does not break off before a sample of the sparser one, and these are all lines
from a cell whose coordinates are not rounded off the grid. -/
theorem denser_profile_wider (dem : Raster Float32) (base : Cell)
    (directions : List (Direction Float)) (s m near far : ℕ) (hs : 1 ≤ s) (hm : 1 ≤ m)
    (hreach : near ≤ far) :
    let sparse := profile dem.terrain base directions (m * s) near
    let dense := profile dem.terrain base directions s far
    (∀ (i : ℕ) direction, directions[i]? = some direction →
        unbroken dem.shape base direction (m * s) near ⊆ unbroken dem.shape base direction s far →
        ∃ entry wider, sparse[i]? = some entry ∧ dense[i]? = some wider ∧ Enclosed entry wider) ∧
      ((2 ^ 53 ≤ base.row ∨ 2 ^ 53 ≤ base.col →
          (dem.shape.nearest (base.position : Position Float)).isSome) →
        ∀ i < directions.length,
          ∃ entry wider, sparse[i]? = some entry ∧ dense[i]? = some wider ∧
            Enclosed entry wider) := by
  intro sparse dense
  have hms : 0 < m * s := Nat.mul_pos hm hs
  have hentries (i : ℕ) (direction : Direction Float) (hi : directions[i]? = some direction)
      (h : ∀ z, dem.terrain.height base = some z →
        unbroken dem.shape base direction (m * s) near ⊆ unbroken dem.shape base direction s far) :
      ∃ entry wider, sparse[i]? = some entry ∧ dense[i]? = some wider ∧ Enclosed entry wider := by
    have hget (stride reach : ℕ) : (profile dem.terrain base directions stride reach)[i]? =
        some ((dem.terrain.height base).bind fun z =>
          along dem.terrain base z (max stride 1) reach direction) := by
      rw [getElem?_profile, hi, Option.map_some]
    refine ⟨_, _, hget (m * s) near, hget s far, ?_⟩
    rw [max_eq_left hs, max_eq_left (Nat.succ_le_of_lt hms)]
    cases hz : dem.terrain.height base with
    | none => exact enclosed_none _
    | some z => exact along_enclosed hs hms (h z hz)
  refine ⟨fun i direction hi h => hentries i direction hi fun _ _ => h, fun hfar i hi => ?_⟩
  refine hentries i _ (List.getElem?_eq_getElem hi) fun z hz => ?_
  exact unbroken_subset (isSome_nearest_base hz hfar) hreach

end Profiles

/-- A hollow, a hill, a void and a higher hill along a row, of which the sparser and shorter profile
meets the first hill alone. -/
theorem denser_profile_wider_hills :
    letI := tableTrig
    let dem : Raster Float32 :=
      ⟨⟨1, 5⟩, #[0.0, -1.0, 2.0, Sample.void, 8.0], .unit ⟨1, 5⟩, rfl, by decide⟩
    let east : Direction Float := ⟨1.0, 0.0, 1.0⟩
    let hill : Horizon Float := ⟨0.7853981633974483, 0.0⟩
    let all : Horizon Float := ⟨1.1071487177940904, -0.7853981633974483⟩
    profile dem.terrain ⟨0, 0⟩ [east] (2 * 1) 3 = #[some hill] ∧
      profile dem.terrain ⟨0, 0⟩ [east] 1 4 = #[some all] ∧ Enclosed (some hill) (some all) := by
  let : Trig Float := tableTrig
  intro dem east hill all
  have hsparse : profile dem.terrain ⟨0, 0⟩ [east] (2 * 1) 3 = #[some hill] := by decide +kernel
  have hdense : profile dem.terrain ⟨0, 0⟩ [east] 1 4 = #[some all] := by decide +kernel
  obtain ⟨-, hwider⟩ := denser_profile_wider dem ⟨0, 0⟩ [east] 1 2 3 4 le_rfl one_le_two (by decide)
  obtain ⟨entry, wider, hentry, hwide, henclosed⟩ :=
    hwider (fun hfar => absurd hfar (by decide)) 0 one_pos
  rw [hsparse] at hentry
  rw [hdense] at hwide
  obtain rfl := Option.some.inj hentry
  obtain rfl := Option.some.inj hwide
  exact ⟨hsparse, hdense, henclosed⟩

/-- From a cell that is rounded off the grid a sparse profile begins back on it, and a denser one
breaks off before that. -/
theorem denser_profile_breaks_off :
    letI := tableTrig
    let base : Cell := ⟨0, 2 ^ 53 + 3⟩
    let west : Direction Float := ⟨-1.0, 0.0, 1.0⟩
    ∃ dem : Raster Float32, Raster.filled ⟨1, 2 ^ 53 + 4⟩ 0.0 = .ok dem ∧
      profile dem.terrain base [west] (2 * 1) 2 = #[some ⟨0.0, 0.0⟩] ∧
      profile dem.terrain base [west] 1 2 = #[none] ∧ ¬ Enclosed (some ⟨0.0, 0.0⟩) none := by
  let : Trig Float := tableTrig
  intro base west
  obtain ⟨dem, hdem, hbase, hfirst, c, hsecond, hc⟩ := exists_far_row
  refine ⟨dem, hdem, ?_, ?_, fun h => nomatch h.none rfl⟩
  · have hsparse : along dem.terrain base 0.0 2 2 west = some ⟨0.0, 0.0⟩ := by
      rw [along, angles]
      change (walk _ _ _ 1 2 none).1.map clamp = _
      rw [walk, hsecond]
      dsimp only
      rw [hc]
      dsimp only
      rw [walk]
      decide +kernel
    rw [profile, profileInto, hbase]
    exact congrArg (#[·]) hsparse
  · rw [profile, profileInto, hbase]
    exact congrArg (#[·]) (along_of_off_grid hfirst)

end Horizon

end Relief
