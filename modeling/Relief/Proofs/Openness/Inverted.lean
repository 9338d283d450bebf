import Relief.Proofs.Analyses
import Relief.Proofs.Statistics
import Relief.Proofs.Walk
import Relief.Proofs.Binary.Opposite
import Relief.Proofs.Binary.Whole

namespace Relief

open Binary

def Mirrors (v w : Float32) : Prop :=
  Sample.isVoid w = Sample.isVoid v ∧ (Sample.isVoid v = false → (w == -v) = true)

structure Raster.Inverts (r s : Raster Float32) : Prop where
  shape : s.shape = r.shape
  extent : s.extent = r.extent
  cells : ∀ cell, Option.Rel Mirrors (r.get? cell) (s.get? cell)

theorem mirrors_neg {v : Float32} (hvoid : Sample.isVoid v = false) (hlt : v < 1.0e38) :
    Mirrors v (-v) := by
  obtain ⟨⟨hn, hn'⟩, hlt⟩ := single_lt_iff.1 hlt
  have hneg : (-v).isNaN = false := (isNaN_neg_single v).trans hn
  refine ⟨?_, fun _ => single_beq_iff.2 ⟨⟨hneg, hneg⟩, rfl⟩⟩
  rw [hvoid]
  change ((-v).isNaN || decide (-v ≤ -1.0e38)) = false
  rw [hneg, Bool.false_or, decide_eq_false_iff_not, single_le_iff, singleValue_neg, singleValue_neg,
    EReal.neg_le_neg_iff]
  exact fun h => hlt.not_ge h.2

namespace Raster

def inverted (r : Raster Float32) : Raster Float32 :=
  { r with
    cells := r.cells.map fun v => if Sample.isVoid v then v else -v
    size_cells := by rw [Array.size_map, r.size_cells] }

theorem get?_inverted (r : Raster Float32) (cell : Cell) : r.inverted.get? cell =
    (r.get? cell).map fun v => if Sample.isVoid v then v else -v := by
  rw [get?, get?]
  change (if r.shape.Contains cell then (r.cells.map _)[r.shape.index cell]? else none) = _
  split_ifs
  · rw [Array.getElem?_map]
  · rfl

/-- As long as no cell is so high that its negation would count as a void. -/
theorem inverts_inverted {r : Raster Float32}
    (h : ∀ v ∈ r.cells, Sample.isVoid v = false → v < 1.0e38) : r.Inverts r.inverted where
  shape := rfl
  extent := rfl
  cells cell := by
    rw [get?_inverted]
    cases hv : r.get? cell with
    | none => exact .none
    | some v =>
      refine .some ?_
      have hmem : v ∈ r.cells := by
        rw [get?] at hv
        split_ifs at hv
        exact Array.mem_of_getElem? hv
      dsimp only
      split_ifs with hvoid
      · exact ⟨rfl, fun hn => absurd hvoid (ne_true_of_eq_false hn)⟩
      · have hvoid := eq_false_of_ne_true hvoid
        exact mirrors_neg hvoid (h v hmem hvoid)

end Raster

section Heights
variable {r s : Raster Float32} {v w : Float32}

theorem Mirrors.finite_opposite (h : Mirrors v w) (hv : Sample.isVoid v = false) :
    (widen v).isFinite = true ∧ Opposite (widen v) (widen w) := by
  obtain ⟨hvoid, hneg⟩ := h
  rw [hv] at hvoid
  obtain ⟨⟨hnw, -⟩, heq⟩ := single_beq_iff.1 (hneg hv)
  rw [singleValue_neg] at heq
  have hnv := isNaN_of_isVoid hv
  have hbw := singleValue_of_isVoid hvoid
  obtain ⟨hn, hval⟩ := value_widen hnv
  obtain ⟨hn', hval'⟩ := value_widen hnw
  refine ⟨isFinite_iff.2 ⟨hn, ?_, ?_⟩, opposite_iff.2 ⟨hn'.trans hn.symm, ?_⟩⟩
  · rw [hval]
    exact singleValue_of_isVoid hv
  · rw [hval]
    intro ht
    rw [heq, ht] at hbw
    exact hbw EReal.neg_top
  · rw [hval, hval', heq]

theorem Raster.Inverts.height (h : r.Inverts s) (cell : Cell) :
    Option.Rel (fun z z' => z.isFinite = true ∧ Opposite z z') (r.terrain.height cell)
      (s.terrain.height cell) := by
  have hcell := h.cells cell
  rw [height_eq, height_eq]
  generalize r.get? cell = a at hcell ⊢
  generalize s.get? cell = b at hcell ⊢
  cases hcell with
  | none => exact .none
  | @some v w hvw =>
    simp only [Option.bind_some]
    cases hv : Sample.isVoid v with
    | true =>
      rw [if_pos rfl, if_pos (hvw.1.trans hv)]
      exact .none
    | false =>
      rw [if_neg Bool.false_ne_true, if_neg (ne_true_of_eq_false (hvw.1.trans hv))]
      exact .some (hvw.finite_opposite hv)

end Heights

namespace Horizon

def Inverts (h h' : Horizon Float) : Prop :=
  Opposite h.upper h'.lower ∧ Opposite h.lower h'.upper

variable {range range' : Option (Horizon Float)} {a a' z z' : Float}

theorem Inverts.widen (h : Option.Rel Inverts range range') (ha : Opposite a a') :
    Option.Rel Inverts (widen range a) (widen range' a') := by
  cases h with
  | none =>
    rw [Horizon.widen, Horizon.widen]
    by_cases hle : a ≤ a
    · rw [if_pos hle, if_pos ((ha.le_iff ha).1 hle)]
      exact .some ⟨ha, ha⟩
    · rw [if_neg hle, if_neg fun h => hle ((ha.le_iff ha).2 h)]
      exact .none
  | some hh => exact .some ⟨.ite (hh.1.lt_iff ha) ha hh.1, .ite (ha.lt_iff hh.2) ha hh.2⟩

theorem Inverts.clamp {h h' : Horizon Float} (hh : Inverts h h') : Inverts h.clamp h'.clamp :=
  ⟨.ite (hh.1.lt_iff opposite_zero) opposite_zero hh.1,
    .ite (opposite_zero.lt_iff hh.2) opposite_zero hh.2⟩

variable [Trig Float] {r s : Raster Float32}

theorem inverts_along (hatan : IsOdd Trig.atan) (h : r.Inverts s) (base : Cell)
    (hz : z.isFinite = true) (hzz : Opposite z z') (stride maxDistance : ℕ)
    (direction : Direction Float) :
    Option.Rel Inverts (along r.terrain base z stride maxDistance direction)
      (along s.terrain base z' stride maxDistance direction) := by
  have hangles : Option.Rel Inverts (angles r.terrain base z direction stride maxDistance)
      (angles s.terrain base z' direction stride maxDistance) := by
    have hshape : s.terrain.shape = r.terrain.shape := h.shape
    rw [angles, angles, hshape]
    refine walk_rel (fun d c range range' hrange => ?_) _ _ .none
    have hheight := h.height c
    generalize r.terrain.height c = t at hheight ⊢
    generalize s.terrain.height c = t' at hheight ⊢
    cases hheight with
    | none => exact .some hrange
    | some ht =>
      exact .some (Inverts.widen hrange (hatan _ _ ((ht.2.sub hzz ht.1 hz).div _)))
  rw [along, along]
  generalize angles r.terrain base z direction stride maxDistance = o at hangles ⊢
  generalize angles s.terrain base z' direction stride maxDistance = o' at hangles ⊢
  cases hangles with
  | none => exact .none
  | some hh => exact .some hh.clamp

end Horizon

namespace Openness

/-- The greatest sum of sines: from here on one more is rounded away. -/
def sineCap : Float := 18014398509481984.0

/-- Opposite numbers no larger than a sum of sines can be. -/
def Balanced (x y : Float) : Prop :=
  Opposite x y ∧ -sineCap ≤ x ∧ x ≤ sineCap

theorem sineCap_spec : sineCap.isFinite = true ∧ sineCap + 1.0 = sineCap ∧
    -sineCap + -1.0 = -sineCap := by
  decide +kernel

variable {x x' y y' : Float}

theorem Balanced.isFinite (h : Balanced x x') : x.isFinite = true :=
  isFinite_of_between h.2.1 h.2.2 (isFinite_neg sineCap_spec.1) sineCap_spec.1

theorem Balanced.add (hx : Balanced x x') (hy : Opposite y y') (hlo : -1.0 ≤ y) (hhi : y ≤ 1.0) :
    Balanced (x + y) (x' + y') := by
  obtain ⟨hc, hup, hdown⟩ := sineCap_spec
  have hone : (1.0 : Float).isFinite = true := number_one.1
  have hfy : y.isFinite = true := isFinite_of_between hlo hhi (isFinite_neg hone) hone
  have hfx := hx.isFinite
  obtain ⟨hxx, hxlo, hxhi⟩ := hx
  refine ⟨hxx.add hy hfx hfy, ?_, ?_⟩
  · rw [← hdown]
    exact add_mono hxlo hlo (isFinite_iff.1 (isFinite_neg hc)).2.1
      (isFinite_iff.1 (isFinite_neg hone)).2.1
  · rw [← hup]
    exact add_mono hxhi hhi (isFinite_iff.1 hfx).2.1 (isFinite_iff.1 hfy).2.1

theorem Balanced.mean (h : Balanced x x') {n : ℕ} (hn : 1 ≤ n) :
    Balanced (x / (n : Float)) (x' / (n : Float)) :=
  ⟨h.1.div n, div_between h.2.1 h.2.2 sineCap_spec.1 (value_natCast n).1
    (one_le_value_natCast hn)⟩

theorem Balanced.symm (h : Balanced x x') : Balanced x' x := by
  obtain ⟨hxx, hlo, hhi⟩ := h
  have hcap := opposite_neg sineCap
  exact ⟨hxx.symm, (hxx.le_iff hcap).1 hhi, (hcap.symm.le_iff hxx).1 hlo⟩

theorem Balanced.isVoid_ofFloat (h : Balanced x x') :
    Sample.isVoid (Sample.ofFloat x : Float32) = false := by
  have hfloor : ¬ narrow (-sineCap) ≤ -1.0e38 := by decide +kernel
  have hlo : narrow (-sineCap) ≤ narrow x := narrow_mono h.2.1
  obtain ⟨⟨hn', hn⟩, hle⟩ := single_le_iff.1 hlo
  change ((narrow x).isNaN || decide (narrow x ≤ -1.0e38)) = false
  rw [hn, Bool.false_or, decide_eq_false_iff_not]
  intro hvoid
  obtain ⟨⟨-, hn''⟩, hle'⟩ := single_le_iff.1 hvoid
  exact hfloor (single_le_iff.2 ⟨⟨hn', hn''⟩, hle.trans hle'⟩)

theorem Balanced.mirrors (h : Balanced x x') :
    Mirrors (Sample.ofFloat x) (Sample.ofFloat x') := by
  refine ⟨h.symm.isVoid_ofFloat.trans h.isVoid_ofFloat.symm, fun _ => single_beq_iff.2 ?_⟩
  obtain ⟨hn, hv⟩ := opposite_iff.1 h.1
  have hx := isNaN_of_isFinite h.isFinite
  obtain ⟨hs, hvs⟩ := singleValue_narrow hx
  obtain ⟨hs', hvs'⟩ := singleValue_narrow (hn.trans hx)
  rw [isNaN_neg_single, singleValue_neg]
  refine ⟨⟨hs', hs⟩, ?_⟩
  change singleValue (narrow x') = -singleValue (narrow x)
  rw [hvs, hvs', hv, delivered_neg]

theorem sideCell_mirrors {side side' : Option Float} (h : Option.Rel Balanced side side') :
    Mirrors (sideCell side) (sideCell side') := by
  cases h with
  | none => exact ⟨rfl, fun h => absurd h (by decide +kernel)⟩
  | some h => exact h.mirrors

variable [Trig Float] {as bs : List Float}

theorem balanced_foldl (hsin : IsOdd Trig.sin) (h : List.Forall₂ Opposite as bs)
    (hrange : ∀ a ∈ as, -1.0 ≤ Trig.sin a ∧ Trig.sin a ≤ 1.0) :
    Balanced (as.foldl (fun sum a => sum + Trig.sin a) 0.0)
      (bs.foldl (fun sum a => sum + Trig.sin a) 0.0) :=
  List.rel_foldl (R := fun a b => (-1.0 ≤ Trig.sin a ∧ Trig.sin a ≤ 1.0) ∧ Opposite a b)
    (fun _ _ hx a b hab => hx.add (hsin a b hab.2) hab.1.1 hab.1.2)
    ⟨opposite_zero, by decide +kernel⟩ ((List.forall₂_and_left _ _).2 ⟨hrange, h⟩)

def Counts {α : Type} [Mul α] [Div α] [Neg α] [LT α] [OfScientific α] [Trig α] (a : α) : Prop :=
  -outlierLimit < a ∧ a < outlierLimit

instance {α : Type} [Mul α] [Div α] [Neg α] [LT α] [DecidableLT α] [OfScientific α] [Trig α]
    (a : α) : Decidable (Counts a) :=
  inferInstanceAs (Decidable (_ ∧ _))

theorem Counts.isFinite {a : Float} (h : Counts a) : a.isFinite = true := by
  obtain ⟨hlo, hhi⟩ := h
  obtain ⟨⟨-, hn⟩, hlo⟩ := lt_iff.1 hlo
  exact isFinite_iff.2 ⟨hn, ne_bot_of_gt hlo, ne_top_of_lt (lt_iff.1 hhi).2⟩

theorem meanSine_balanced (hsin : IsOdd Trig.sin)
    (hrange : ∀ x : Float, x.isFinite = true → -1.0 ≤ Trig.sin x ∧ Trig.sin x ≤ 1.0)
    (h : List.Forall₂ Opposite as bs) :
    Option.Rel Balanced (meanSine as) (meanSine bs) := by
  have hlimit : Opposite (-outlierLimit) outlierLimit := (opposite_neg _).symm
  have hkept : List.Forall₂ Opposite (as.filter fun a => -outlierLimit < a ∧ a < outlierLimit)
      (bs.filter fun a => -outlierLimit < a ∧ a < outlierLimit) := by
    refine List.rel_filter (fun a b hab => ?_) h
    simp only [decide_eq_true_eq]
    rw [hlimit.lt_iff hab, hab.lt_iff hlimit.symm, and_comm]
  have hmem (a : Float) (ha : a ∈ as.filter fun a => -outlierLimit < a ∧ a < outlierLimit) :
      -1.0 ≤ Trig.sin a ∧ Trig.sin a ≤ 1.0 :=
    hrange a (Counts.isFinite (of_decide_eq_true (List.mem_filter.1 ha).2))
  have hsum := balanced_foldl hsin hkept hmem
  rw [meanSine, meanSine]
  generalize as.filter (fun a => -outlierLimit < a ∧ a < outlierLimit) = kept at hkept hsum ⊢
  generalize bs.filter (fun a => -outlierLimit < a ∧ a < outlierLimit) = kept' at hkept hsum ⊢
  cases hkept with
  | nil => exact .none
  | cons hab hkept =>
    rw [List.isEmpty_cons, List.isEmpty_cons, if_neg Bool.false_ne_true, if_neg Bool.false_ne_true,
      List.length_cons, List.length_cons, ← hkept.length_eq]
    exact .some (hsum.mean (Nat.succ_le_succ (Nat.zero_le _)))

variable {r s : Raster Float32}

theorem ofCell_inverts (hatan : IsOdd Trig.atan) (hsin : IsOdd Trig.sin)
    (hrange : ∀ x : Float, x.isFinite = true → -1.0 ≤ Trig.sin x ∧ Trig.sin x ≤ 1.0)
    (h : r.Inverts s) (directions : List (Direction Float)) (stride maxDistance : ℕ) (cell : Cell) :
    let openness := ofCell r.terrain directions stride maxDistance cell
    let inverted := ofCell s.terrain directions stride maxDistance cell
    Option.Rel Balanced openness.positive inverted.negative ∧
      Option.Rel Balanced openness.negative inverted.positive := by
  have hprofile : List.Forall₂ (Option.Rel Horizon.Inverts)
      (Horizon.profile r.terrain cell directions stride maxDistance).toList
      (Horizon.profile s.terrain cell directions stride maxDistance).toList := by
    rw [Horizon.toList_profile, Horizon.toList_profile]
    have hheight := h.height cell
    generalize r.terrain.height cell = t at hheight ⊢
    generalize s.terrain.height cell = t' at hheight ⊢
    rw [List.forall₂_map_left_iff, List.forall₂_map_right_iff, List.forall₂_same]
    intro direction _
    cases hheight with
    | none => exact .none
    | some hz => exact Horizon.inverts_along hatan h cell hz.1 hz.2 _ _ direction
  have hknown : List.Forall₂ Horizon.Inverts
      ((Horizon.profile r.terrain cell directions stride maxDistance).toList.filterMap id)
      ((Horizon.profile s.terrain cell directions stride maxDistance).toList.filterMap id) :=
    List.rel_filterMap (fun _ _ hh => hh) hprofile
  have hupper := List.rel_map (P := Opposite) (fun _ _ hh => hh.1) hknown
  have hlower := List.rel_map (P := Opposite) (fun _ _ hh => hh.2) hknown
  exact ⟨meanSine_balanced hsin hrange hupper, meanSine_balanced hsin hrange hlower⟩

end Openness

theorem Raster.inverts_tabulated {r s : Raster Float32} {f g : Cell → Float32}
    (hshape : s.shape = r.shape) (hextent : s.extent = r.extent)
    (h : ∀ cell, Mirrors (f cell) (g cell)) : (r.tabulated f).Inverts (s.tabulated g) where
  shape := hshape
  extent := hextent
  cells cell := by
    by_cases hc : r.shape.Contains cell
    · rw [get?_tabulated hc, get?_tabulated (hshape ▸ hc)]
      exact .some (h cell)
    · have hr : (r.tabulated f).get? cell = none := get?_of_not_contains hc
      have hs : (s.tabulated g).get? cell = none := get?_of_not_contains (hshape ▸ hc)
      rw [hr, hs]
      exact .none

section Runs

theorem pool_run_error {ω : Type} [Buffers ω] {pool : WorkerPool} {shape : Shape} {outputs : ω}
    {work : RowBlock → ω → ω} {e : Error}
    (h : (pool.run shape outputs work).outcome = .error e) (work' : RowBlock → ω → ω) :
    (pool.run shape outputs work').outcome = .error e := by
  rw [WorkerPool.run] at h ⊢
  cases hp : RowBlock.partition shape.rows pool.workers with
  | error e' =>
    rw [hp] at h
    exact h
  | ok blocks =>
    rw [hp, Logged.ofExcept_ok_bind] at h
    rw [Logged.ofExcept_ok_bind]
    cases hs : WorkerPool.share shape.cols blocks outputs with
    | none =>
      rw [hs] at h
      exact h
    | some shares =>
      rw [hs] at h
      cases h

namespace Openness

variable [Trig Float] [Resources] {dem other : Raster Float32}

theorem sidesCells_error {shape : Shape} {workers : ℕ} {e : Error}
    {profile : Array (Option (Horizon Float)) → Cell → Array (Option (Horizon Float))}
    (h : (sidesCells shape profile workers).outcome = .error e)
    (profile' : Array (Option (Horizon Float)) → Cell → Array (Option (Horizon Float))) :
    (sidesCells shape profile' workers).outcome = .error e := by
  rw [sidesCells] at h ⊢
  cases hb : Raster.buffer shape (Sample.void : Float32) with
  | error e' =>
    rw [hb, Logged.outcome_ofExcept_error_bind] at h
    rw [Logged.outcome_ofExcept_error_bind]
    exact h
  | ok blank =>
    rw [hb, Logged.ofExcept_ok_bind, Logged.ofExcept_ok_bind] at h
    rw [Logged.ofExcept_ok_bind, Logged.ofExcept_ok_bind]
    cases hp : WorkerPool.ofWorkers workers with
    | error e' =>
      rw [hp, Logged.outcome_ofExcept_error_bind] at h
      rw [Logged.outcome_ofExcept_error_bind]
      exact h
    | ok pool =>
      rw [hp, Logged.ofExcept_ok_bind] at h
      rw [Logged.ofExcept_ok_bind]
      exact pool_run_error h _

/-- Upside down terrain swaps what the two buffers receive, and does not matter to a failure. -/
theorem sidesCells_alike (h : dem.Inverts other) (directions : List (Direction Float))
    (params : OpennessParams) :
    let openness (r : Raster Float32) :=
      ofCell r.terrain directions params.stride params.maxDistance
    let table (r : Raster Float32) :=
      (r.shape.table fun cell => sideCell (openness r cell).positive,
        r.shape.table fun cell => sideCell (openness r cell).negative)
    let profile (r : Raster Float32) buffer cell :=
      r.profileInto buffer cell directions params.stride params.maxDistance
    Alike (fun c c' => c = table dem ∧ c' = table other)
      (sidesCells dem.shape (profile dem) params.workers).outcome
      (sidesCells dem.shape (profile other) params.workers).outcome := by
  intro openness table profile
  have hword := dem.size_lt_wordValues
  have hprofile (r : Raster Float32) :=
    r.profileInto_eq_profile directions params.stride params.maxDistance
  by_cases hs : Suffices dem.shape params.workers
  · rw [(sidesCells_eq hs hword (hprofile dem)).1, (sidesCells_eq hs hword (hprofile other)).1]
    refine ⟨rfl, ?_⟩
    dsimp only [table]
    rw [h.shape]
    rfl
  · obtain ⟨e, he, -⟩ := sidesCells_refused hs hword (profile dem)
    rw [he, sidesCells_error he (profile other)]
    exact rfl

/-- Turning terrain upside down swaps the two sides of its openness: where one side of the sky view
is void the other side of the inverted one is, and elsewhere it is the negation. -/
theorem skyView_inverts (hatan : IsOdd Trig.atan) (hsin : IsOdd Trig.sin)
    (hrange : ∀ x : Float, x.isFinite = true → -1.0 ≤ Trig.sin x ∧ Trig.sin x ≤ 1.0)
    (h : dem.Inverts other) (params : OpennessParams) :
    Alike (fun sky inverted => sky.positive.Inverts inverted.negative ∧
        sky.negative.Inverts inverted.positive)
      (scan dem params).outcome (scan other params).outcome := by
  rw [scan, scan, h.shape, h.extent]
  simp only [Logged.outcome_bind]
  refine (Alike.same _).bind fun _ _ _ _ => ?_
  refine (Alike.same _).bind fun geometry _ hgeometry hsame => ?_
  subst hsame
  have hadvise : Alike (fun _ _ => True) (Analysis.advise geometry dem.statistics.void).outcome
      (Analysis.advise geometry other.statistics.void).outcome := by
    obtain ⟨_, ha⟩ := Analysis.advise_outcome geometry dem.statistics.void
    obtain ⟨_, ha'⟩ := Analysis.advise_outcome geometry other.statistics.void
    rw [ha, ha']
    exact trivial
  refine hadvise.bind fun _ _ _ _ => ?_
  refine (Alike.same _).bind fun directions _ _ hsame => ?_
  subst hsame
  refine (Alike.same _).bind fun _ _ _ _ => ?_
  refine (sidesCells_alike h directions params).bind fun _ _ _ hcells => ?_
  obtain ⟨rfl, rfl⟩ := hcells
  have hempty : dem.shape.isEmpty = false := isEmpty_of_resolve hgeometry
  have htable (f : Cell → Float32) :
      Raster.ofElevations (other.shape.table f) dem.shape dem.extent = .ok (other.tabulated f) := by
    rw [← h.shape, ← h.extent]
    exact Raster.ofElevations_table (h.shape ▸ hempty) f
  dsimp only [Logged.ofExcept]
  rw [Raster.ofElevations_table hempty, Raster.ofElevations_table hempty, htable, htable]
  have hsides := ofCell_inverts hatan hsin hrange h directions params.stride params.maxDistance
  exact ⟨Raster.inverts_tabulated h.shape h.extent fun cell => sideCell_mirrors (hsides cell).1,
    Raster.inverts_tabulated h.shape h.extent fun cell => sideCell_mirrors (hsides cell).2⟩

end Openness

end Runs

namespace Openness

def stepped (t v x : Float) : Float :=
  if t < x then v else if x < -t then -v else 0.0

theorem isOdd_stepped {t v : Float} (ht : ¬ t < -t) : IsOdd (stepped t v) := by
  intro x y h
  have hup : t < x ↔ y < -t := (opposite_neg t).lt_iff h
  have hdown : x < -t ↔ t < y := h.lt_iff (opposite_neg t).symm
  have hnot (h₁ : t < y) (h₂ : y < -t) : t < -t := trans_lt h₁ h₂
  rw [stepped, stepped]
  by_cases h₁ : t < x
  · rw [if_pos h₁, if_neg fun h₂ => ht (trans_lt h₂ (hup.1 h₁)), if_pos (hup.1 h₁)]
    exact opposite_neg v
  · rw [if_neg h₁]
    by_cases h₂ : x < -t
    · rw [if_pos h₂, if_pos (hdown.1 h₂)]
      exact (opposite_neg v).symm
    · rw [if_neg h₂, if_neg fun h => h₂ (hdown.2 h), if_neg fun h => h₁ (hup.2 h)]
      exact opposite_zero

/-- The sine and the arc tangent as they are on level ground and on slopes of 45 degrees. -/
@[reducible]
def diagonalTrig : Trig Float where
  pi := 3.141592653589793
  sin := stepped 0.5 0.7071067811865475
  cos _ := 1.0
  atan := stepped 0.5 0.7853981633974483
  atan2 _ _ := 0.0
  log x := x
  sqrt x := x
  hypot := hypot

theorem diagonalTrig_sin_range (x : Float) :
    -1.0 ≤ diagonalTrig.sin x ∧ diagonalTrig.sin x ≤ 1.0 := by
  change -1.0 ≤ stepped _ _ x ∧ stepped _ _ x ≤ 1.0
  rw [stepped]
  split_ifs
  · decide +kernel
  · decide +kernel
  · decide +kernel

theorem skyView_inverts_slope :
    let dem : Raster Float32 := ⟨⟨3, 1⟩, #[Sample.void, 1.0, 0.0],
      ⟨500000.0, 500001.0, 4000000.0, 4000003.0⟩, rfl, by decide⟩
    let params : OpennessParams := ⟨1, 1, 2, none, 1⟩
    let sky (r : Raster Float32) := (@scan diagonalTrig _ r params).outcome
    IsOdd diagonalTrig.atan ∧ IsOdd diagonalTrig.sin ∧
      (∀ x : Float, x.isFinite = true → -1.0 ≤ diagonalTrig.sin x ∧ diagonalTrig.sin x ≤ 1.0) ∧
      dem.Inverts dem.inverted ∧
      Alike (fun s s' => s.positive.Inverts s'.negative ∧ s.negative.Inverts s'.positive)
        (sky dem) (sky dem.inverted) ∧
      ((sky dem).toOption.map fun s => (s.positive.cells, s.negative.cells)) =
        some (#[Sample.void, Sample.void, 0.70710677], #[Sample.void, Sample.void, 0.0]) := by
  intro dem params sky
  have hatan : IsOdd diagonalTrig.atan := isOdd_stepped (by decide +kernel)
  have hsin : IsOdd diagonalTrig.sin := isOdd_stepped (by decide +kernel)
  have hrange (x : Float) (_ : x.isFinite = true) := diagonalTrig_sin_range x
  have hinverts : dem.Inverts dem.inverted := Raster.inverts_inverted (by decide +kernel)
  exact ⟨hatan, hsin, hrange, hinverts,
    @skyView_inverts diagonalTrig _ _ _ hatan hsin hrange hinverts params, by decide +kernel⟩

end Openness

end Relief
