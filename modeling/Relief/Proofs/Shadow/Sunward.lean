import Relief.Machine
import Relief.Proofs.Analyses
import Relief.Proofs.Shadow.Visits

namespace Relief

open Binary

/-- No step of a motion from one index along an axis to another leads back; without motion the two
are the same. -/
def Along (s : Float) (a b : ℕ) : Prop :=
  (0.0 ≤ s → a ≤ b) ∧ (s ≤ 0.0 → b ≤ a)

/-- A cell lies sunward of another, and so does every cell of itself. -/
def Sunward (motion : Motion Float) (c d : Cell) : Prop :=
  Along motion.x c.col d.col ∧ Along motion.y c.row d.row

section Sunward

variable {s x y : Float} {a b c : ℕ}

theorem Along.refl (s : Float) (a : ℕ) : Along s a a :=
  ⟨fun _ => le_rfl, fun _ => le_rfl⟩

theorem Along.trans (h : Along s a b) (h' : Along s b c) : Along s a c :=
  ⟨fun hs => (h.1 hs).trans (h'.1 hs), fun hs => (h'.2 hs).trans (h.2 hs)⟩

theorem Sunward.refl (motion : Motion Float) (c : Cell) : Sunward motion c c :=
  ⟨.refl _ _, .refl _ _⟩

theorem Sunward.trans {motion : Motion Float} {c d e : Cell} (h : Sunward motion c d)
    (h' : Sunward motion d e) : Sunward motion c e :=
  ⟨h.1.trans h'.1, h.2.trans h'.2⟩

theorem number_le_of_delivered {t : ℝ} (hx : x.isFinite = true) (hy : y.isFinite = true)
    (hv : value y = delivered .binary64 t) :
    (number x ≤ t → number x ≤ number y) ∧ (t ≤ number x → number y ≤ number x) := by
  have hd := delivered_value x
  rw [value_of_isFinite hx] at hd
  rw [value_of_isFinite hy] at hv
  have hmono {a b : ℝ} (h : a ≤ b) : delivered .binary64 a ≤ delivered .binary64 b :=
    delivered_mono (EReal.coe_le_coe_iff.2 h)
  constructor
  · intro h
    have hle := hmono h
    rwa [hd, ← hv, EReal.coe_le_coe_iff] at hle
  · intro h
    have hle := hmono h
    rwa [hd, ← hv, EReal.coe_le_coe_iff] at hle

theorem toNat_toInt_nearest_mono {n m : ℕ} (hx : OnLine n x) (hy : OnLine m y)
    (h : number x ≤ number y) : (toInt (nearest x)).toNat ≤ (toInt (nearest y)).toNat := by
  obtain ⟨hxf, hx0, -⟩ := hx
  obtain ⟨hyf, hy0, -⟩ := hy
  obtain ⟨hnx, hvx⟩ := number_nearest hxf
  obtain ⟨hny, hvy⟩ := number_nearest hyf
  rw [toNat_toInt hnx (by rw [hvx]; exact_mod_cast hx0),
    toNat_toInt hny (by rw [hvy]; exact_mod_cast hy0), hvx, hvy]
  exact min_le_min_right _ (Nat.floor_le_floor (Int.cast_le.2 (halfAway_mono h)))

theorem Along.of_number {n m : ℕ} (hx : OnLine n x) (hy : OnLine m y)
    (hup : 0.0 ≤ s → number x ≤ number y) (hdown : s ≤ 0.0 → number y ≤ number x) :
    Along s (toInt (nearest x)).toNat (toInt (nearest y)).toNat :=
  ⟨fun h => toNat_toInt_nearest_mono hx hy (hup h),
    fun h => toNat_toInt_nearest_mono hy hx (hdown h)⟩

theorem Along.add {n m : ℕ} (hs : s.isFinite = true) (hx : OnLine n x) (hy : OnLine m (x + s)) :
    Along s (toInt (nearest x)).toNat (toInt (nearest (x + s))).toNat := by
  obtain ⟨hup, hdown⟩ := number_le_of_delivered hx.1 hy.1 (value_add_number hx.1 hs).2
  refine .of_number hx hy (fun h => hup ?_) fun h => hdown ?_
  · rw [le_iff_number isFinite_zero hs, number_zero] at h
    linarith
  · rw [le_iff_number hs isFinite_zero, number_zero] at h
    linarith

theorem Along.sub {n m : ℕ} (hs : s.isFinite = true) (hx : OnLine n x) (hy : OnLine m (x - s)) :
    Along s (toInt (nearest (x - s))).toNat (toInt (nearest x)).toNat := by
  obtain ⟨hup, hdown⟩ := number_le_of_delivered hx.1 hy.1 (value_sub_number hx.1 hs).2
  refine .of_number hy hx (fun h => hdown ?_) fun h => hup ?_
  · rw [le_iff_number isFinite_zero hs, number_zero] at h
    linarith
  · rw [le_iff_number hs isFinite_zero, number_zero] at h
    linarith

variable {shape : Shape} {motion : Motion Float} {p : Position Float} {d e : Cell}

theorem Sunward.march_step (hx : motion.x.isFinite = true) (hy : motion.y.isFinite = true)
    (hd : shape.nearest p = some d) (he : shape.nearest ⟨p.x + motion.x, p.y + motion.y⟩ = some e) :
    Sunward motion d e := by
  obtain ⟨hpy, hpx, rfl⟩ := Shape.nearest_eq_some hd
  obtain ⟨hqy, hqx, rfl⟩ := Shape.nearest_eq_some he
  exact ⟨.add hx hpx hqx, .add hy hpy hqy⟩

theorem Sunward.sweep_step (hx : motion.x.isFinite = true) (hy : motion.y.isFinite = true)
    (hd : shape.nearest p = some d) (he : shape.nearest ⟨p.x - motion.x, p.y - motion.y⟩ = some e) :
    Sunward motion e d := by
  obtain ⟨hpy, hpx, rfl⟩ := Shape.nearest_eq_some hd
  obtain ⟨hqy, hqx, rfl⟩ := Shape.nearest_eq_some he
  exact ⟨.sub hx hpx hqx, .sub hy hpy hqy⟩

end Sunward

namespace Shadow

variable {terrain other : Terrain Float} {motion : Motion Float} {fall rise : Float}
  {cell start c : Cell} {budget n : ℕ} {seed : Cell} {o : Outlook}

/-- Two terrains have the same heights sunward of a cell. -/
def AgreeSunward (motion : Motion Float) (terrain other : Terrain Float) (cell : Cell) : Prop :=
  ∀ c, Sunward motion cell c → terrain.height c = other.height c

theorem sunward_of_mem_marchPath (hx : motion.x.isFinite = true) (hy : motion.y.isFinite = true)
    (hstart : terrain.shape.nearest cell.position = some start)
    (hc : c ∈ marchPath terrain motion n cell) : Sunward motion start c := by
  have hpair : (marchPath terrain motion n cell).Pairwise (Sunward motion) := by
    refine path_pairwise (R := Sunward motion) (fun h h' => h.trans h') ?_ n _
    intro p c d hc hd
    exact Sunward.march_step hx hy hc hd
  rw [marchPath] at hc hpair
  cases n with
  | zero => cases hc
  | succ n =>
    rw [path, hstart] at hc hpair
    rcases List.mem_cons.1 hc with rfl | hc
    · exact .refl _ _
    · exact List.rel_of_pairwise_cons hpair hc

theorem rayPath_pairwise {shape : Shape} (hx : motion.x.isFinite = true)
    (hy : motion.y.isFinite = true) (budget : ℕ) (seed : Cell) :
    (rayPath shape motion .bounded budget seed).Pairwise fun c d => Sunward motion d c := by
  refine path_pairwise (fun h h' => h'.trans h) ?_ budget _
  intro p c d hc hd
  exact Sunward.sweep_step hx hy hc hd

theorem marksIn_eq_nil {cells : List Cell} (h : cell ∉ cells) :
    marksIn terrain cell (visitsOf terrain fall o cells) = [] := by
  rw [marksIn, List.filterMap_eq_nil_iff]
  intro v hv
  have hne : v.cell ≠ cell := fun heq => h (heq ▸ mem_visitsOf hv)
  exact if_neg hne

theorem marksIn_congr {cells : List Cell} (hagree : AgreeSunward motion terrain other cell)
    (hpair : cells.Pairwise fun c d => Sunward motion d c) :
    marksIn terrain cell (visitsOf terrain fall o cells) =
      marksIn other cell (visitsOf other fall o cells) := by
  induction cells generalizing o with
  | nil => rfl
  | cons c cells ih =>
    obtain ⟨hfirst, hrest⟩ := List.pairwise_cons.1 hpair
    have hmark : Visit.markIn terrain cell ⟨c, o⟩ = Visit.markIn other cell ⟨c, o⟩ := by
      rw [Visit.markIn, Visit.markIn, hagree cell (.refl _ _)]
    -- what the ray carries on may differ in the two, but then it does not come to the cell again
    have hvisits :
        marksIn terrain cell (visitsOf terrain fall (o.pass fall (terrain.height c)) cells) =
          marksIn other cell (visitsOf other fall (o.pass fall (other.height c)) cells) := by
      by_cases hmem : cell ∈ cells
      · rw [hagree c (hfirst cell hmem)]
        exact ih hrest
      · rw [marksIn_eq_nil hmem, marksIn_eq_nil hmem]
    rw [visitsOf, visitsOf, marksIn, marksIn, List.filterMap_cons, List.filterMap_cons, hmark,
      ← marksIn, ← marksIn, hvisits]

theorem marksIn_flatMap (f : Cell → List Visit) (seeds : List Cell) :
    marksIn terrain cell (seeds.flatMap f) =
      seeds.flatMap fun seed => marksIn terrain cell (f seed) :=
  List.filterMap_flatMap

theorem marksIn_visitsUnder_congr {sun : Sun Float} (hx : sun.x.isFinite = true)
    (hy : sun.y.isFinite = true) (hshape : terrain.shape = other.shape)
    (hagree : AgreeSunward sun.toMotion terrain other cell) :
    marksIn terrain cell (visitsUnder terrain sun .bounded) =
      marksIn other cell (visitsUnder other sun .bounded) := by
  rw [visitsUnder, visitsUnder, hshape]
  cases budget? sun.toMotion other.shape .bounded with
  | none => rfl
  | some budget =>
    dsimp only
    rw [marksIn_flatMap, marksIn_flatMap]
    congr 1
    funext seed
    exact marksIn_congr hagree (rayPath_pairwise hx hy budget seed)

theorem march_plain_congr {z : Float} (hx : motion.x.isFinite = true)
    (hy : motion.y.isFinite = true) (hshape : terrain.shape = other.shape)
    (hagree : ∀ start, terrain.shape.nearest cell.position = some start →
      AgreeSunward motion terrain other start) :
    (march terrain motion rise (fun _ => true) n cell z).1 =
      (march other motion rise (fun _ => true) n cell z).1 := by
  have hpath : marchPath other motion n cell = marchPath terrain motion n cell := by
    rw [marchPath, marchPath, hshape]
  rw [march_plain_eq_foldl, march_plain_eq_foldl, hpath]
  refine List.foldl_ext _ _ _ fun ray c hc => ?_
  cases hstart : terrain.shape.nearest (cell.position : Position Float) with
  | none =>
    rw [marchPath] at hc
    cases n with
    | zero => cases hc
    | succ n =>
      rw [path, hstart] at hc
      cases hc
  | some start =>
    rw [advance, advance, hagree start hstart c (sunward_of_mem_marchPath hx hy hstart hc)]

theorem exactCell_congr [Trig Float] {dem other : Raster Float32} {sun : Sun Float}
    (hx : sun.x.isFinite = true) (hy : sun.y.isFinite = true) (hrise : ¬ sun.z < 0.0)
    (hshape : dem.shape = other.shape) (hcell : dem.terrain.height cell = other.terrain.height cell)
    (hagree : ∀ start, dem.shape.nearest cell.position = some start →
      AgreeSunward sun.toMotion dem.terrain other.terrain start) :
    exactCell dem.terrain sun (dem.statistics.highest.map Sample.toFloat) cell =
      exactCell other.terrain sun (other.statistics.highest.map Sample.toFloat) cell := by
  rw [exactCell, exactCell, exactShade, exactShade, ← hcell]
  cases hz : dem.terrain.height cell with
  | none => rfl
  | some z =>
    have hmarch (n : ℕ) : (march dem.terrain sun.toMotion sun.z (fun _ => true) n cell z).1 =
        (march other.terrain sun.toMotion sun.z (fun _ => true) n cell z).1 :=
      march_plain_congr hx hy hshape hagree
    have hz' : other.terrain.height cell = some z := hcell.symm.trans hz
    dsimp only
    -- each march ends at the highest cell of its own raster, so both are first freed from that end
    rw [march_volume_eq dem _ hrise, march_volume_eq other _ hrise, hmarch]

end Shadow

namespace Shadow

/-- What a cell shows depends only on the terrain that lies sunward of it. An exact ray starts at
the rounded place of its cell, so where coordinates may be rounded the terrain sunward of that place
counts too. -/
theorem shade_sees_sunward [Trig Float] [Resources] (dem other : Raster Float32) (sun : Sun Float)
    (cell : Cell) (hx : sun.x.isFinite = true) (hy : sun.y.isFinite = true)
    (hz : sun.z.isFinite = true) (hrise : 0.0 ≤ sun.z) (hshape : dem.shape = other.shape)
    (hcell : dem.shape.Contains cell)
    (hagree : AgreeSunward sun.toMotion dem.terrain other.terrain cell) :
    let highest := dem.statistics.highest.map Sample.toFloat
    let highest' := other.statistics.highest.map Sample.toFloat
    ((2 ^ 53 ≤ cell.row ∨ 2 ^ 53 ≤ cell.col →
        ∀ start, dem.shape.nearest (cell.position : Position Float) = some start →
          AgreeSunward sun.toMotion dem.terrain other.terrain start) →
      ∀ workers workers' cells cells',
        (exactCells dem.terrain sun highest workers).outcome = .ok cells →
        (exactCells other.terrain sun highest' workers').outcome = .ok cells' →
        ∃ shade, cells[dem.shape.index cell]? = some shade ∧
          cells'[dem.shape.index cell]? = some shade) ∧
    ∀ cells cells', (sweptCells dem.terrain sun highest .bounded).outcome = .ok cells →
      (sweptCells other.terrain sun highest' .bounded).outcome = .ok cells' →
      ∃ shade, cells[dem.shape.index cell]? = some shade ∧
        cells'[dem.shape.index cell]? = some shade := by
  intro highest highest'
  have hcell' : other.shape.Contains cell := hshape ▸ hcell
  constructor
  · intro hfar workers workers' cells cells' hrun hrun'
    have hstart : ∀ start, dem.shape.nearest (cell.position : Position Float) = some start →
        AgreeSunward sun.toMotion dem.terrain other.terrain start := by
      by_cases hsmall : cell.row < 2 ^ 53 ∧ cell.col < 2 ^ 53
      · rw [Shape.nearest_position hcell hsmall.1 hsmall.2]
        intro start hstart
        exact Option.some.inj hstart ▸ hagree
      · exact hfar (by omega)
    have hsame :=
      exactCell_congr hx hy (not_neg_of_nonneg hrise) hshape (hagree cell (.refl _ _)) hstart
    refine ⟨_, getElem?_exactCells hrun dem.size_lt_wordValues hcell, ?_⟩
    rw [hshape]
    exact (getElem?_exactCells hrun' other.size_lt_wordValues hcell').trans
      (congrArg some hsame.symm)
  · intro cells cells' hrun hrun'
    have hmarks := marksIn_visitsUnder_congr hx hy hshape hagree
    have hc : Castable dem.terrain sun.z highest := castable_of_dem hrise (.inl hz)
    have hc' : Castable other.terrain sun.z highest' := castable_of_dem hrise (.inl hz)
    refine ⟨_, hc.getElem?_sweptCells hrun hcell, ?_⟩
    rw [hshape, hmarks]
    exact hc'.getElem?_sweptCells hrun' hcell'

/-- Under a sun in the east two rasters that differ in the west show the same from there on. -/
theorem shade_sees_sunward_east :
    let dem : Raster Float32 := ⟨⟨1, 3⟩, #[0.0, 0.0, 5.0], .unit ⟨1, 3⟩, rfl, by decide⟩
    let other : Raster Float32 := ⟨⟨1, 3⟩, #[9.0, 0.0, 5.0], .unit ⟨1, 3⟩, rfl, by decide⟩
    let sun : Sun Float := ⟨⟨1.0, 0.0⟩, 1.0⟩
    let highest := dem.statistics.highest.map Sample.toFloat
    let highest' := other.statistics.highest.map Sample.toFloat
    dem.shape.Contains ⟨0, 1⟩ ∧ highest ≠ highest' ∧
      AgreeSunward sun.toMotion dem.terrain other.terrain ⟨0, 1⟩ ∧
      (∃ cells cells', (exactCells dem.terrain sun highest 1).outcome = .ok cells ∧
        (exactCells other.terrain sun highest' 2).outcome = .ok cells' ∧ cells[1]? = cells'[1]?) ∧
      ∃ cells cells', (sweptCells dem.terrain sun highest .bounded).outcome = .ok cells ∧
        (sweptCells other.terrain sun highest' .bounded).outcome = .ok cells' ∧
        cells[1]? = cells'[1]? := by
  intro dem other sun highest highest'
  have hcell : dem.shape.Contains ⟨0, 1⟩ := by decide
  have hagree : AgreeSunward sun.toMotion dem.terrain other.terrain ⟨0, 1⟩ := by
    intro c hc
    have hcol : 1 ≤ c.col := hc.1.1 (by decide +kernel)
    by_cases hin : dem.shape.Contains c
    · obtain ⟨row, col⟩ := c
      obtain ⟨hrow, hcol'⟩ := hin
      change row < 1 at hrow
      change col < 3 at hcol'
      change 1 ≤ col at hcol
      interval_cases row
      interval_cases col
      · decide +kernel
      · decide +kernel
    · exact (if_neg hin).trans (if_neg hin).symm
  obtain ⟨hexact, hswept⟩ := shade_sees_sunward dem other sun ⟨0, 1⟩ (by decide +kernel)
    (by decide +kernel) (by decide +kernel) (by decide +kernel) rfl hcell hagree
  refine ⟨hcell, by decide +kernel, hagree, ?_, ?_⟩
  · have hone : Suffices dem.shape 1 := ⟨by decide, by decide, by decide, by decide⟩
    have htwo : Suffices other.shape 2 := ⟨by decide, by decide, by decide, by decide⟩
    have hrun : (exactCells dem.terrain sun highest 1).outcome = _ :=
      congrArg Logged.outcome (shadeCells_eq hone dem.size_lt_wordValues _).1
    have hrun' : (exactCells other.terrain sun highest' 2).outcome = _ :=
      congrArg Logged.outcome (shadeCells_eq htwo other.size_lt_wordValues _).1
    obtain ⟨shade, h, h'⟩ := hexact (fun h => absurd h (by decide)) 1 2 _ _ hrun hrun'
    exact ⟨_, _, hrun, hrun', h.trans h'.symm⟩
  · obtain ⟨cells, hrun⟩ :
        ∃ cells, (sweptCells dem.terrain sun highest .bounded).outcome = .ok cells :=
      sweptCells_outcome (by decide) (by decide)
    obtain ⟨cells', hrun'⟩ :
        ∃ cells, (sweptCells other.terrain sun highest' .bounded).outcome = .ok cells :=
      sweptCells_outcome (by decide) (by decide)
    obtain ⟨shade, h, h'⟩ := hswept cells cells' hrun hrun'
    exact ⟨cells, cells', hrun, hrun', h.trans h'.symm⟩

theorem gives_at_rounded_place [Trig Float] {terrain : Terrain Float} {highest : Option Float}
    {h : Float} (hshape : terrain.shape = ⟨1, 2 ^ 53 + 6⟩)
    (hcell : terrain.height ⟨0, 2 ^ 53 + 3⟩ = some 0.0)
    (hbehind : terrain.height ⟨0, 2 ^ 53 + 4⟩ = some h) (hlow : below highest 0.0 = true)
    (hhigh : below highest (0.0 + 1.0) = false) :
    Gives terrain ⟨-1.0, 0.0⟩ 1.0 highest ⟨0, 2 ^ 53 + 3⟩
      (volumeShade ((⟨0.0, 0.0⟩ : Ray Float).pass (some h)).volume) := by
  have hstart : terrain.shape.nearest (Cell.position ⟨0, 2 ^ 53 + 3⟩ : Position Float) =
      some ⟨0, 2 ^ 53 + 4⟩ := by
    rw [hshape]
    decide +kernel
  have hnext : (terrain.shape.nearest ⟨(Cell.position ⟨0, 2 ^ 53 + 3⟩ : Position Float).x + -1.0,
      (Cell.position ⟨0, 2 ^ 53 + 3⟩ : Position Float).y + 0.0⟩).isSome := by
    rw [hshape]
    decide +kernel
  obtain ⟨c, hc⟩ := Option.isSome_iff_exists.1 hnext
  have hmarch : march terrain ⟨-1.0, 0.0⟩ 1.0 (below highest) 2 ⟨0, 2 ^ 53 + 3⟩ 0.0 =
      (⟨0.0 + 1.0, ((⟨0.0, 0.0⟩ : Ray Float).pass (some h)).volume⟩, .stopped) := by
    rw [march, walk, hstart]
    dsimp only
    rw [if_pos hlow, hbehind]
    dsimp only
    rw [walk, hc]
    dsimp only
    rw [if_neg (ne_true_of_eq_false hhigh)]
  have hended : (march terrain ⟨-1.0, 0.0⟩ 1.0 (below highest) 2 ⟨0, 2 ^ 53 + 3⟩ 0.0).2 ≠
      .outOfSteps := by
    rw [hmarch]
    change Ending.stopped ≠ .outOfSteps
    decide
  have hgives := Gives.ended hcell hended
  rwa [hmarch] at hgives

theorem exactCells_at_rounded_place [Trig Float] [Resources] {dem : Raster Float32} {h : Float}
    (hroom : Suffices dem.shape 1) (hshape : dem.shape = ⟨1, 2 ^ 53 + 6⟩)
    (hcell : dem.terrain.height ⟨0, 2 ^ 53 + 3⟩ = some 0.0)
    (hbehind : dem.terrain.height ⟨0, 2 ^ 53 + 4⟩ = some h)
    (hlow : ∀ v ∈ dem.cells, ∀ w ∈ dem.cells, ¬ widen v + 1.0 ≤ widen w) :
    ∃ cells, (exactCells dem.terrain ⟨⟨-1.0, 0.0⟩, 1.0⟩
        (dem.statistics.highest.map Sample.toFloat) 1).outcome = .ok cells ∧
      cells[dem.shape.index ⟨0, 2 ^ 53 + 3⟩]? = some
        (Sample.ofFloat (volumeShade ((⟨0.0, 0.0⟩ : Ray Float).pass (some h)).volume)) := by
  have hhigh : below (dem.statistics.highest.map Sample.toFloat) (0.0 + 1.0) = false := by
    obtain ⟨v, hv, -, hz⟩ := Raster.exists_of_height hcell
    exact not_below_highest (hz ▸ hlow v hv)
  have hgives :=
    gives_at_rounded_place hshape hcell hbehind (below_highest_of_height hcell) hhigh
  have hrun : (exactCells dem.terrain ⟨⟨-1.0, 0.0⟩, 1.0⟩
      (dem.statistics.highest.map Sample.toFloat) 1).outcome = _ :=
    congrArg Logged.outcome (shadeCells_eq hroom dem.size_lt_wordValues _).1
  refine ⟨_, hrun, ?_⟩
  rw [← hgives.exactShade_eq]
  exact getElem?_exactCells hrun dem.size_lt_wordValues (Raster.contains_of_height hcell)

/-- Two level rows but for one cell. It does not lie sunward of the cell before it, and yet tells
that cell's exact shade: where places are that far out, the ray starts there. -/
theorem shade_sees_rounded_place :
    letI := tableTrig
    letI : Resources := ⟨addressLimit, le_rfl, 1⟩
    let sun : Sun Float := ⟨⟨-1.0, 0.0⟩, 1.0⟩
    let cell : Cell := ⟨0, 2 ^ 53 + 3⟩
    ∃ dem other : Raster Float32, Raster.filled ⟨1, 2 ^ 53 + 6⟩ 0.0 = .ok dem ∧
      dem.set ⟨0, 2 ^ 53 + 4⟩ 0.5 = .ok other ∧
      let highest := dem.statistics.highest.map Sample.toFloat
      let highest' := other.statistics.highest.map Sample.toFloat
      AgreeSunward sun.toMotion dem.terrain other.terrain cell ∧
      (∀ c, (∃ shade, Gives dem.terrain sun.toMotion sun.z highest c shade) ∧
        ∃ shade, Gives other.terrain sun.toMotion sun.z highest' c shade) ∧
      ∃ cells cells', (exactCells dem.terrain sun highest 1).outcome = .ok cells ∧
        (exactCells other.terrain sun highest' 1).outcome = .ok cells' ∧
        cells[dem.shape.index cell]? = some 0.0 ∧
        cells'[dem.shape.index cell]? = some (-0.6931472) := by
  let : Trig Float := tableTrig
  let : Resources := ⟨addressLimit, le_rfl, 1⟩
  intro sun cell
  obtain ⟨dem, hdem, hshape⟩ : ∃ dem : Raster Float32,
      Raster.filled ⟨1, 2 ^ 53 + 6⟩ 0.0 = .ok dem ∧ dem.shape = ⟨1, 2 ^ 53 + 6⟩ :=
    Raster.exists_filled (by decide)
  have hin (col : ℕ) (hcol : col < 2 ^ 53 + 6) : dem.shape.Contains ⟨0, col⟩ := by
    rw [hshape]
    exact ⟨one_pos, hcol⟩
  have hplace : dem.shape.Contains ⟨0, 2 ^ 53 + 4⟩ := hin _ (by decide)
  obtain ⟨other, hother⟩ : ∃ other, dem.set ⟨0, 2 ^ 53 + 4⟩ 0.5 = .ok other := ⟨_, if_pos hplace⟩
  obtain ⟨-, hshape', hcells⟩ := Raster.set_eq_ok hother
  have hheight (col : ℕ) (hcol : col < 2 ^ 53 + 6) : dem.terrain.height ⟨0, col⟩ = some 0.0 :=
    Raster.height_filled hdem (by decide +kernel) (hin col hcol)
  have hlevel : ∀ v ∈ dem.cells, v = 0.0 ∨ v = 0.5 :=
    fun v hv => .inl (Raster.cells_filled hdem v hv)
  have hlevel' : ∀ v ∈ other.cells, v = 0.0 ∨ v = 0.5 := by
    intro v hv
    rw [hcells] at hv
    exact (Array.mem_or_eq_of_mem_setIfInBounds hv).elim (hlevel v) .inr
  have hlow (r : Raster Float32) (hr : ∀ v ∈ r.cells, v = 0.0 ∨ v = 0.5) :
      ∀ v ∈ r.cells, ∀ w ∈ r.cells, ¬ widen v + 1.0 ≤ widen w := by
    intro v hv w hw
    rcases hr v hv with rfl | rfl <;> rcases hr w hw with rfl | rfl <;> decide +kernel
  have hroom : Suffices dem.shape 1 := by
    rw [hshape]
    exact ⟨by decide, by decide, by decide, by decide⟩
  obtain ⟨cells, hrun, hshade⟩ := exactCells_at_rounded_place hroom hshape
    (hheight _ (by decide)) (hheight _ (by decide)) (hlow dem hlevel)
  have hbehind' : other.terrain.height ⟨0, 2 ^ 53 + 4⟩ = some 0.5 := by
    rw [Raster.height_set hother, if_pos rfl]
    decide +kernel
  obtain ⟨cells', hrun', hshade'⟩ := exactCells_at_rounded_place (hshape' ▸ hroom)
    (hshape'.trans hshape) ((Raster.height_set hother _).trans (hheight _ (by decide))) hbehind'
    (hlow other hlevel')
  rw [hshape'] at hshade'
  refine ⟨dem, other, hdem, hother, ?_, ?_, cells, cells', hrun, hrun', hshade.trans ?_,
    hshade'.trans ?_⟩
  · intro c hc
    have hcol : c.col ≤ 2 ^ 53 + 3 := hc.1.2 (by decide +kernel)
    rw [Raster.height_set hother, if_neg]
    rintro rfl
    exact absurd hcol (by decide)
  · intro c
    exact ⟨exists_gives_of_low (hlow dem hlevel) c, exists_gives_of_low (hlow other hlevel') c⟩
  · decide +kernel
  · decide +kernel

end Shadow

end Relief
