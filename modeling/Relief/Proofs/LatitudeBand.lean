import Relief.Proofs.Geometry
import Relief.Proofs.Slots

namespace Relief

open Binary

namespace LatitudeBand

variable {lat1 lat2 : Float} {band : LatitudeBand}

section Pairs

theorem isFinite_south (band : LatitudeBand) : band.south.isFinite = true := by
  apply isFinite_of_between (lt_imp_le band.pole_lt_south) (z := 90.0) _ (by decide) (by decide)
  exact lt_imp_le (trans_lt band.south_lt_north band.north_lt_pole)

theorem isFinite_north (band : LatitudeBand) : band.north.isFinite = true := by
  apply isFinite_of_between (x := -90.0) _ (lt_imp_le band.north_lt_pole) (by decide) (by decide)
  exact lt_imp_le (trans_lt band.pole_lt_south band.south_lt_north)

theorem within_eq_ok_iff {south north : Float} (h : south < north) :
    ofPair.within lat1 lat2 south north h = .ok band ↔ south = band.south ∧ north = band.north := by
  constructor
  · intro hw
    rw [ofPair.within] at hw
    split_ifs at hw
    cases hw
    exact ⟨rfl, rfl⟩
  · rintro ⟨rfl, rfl⟩
    rw [ofPair.within, dif_pos band.pole_lt_south, dif_pos band.north_lt_pole]

theorem ofPair_eq_ok_iff : ofPair lat1 lat2 = .ok band ↔
    (lat1 = band.south ∧ lat2 = band.north) ∨ (lat1 = band.north ∧ lat2 = band.south) := by
  constructor
  · intro h
    rw [ofPair] at h
    split_ifs at h with _ hlt hgt
    · exact .inl ((within_eq_ok_iff hlt).1 h)
    · obtain ⟨hsouth, hnorth⟩ := (within_eq_ok_iff hgt).1 h
      exact .inr ⟨hnorth, hsouth⟩
  · have hlt := band.south_lt_north
    rintro (⟨rfl, rfl⟩ | ⟨rfl, rfl⟩)
    · rw [ofPair, if_neg (by simp [isFinite_south, isFinite_north]), dif_pos hlt]
      exact (within_eq_ok_iff hlt).2 ⟨rfl, rfl⟩
    · have hnot : ¬ band.north < band.south := fun hgt =>
        absurd (lt_iff.1 hlt).2 (lt_iff.1 hgt).2.not_gt
      rw [ofPair, if_neg (by simp [isFinite_south, isFinite_north]), dif_neg hnot, dif_pos hlt]
      exact (within_eq_ok_iff hlt).2 ⟨rfl, rfl⟩

/-- Two different numbers strictly between the poles. -/
structure Bounding (lat1 lat2 : Float) : Prop where
  isFinite : lat1.isFinite = true ∧ lat2.isFinite = true
  differ : (lat1 == lat2) = false
  first : -90.0 < lat1 ∧ lat1 < 90.0
  second : -90.0 < lat2 ∧ lat2 < 90.0

theorem bounding (band : LatitudeBand) : Bounding band.south band.north := by
  refine ⟨⟨band.isFinite_south, band.isFinite_north⟩, ?_, ?_, ?_⟩
  · apply eq_false_of_ne_true
    intro heq
    exact (lt_iff.1 band.south_lt_north).2.ne (beq_iff.1 heq).2
  · exact ⟨band.pole_lt_south, trans_lt band.south_lt_north band.north_lt_pole⟩
  · exact ⟨trans_lt band.pole_lt_south band.south_lt_north, band.north_lt_pole⟩

theorem Bounding.symm (h : Bounding lat1 lat2) : Bounding lat2 lat1 := by
  refine ⟨h.isFinite.symm, ?_, h.second, h.first⟩
  apply eq_false_of_ne_true
  intro heq
  obtain ⟨hn, hv⟩ := beq_iff.1 heq
  exact absurd (beq_iff.2 ⟨hn.symm, hv.symm⟩) (ne_true_of_eq_false h.differ)

theorem Bounding.lt_or_gt (h : Bounding lat1 lat2) : lat1 < lat2 ∨ lat2 < lat1 := by
  obtain ⟨h1, h2⟩ := h.isFinite
  rcases lt_trichotomy (number lat1) (number lat2) with hlt | heq | hgt
  · exact .inl ((lt_iff_number h1 h2).2 hlt)
  · have hbeq : (lat1 == lat2) = true := by
      rw [beq_iff, value_of_isFinite h1, value_of_isFinite h2, heq]
      exact ⟨⟨isNaN_of_isFinite h1, isNaN_of_isFinite h2⟩, rfl⟩
    exact absurd hbeq (ne_true_of_eq_false h.differ)
  · exact .inr ((lt_iff_number h2 h1).2 hgt)

theorem exists_ofPair_iff : (∃ band, ofPair lat1 lat2 = .ok band) ↔ Bounding lat1 lat2 := by
  constructor
  · rintro ⟨band, hband⟩
    rcases ofPair_eq_ok_iff.1 hband with ⟨rfl, rfl⟩ | ⟨rfl, rfl⟩
    · exact band.bounding
    · exact band.bounding.symm
  · intro h
    rcases h.lt_or_gt with hlt | hgt
    · exact ⟨⟨lat1, lat2, h.first.1, hlt, h.second.2⟩, ofPair_eq_ok_iff.2 (.inl ⟨rfl, rfl⟩)⟩
    · exact ⟨⟨lat2, lat1, h.second.1, hgt, h.first.2⟩, ofPair_eq_ok_iff.2 (.inr ⟨rfl, rfl⟩)⟩

end Pairs

section Documents

open Document

theorem decode_eq_ok_iff {d : Document} : decode d = .ok band ↔
    ∃ d1 d2 lat1 lat2, d = .list [d1, d2] ∧ d1.toReal = .ok lat1 ∧ d2.toReal = .ok lat2 ∧
      ofPair lat1 lat2 = .ok band := by
  constructor
  · intro h
    rw [decode.eq_def] at h
    split at h
    · next d1 d2 =>
      obtain ⟨lat1, h1, h⟩ := exists_of_bind_ok h
      obtain ⟨lat2, h2, h⟩ := exists_of_bind_ok h
      cases hpair : ofPair lat1 lat2 with
      | error cause =>
        rw [hpair] at h
        cases h
      | ok band' =>
        rw [hpair] at h
        cases h
        exact ⟨d1, d2, lat1, lat2, rfl, h1, h2, hpair⟩
    · cases h
  · rintro ⟨d1, d2, lat1, lat2, rfl, h1, h2, hpair⟩
    simp only [decode, h1, h2, hpair, bind, Except.bind]

theorem decode_encode (band : LatitudeBand) : decode band.encode = .ok band :=
  decode_eq_ok_iff.2 ⟨_, _, _, _, rfl, rfl, rfl, ofPair_eq_ok_iff.2 (.inl ⟨rfl, rfl⟩)⟩

/-- How parameters come by a band: from the item of their own document, and an item that is given is
null or bounds a band. -/
structure Supplied {π : Type} (names : List String) (decodeParams : Document → Except Refusal π)
    (mercator : π → Option LatitudeBand) : Prop where
  of_item : ∀ d params band, decodeParams d = .ok params → mercator params = some band →
    ∃ item, ("mercator", item) ∈ d.fieldsGiven names ∧ decode item = .ok band
  given : ∀ d params item, decodeParams d = .ok params →
    ("mercator", item) ∈ d.fieldsGiven names →
      (item = .null ∧ mercator params = none) ∨
        ∃ band, decode item = .ok band ∧ mercator params = some band

theorem toOption_decode_eq_ok {d : Document} {found : Option LatitudeBand}
    (h : d.toOption decode = .ok found) :
    (d = .null ∧ found = none) ∨ ∃ band, decode d = .ok band ∧ found = some band := by
  rw [Document.toOption.eq_def] at h
  split at h
  · cases h
    exact .inl ⟨rfl, rfl⟩
  · cases hd : decode d with
    | error e =>
      rw [hd] at h
      cases h
    | ok band =>
      rw [hd] at h
      cases h
      exact .inr ⟨band, rfl, rfl⟩

theorem supplied_of_slot {π : Type} {slots : List (Slot π)}
    {set : String → Document → π → Except Refusal π} {base : π} {mercator : π → Option LatitudeBand}
    {put : Option LatitudeBand → π → π} (h : Consists slots set)
    (hslot : ⟨"mercator", Option LatitudeBand, toOption decode, mercator, put⟩ ∈ slots)
    (hbase : mercator base = none) :
    Supplied (slots.map Slot.name) (·.override (slots.map Slot.name) set base) mercator := by
  constructor
  · intro d params band hread hband
    have hfield := h.fieldOr_of_override hslot hread
    dsimp only at hfield
    rw [fieldOr, hband, hbase] at hfield
    cases hlookup : (d.fieldsGiven (slots.map Slot.name)).lookup "mercator" with
    | none =>
      rw [hlookup] at hfield
      cases hfield
    | some item =>
      rw [hlookup] at hfield
      obtain ⟨before, after, hfields, -⟩ := List.lookup_eq_some_iff.1 hlookup
      refine ⟨item, hfields ▸ List.mem_append_right before List.mem_cons_self, ?_⟩
      rcases toOption_decode_eq_ok hfield with ⟨-, hnone⟩ | ⟨found, hfound, hsome⟩
      · cases hnone
      · cases hsome
        exact hfound
  · intro d params item hread hitem
    have honce := (fieldsGiven_of_override hread).1 "mercator" (List.mem_map_of_mem hslot)
    have hfield := h.fieldOr_of_override hslot hread
    dsimp only at hfield
    rw [fieldOr, lookup_of_mem honce hitem] at hfield
    exact toOption_decode_eq_ok hfield

end Documents

end LatitudeBand

section Fields

open LatitudeBand Document

theorem ShadowParams.supplied (workers : ℕ) :
    Supplied (slots.map Slot.name) (decode workers) mercator :=
  supplied_of_slot consists (List.mem_of_getElem? (i := 3) rfl) rfl

theorem OpennessParams.supplied (workers : ℕ) :
    Supplied (slots.map Slot.name) (decode workers) mercator :=
  supplied_of_slot consists (List.mem_of_getElem? (i := 3) rfl) rfl

end Fields

theorem Geometry.ground_of_band [Trig Float] {extent : Extent Float} {shape : Shape}
    {band : LatitudeBand} {geometry : Geometry}
    (h : (resolve extent shape (some band)).outcome = .ok geometry) :
    let scale : Float := Trig.cos (toRadians band.middle)
    geometry.projection = .mercator band ∧
      geometry.ground = ⟨geometry.native.x * scale, geometry.native.y * scale⟩ := by
  intro scale
  obtain ⟨-, -, hproject, hground, -⟩ := resolve_eq_ok h
  have hmercator : geometry.projection = .mercator band := by
    unfold project at hproject
    cases hclass : Projection.classify extent geometry.native with
    | unknown | geographic =>
      rw [hclass] at hproject
      cases hproject
    | projected | mercator =>
      rw [hclass] at hproject
      exact (Except.ok.inj hproject).symm
  rw [hground, hmercator]
  exact ⟨rfl, rfl⟩

namespace LatitudeBand

structure Valid (band : LatitudeBand) : Prop where
  ordered : -90.0 < band.south ∧ band.south < band.north ∧ band.north < 90.0
  ofPair_ends : ofPair band.south band.north = .ok band ∧ ofPair band.north band.south = .ok band
  decode_encode : decode band.encode = .ok band
  middle_mem : band.south ≤ band.middle ∧ band.middle ≤ band.north
  middle_inside : -90.0 < band.middle ∧ band.middle < 90.0

theorem valid (band : LatitudeBand) : band.Valid := by
  obtain ⟨hsouth, hnorth⟩ := band.middle_mem
  refine ⟨⟨band.pole_lt_south, band.south_lt_north, band.north_lt_pole⟩, ⟨?_, ?_⟩,
    decode_encode band, ⟨hsouth, hnorth⟩, ?_, ?_⟩
  · exact ofPair_eq_ok_iff.2 (.inl ⟨rfl, rfl⟩)
  · exact ofPair_eq_ok_iff.2 (.inr ⟨rfl, rfl⟩)
  · exact trans_lt_le band.pole_lt_south hsouth
  · exact trans_le_lt hnorth band.north_lt_pole

/-- A pair bounds a band exactly if it is two different numbers strictly between the poles, and the
band is the same for either order. Every band, those of documents included, comes from such a pair,
is given back by its ends and its document, and has a middle within it, at which the scale of a
Mercator map is taken. -/
theorem pairs_bound_bands [Trig Float] :
    (∀ lat1 lat2, ((∃ band, ofPair lat1 lat2 = .ok band) ↔ Bounding lat1 lat2) ∧
      ∀ band, (ofPair lat1 lat2 = .ok band ↔ ofPair lat2 lat1 = .ok band) ∧
        (ofPair lat1 lat2 = .ok band ↔
          (lat1 = band.south ∧ lat2 = band.north) ∨ (lat1 = band.north ∧ lat2 = band.south))) ∧
    (∀ band : LatitudeBand, band.Valid) ∧
    (∀ d band, decode d = .ok band ↔ ∃ d1 d2 lat1 lat2, d = .list [d1, d2] ∧
      d1.toReal = .ok lat1 ∧ d2.toReal = .ok lat2 ∧ ofPair lat1 lat2 = .ok band) ∧
    (∀ workers,
      Supplied ["azimuth", "elevation", "algorithm", "mercator", "workers"]
        (ShadowParams.decode workers) ShadowParams.mercator ∧
      Supplied ["directions", "stride", "max_distance", "mercator", "workers"]
        (OpennessParams.decode workers) OpennessParams.mercator) ∧
    ∀ extent shape band geometry,
      (Geometry.resolve extent shape (some band)).outcome = .ok geometry →
        let scale : Float := Trig.cos (toRadians band.middle)
        geometry.projection = .mercator band ∧
          geometry.ground = ⟨geometry.native.x * scale, geometry.native.y * scale⟩ := by
  refine ⟨?_, valid, fun d band => decode_eq_ok_iff, ?_, ?_⟩
  · intro lat1 lat2
    refine ⟨exists_ofPair_iff, ?_⟩
    intro band
    refine ⟨?_, ofPair_eq_ok_iff⟩
    rw [ofPair_eq_ok_iff, ofPair_eq_ok_iff, or_comm, and_comm, and_comm (a := lat1 = band.south)]
  · intro workers
    exact ⟨ShadowParams.supplied workers, OpennessParams.supplied workers⟩
  · intro extent shape band geometry h
    exact Geometry.ground_of_band h

/-- The two least positive numbers bound a band, whose middle is rounded up to the greater one; the
pole bounds none. -/
theorem pairs_bound_bands_least :
    ∃ band, ofPair 1.0e-323 5.0e-324 = .ok band ∧ ofPair 5.0e-324 1.0e-323 = .ok band ∧
      band.south = 5.0e-324 ∧ band.middle = 1.0e-323 ∧ band.middle ≤ band.north ∧
      ¬ ∃ band, ofPair 90.0 5.0e-324 = .ok band := by
  let : Trig Float := Geometry.equatorTrig
  obtain ⟨hpairs, hvalid, -⟩ := pairs_bound_bands
  let band : LatitudeBand :=
    ⟨5.0e-324, 1.0e-323, by decide +kernel, by decide +kernel, by decide +kernel⟩
  obtain ⟨-, hleast⟩ := hpairs 1.0e-323 5.0e-324
  obtain ⟨hswap, hends⟩ := hleast band
  have hband := hends.2 (.inr ⟨rfl, rfl⟩)
  refine ⟨band, hband, hswap.1 hband, rfl, by decide +kernel, (hvalid band).middle_mem.2, ?_⟩
  intro h
  exact absurd ((hpairs 90.0 5.0e-324).1.1 h).first.2 (by decide +kernel)

end LatitudeBand

end Relief
