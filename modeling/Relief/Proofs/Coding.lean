import Relief.Proofs.LatitudeBand

namespace Relief

section Values

variable {d : Document}

namespace Document

def IsNumber (d : Document) : Prop :=
  (∃ n, d = .whole n) ∨ ∃ x, d = .real x

def IsCount (d : Document) : Prop :=
  ∃ n : ℕ, d = .whole n ∧ n < wordValues

def IsLabel (label : String) (d : Document) : Prop :=
  d = .text label ∨ d = .record [(label, .null)]

theorem exists_toReal_iff : (∃ x, d.toReal = .ok x) ↔ d.IsNumber := by
  constructor
  · rintro ⟨x, h⟩
    cases d with
    | whole n => exact .inl ⟨n, rfl⟩
    | real y => exact .inr ⟨y, rfl⟩
    | _ => cases h
  · rintro (⟨n, rfl⟩ | ⟨x, rfl⟩)
    · exact ⟨_, rfl⟩
    · exact ⟨_, rfl⟩

theorem toCount_eq_ok_iff {n : ℕ} : d.toCount = .ok n ↔ d = .whole n ∧ n < wordValues := by
  constructor
  · intro h
    rw [toCount.eq_def] at h
    split at h
    · split_ifs at h with hrange
      cases h
      exact ⟨by rw [Int.toNat_of_nonneg hrange.1], by omega⟩
    · cases h
  · rintro ⟨rfl, hword⟩
    rw [toCount, if_pos (by omega), Int.toNat_natCast]

theorem toOption_of_ne_null {β : Type} {decode : Document → Except Refusal β} (h : d ≠ .null) :
    d.toOption decode = some <$> decode d := by
  cases d with
  | null => exact absurd rfl h
  | _ => rfl

theorem toCount_whole {n : ℕ} (h : n < wordValues) : (whole n).toCount = .ok n :=
  toCount_eq_ok_iff.2 ⟨rfl, h⟩

theorem exists_toCount_iff : (∃ n, d.toCount = .ok n) ↔ d.IsCount :=
  exists_congr fun _ => toCount_eq_ok_iff

end Document

theorem Edges.decode_eq_ok_iff {e : Edges} : decode d = .ok e ↔ d.IsLabel e.label := by
  constructor
  · intro h
    rw [decode.eq_def] at h
    split at h <;> cases h
    · exact .inl rfl
    · exact .inl rfl
    · exact .inr rfl
    · exact .inr rfl
  · cases e with
    | periodic | bounded =>
      rintro (rfl | rfl)
      · rfl
      · rfl

namespace ShadowMethod

def Spelled : ShadowMethod → Document → Prop
  | exact, d => d.IsLabel "Exact"
  | fastSweep e, d => ∃ edges, d = .record [("FastSweep", edges)] ∧ edges.IsLabel e.label

theorem decode_eq_ok_iff {m : ShadowMethod} : decode d = .ok m ↔ m.Spelled d := by
  constructor
  · intro h
    rw [decode.eq_def] at h
    split at h
    · cases h
      exact .inl rfl
    · cases h
      exact .inr rfl
    · next edges =>
      obtain ⟨e, he, h⟩ := exists_of_bind_ok h
      cases h
      exact ⟨edges, rfl, Edges.decode_eq_ok_iff.1 he⟩
    · cases h
  · cases m with
    | exact =>
      rintro (rfl | rfl)
      · rfl
      · rfl
    | fastSweep e =>
      rintro ⟨edges, rfl, h⟩
      rw [decode, Edges.decode_eq_ok_iff.2 h]
      rfl

theorem decode_encode (m : ShadowMethod) : decode m.encode = .ok m := by
  rw [decode_eq_ok_iff]
  cases m with
  | exact => exact .inl rfl
  | fastSweep e => exact ⟨_, rfl, .inl rfl⟩

end ShadowMethod

namespace LatitudeBand

def IsPair (d : Document) : Prop :=
  ∃ d1 d2 lat1 lat2, d = .list [d1, d2] ∧ d1.toReal = .ok lat1 ∧ d2.toReal = .ok lat2 ∧
    Bounding lat1 lat2

theorem exists_decode_iff : (∃ band, decode d = .ok band) ↔ IsPair d := by
  constructor
  · rintro ⟨band, h⟩
    obtain ⟨d1, d2, lat1, lat2, hd, h1, h2, hpair⟩ := decode_eq_ok_iff.1 h
    exact ⟨d1, d2, lat1, lat2, hd, h1, h2, exists_ofPair_iff.1 ⟨band, hpair⟩⟩
  · rintro ⟨d1, d2, lat1, lat2, hd, h1, h2, hbounding⟩
    obtain ⟨band, hpair⟩ := exists_ofPair_iff.2 hbounding
    exact ⟨band, decode_eq_ok_iff.2 ⟨d1, d2, lat1, lat2, hd, h1, h2, hpair⟩⟩

theorem exists_toOption_iff :
    (∃ found, d.toOption decode = .ok found) ↔ d = .null ∨ IsPair d := by
  rw [← exists_decode_iff]
  constructor
  · rintro ⟨found, h⟩
    rcases toOption_decode_eq_ok h with ⟨hnull, -⟩ | ⟨band, hband, -⟩
    · exact .inl hnull
    · exact .inr ⟨band, hband⟩
  · rintro (rfl | ⟨band, hband⟩)
    · exact ⟨none, rfl⟩
    · refine ⟨some band, ?_⟩
      obtain ⟨d1, d2, -, -, rfl, -⟩ := decode_eq_ok_iff.1 hband
      rw [Document.toOption_of_ne_null (by simp), hband]
      rfl

theorem toOption_encodeOption (found : Option LatitudeBand) :
    (encodeOption found).toOption decode = .ok found := by
  cases found with
  | none => rfl
  | some band =>
    rw [encodeOption, Document.toOption_of_ne_null (by simp [encode]), decode_encode]
    rfl

end LatitudeBand

end Values

namespace ShadowParams

open Document

variable {given : List (String × Document)} {p : ShadowParams} {workers : ℕ}

@[mk_iff]
structure Acceptable (given : List (String × Document)) : Prop where
  azimuth : ∀ d, ("azimuth", d) ∈ given → d.IsNumber
  elevation : ∀ d, ("elevation", d) ∈ given → d.IsNumber
  method : ∀ d, ("algorithm", d) ∈ given → ∃ m : ShadowMethod, m.Spelled d
  mercator : ∀ d, ("mercator", d) ∈ given → d = .null ∨ LatitudeBand.IsPair d
  workers : ∀ d, ("workers", d) ∈ given → d.IsCount

/-- Standard parameters overridden by the fields that a record gives. -/
@[mk_iff]
structure Overridden (standard : ShadowParams) (given : List (String × Document))
    (p : ShadowParams) : Prop where
  azimuth : fieldOr given "azimuth" toReal standard.azimuth = .ok p.azimuth
  elevation : fieldOr given "elevation" toReal standard.elevation = .ok p.elevation
  method : fieldOr given "algorithm" ShadowMethod.decode standard.method = .ok p.method
  mercator : fieldOr given "mercator" (toOption LatitudeBand.decode) standard.mercator =
    .ok p.mercator
  workers : fieldOr given "workers" toCount standard.workers = .ok p.workers

theorem exists_decode_iff : (∃ p, decode workers (.record given) = .ok p) ↔
    GivenOnce (slots.map Slot.name) given ∧ Acceptable given := by
  refine consists.exists_override_iff.trans (and_congr_right fun _ => ?_)
  simp only [slots, forall_mem_five, exists_toReal_iff, exists_toCount_iff,
    ShadowMethod.decode_eq_ok_iff, LatitudeBand.exists_toOption_iff, acceptable_iff]

theorem decode_eq_ok_iff : decode workers (.record given) = .ok p ↔
    GivenOnce (slots.map Slot.name) given ∧ Overridden (standard workers) given p := by
  refine consists.override_eq_ok_iff.trans (and_congr_right fun _ => ?_)
  simp only [slots, forall_mem_five, overridden_iff, standard]

theorem decode_encode (h : p.workers < wordValues) : decode workers p.encode = .ok p := by
  have hnodup : (p.fields.map Prod.fst).Nodup := by
    change (["azimuth", "elevation", "algorithm", "mercator", "workers"] : List String).Nodup
    decide
  have hworkers := toCount_whole h
  refine decode_eq_ok_iff.2 ⟨givenOnce_of_nodup hnodup _, rfl, rfl, ?_, ?_, hworkers⟩
  · exact ShadowMethod.decode_encode p.method
  · exact LatitudeBand.toOption_encodeOption p.mercator

theorem decode_items (p : ShadowParams) : decode workers (.list (p.fields.map Prod.snd)) =
    decode workers p.encode :=
  override_list p.fields (standard workers)

end ShadowParams

namespace OpennessParams

open Document

variable {given : List (String × Document)} {p : OpennessParams} {workers : ℕ}

@[mk_iff]
structure Acceptable (given : List (String × Document)) : Prop where
  directions : ∀ d, ("directions", d) ∈ given → d.IsCount
  stride : ∀ d, ("stride", d) ∈ given → d.IsCount
  maxDistance : ∀ d, ("max_distance", d) ∈ given → d.IsCount
  mercator : ∀ d, ("mercator", d) ∈ given → d = .null ∨ LatitudeBand.IsPair d
  workers : ∀ d, ("workers", d) ∈ given → d.IsCount

@[mk_iff]
structure Overridden (standard : OpennessParams) (given : List (String × Document))
    (p : OpennessParams) : Prop where
  directions : fieldOr given "directions" toCount standard.directions = .ok p.directions
  stride : fieldOr given "stride" toCount standard.stride = .ok p.stride
  maxDistance : fieldOr given "max_distance" toCount standard.maxDistance = .ok p.maxDistance
  mercator : fieldOr given "mercator" (toOption LatitudeBand.decode) standard.mercator =
    .ok p.mercator
  workers : fieldOr given "workers" toCount standard.workers = .ok p.workers

theorem exists_decode_iff : (∃ p, decode workers (.record given) = .ok p) ↔
    GivenOnce (slots.map Slot.name) given ∧ Acceptable given := by
  refine consists.exists_override_iff.trans (and_congr_right fun _ => ?_)
  simp only [slots, forall_mem_five, exists_toCount_iff, LatitudeBand.exists_toOption_iff,
    acceptable_iff]

theorem decode_eq_ok_iff : decode workers (.record given) = .ok p ↔
    GivenOnce (slots.map Slot.name) given ∧ Overridden (standard workers) given p := by
  refine consists.override_eq_ok_iff.trans (and_congr_right fun _ => ?_)
  simp only [slots, forall_mem_five, overridden_iff, standard]

theorem decode_encode (h : ∀ count ∈ p.counts, count.2 < wordValues) :
    decode workers p.encode = .ok p := by
  have hnodup : (p.fields.map Prod.fst).Nodup := by
    change (["directions", "stride", "max_distance", "mercator", "workers"] : List String).Nodup
    decide
  simp only [counts, List.forall_mem_cons, List.not_mem_nil, false_implies, implies_true,
    and_true] at h
  obtain ⟨h1, h2, h3, h4⟩ := h
  have hdirections := toCount_whole h1
  have hstride := toCount_whole h2
  have hmaxDistance := toCount_whole h3
  have hworkers := toCount_whole h4
  exact decode_eq_ok_iff.2 ⟨givenOnce_of_nodup hnodup _, hdirections, hstride, hmaxDistance,
    LatitudeBand.toOption_encodeOption p.mercator, hworkers⟩

theorem decode_items (p : OpennessParams) : decode workers (.list (p.fields.map Prod.snd)) =
    decode workers p.encode :=
  override_list p.fields (standard workers)

end OpennessParams

namespace Document

/-- How parameters and documents go together: those held in words are had back from their record
and from the list of its items, and a record overrides standard parameters or is refused. -/
structure Codes {π : Type} (decode : Document → Except Refusal π)
    (fields : π → List (String × Document)) (Held : π → Prop) (names : List String)
    (Acceptable : List (String × Document) → Prop)
    (Overridden : List (String × Document) → π → Prop) : Prop where
  of_record : ∀ p, Held p → decode (.record (fields p)) = .ok p
  of_list : ∀ p, Held p → decode (.list ((fields p).map Prod.snd)) = .ok p
  fails_iff : ∀ given, (∃ e, decode (.record given) = .error e) ↔
    ¬ (GivenOnce names given ∧ Acceptable given)
  decode_iff : ∀ given p, decode (.record given) = .ok p ↔
    GivenOnce names given ∧ Overridden given p

/-- Parameters are had back from their documents, records as well as lists. A record that gives any
of their fields, in any order and among others, is read as the standard parameters overridden by
these fields, and one that gives a field twice or not as it has to be is refused. -/
theorem params_coded (workers : ℕ) :
    (∀ d m, ShadowMethod.decode d = .ok m ↔ m.Spelled d) ∧
    Codes (ShadowParams.decode workers) ShadowParams.fields (·.workers < wordValues)
      ["azimuth", "elevation", "algorithm", "mercator", "workers"] ShadowParams.Acceptable
      (ShadowParams.Overridden (.standard workers)) ∧
    Codes (OpennessParams.decode workers) OpennessParams.fields
      (fun p => ∀ count ∈ p.counts, count.2 < wordValues)
      ["directions", "stride", "max_distance", "mercator", "workers"] OpennessParams.Acceptable
      (OpennessParams.Overridden (.standard workers)) := by
  refine ⟨fun d m => ShadowMethod.decode_eq_ok_iff, ⟨?_, ?_, ?_, ?_⟩, ⟨?_, ?_, ?_, ?_⟩⟩
  · intro p h
    exact ShadowParams.decode_encode h
  · intro p h
    exact (ShadowParams.decode_items p).trans (ShadowParams.decode_encode h)
  · intro given
    exact exists_error_iff.trans (not_congr ShadowParams.exists_decode_iff)
  · intro given p
    exact ShadowParams.decode_eq_ok_iff
  · intro p h
    exact OpennessParams.decode_encode h
  · intro p h
    exact (OpennessParams.decode_items p).trans (OpennessParams.decode_encode h)
  · intro given
    exact exists_error_iff.trans (not_congr OpennessParams.exists_decode_iff)
  · intro given p
    exact OpennessParams.decode_eq_ok_iff

theorem params_coded_sweep :
    ∃ band, LatitudeBand.ofPair 61.0 59.0 = .ok band ∧
      ShadowParams.decode 4 (.list [.real 120.5, .real 30.0,
        .record [("FastSweep", .text "Bounded")], .list [.real 59.0, .real 61.0], .whole 3]) =
          .ok ⟨120.5, 30.0, .fastSweep .bounded, some band, 3⟩ ∧
      ShadowParams.decode 4 (.record [("mercator", .list [.whole 61, .real 59.0]),
        ("comment", .null), ("azimuth", .whole 120)]) = .ok ⟨120.0, 45.0, .exact, some band, 4⟩ ∧
      (∃ e, ShadowParams.decode 4 (.record [("azimuth", .real 1.0),
        ("algorithm", .record [("Exact", .null), ("FastSweep", .text "Bounded")])]) = .error e) ∧
      (∃ e, OpennessParams.decode 4 (.record [("stride", .real 5.0)]) = .error e) ∧
      (∃ e, OpennessParams.decode 4 (.record [("stride", .whole 5), ("stride", .whole 5)]) =
        .error e) ∧
      ∃ e, OpennessParams.decode 4 (.record [("mercator", .list [.whole 10, .real 10.0])]) =
        .error e := by
  let band : LatitudeBand :=
    ⟨59.0, 61.0, by decide +kernel, by decide +kernel, by decide +kernel⟩
  obtain ⟨-, hshadow, hopenness⟩ := params_coded 4
  refine ⟨band, by decide +kernel, ?_, ?_, ?_, ?_, ?_, ?_⟩
  · exact hshadow.of_list ⟨120.5, 30.0, .fastSweep .bounded, some band, 3⟩ (by decide)
  · refine (hshadow.decode_iff _ _).2 ⟨by decide, ?_, rfl, rfl, ?_, rfl⟩
    · exact congrArg Except.ok (by decide +kernel : Float.ofInt 120 = 120.0)
    · change toOption LatitudeBand.decode (.list [.whole 61, .real 59.0]) = .ok (some band)
      decide +kernel
  · rw [hshadow.fails_iff]
    rintro ⟨-, h⟩
    let labels : Document := .record [("Exact", .null), ("FastSweep", .text "Bounded")]
    obtain ⟨m, hm⟩ := h.method labels (by simp [labels])
    cases m with
    | exact =>
      rcases hm with hm | hm
      · simp [labels] at hm
      · simp [labels] at hm
    | fastSweep e =>
      obtain ⟨edges, hm, -⟩ := hm
      simp [labels] at hm
  · rw [hopenness.fails_iff]
    rintro ⟨-, h⟩
    obtain ⟨n, hn, -⟩ := h.stride (.real 5.0) (by simp)
    cases hn
  · rw [hopenness.fails_iff]
    rintro ⟨honce, -⟩
    exact absurd (honce "stride" (by simp)) (by decide)
  · rw [hopenness.fails_iff]
    rintro ⟨-, h⟩
    rcases h.mercator (.list [.whole 10, .real 10.0]) (by simp) with hnull | hpair
    · cases hnull
    · obtain ⟨d1, d2, lat1, lat2, hd, h1, h2, hbounding⟩ := hpair
      cases hd
      cases h1
      cases h2
      exact absurd hbounding.differ (by decide +kernel)

end Document

end Relief
