import Mathlib
import Relief.Document

namespace Relief

theorem exists_of_bind_ok {ε α β : Type} {x : Except ε α} {f : α → Except ε β} {b : β}
    (h : x >>= f = .ok b) : ∃ a, x = .ok a ∧ f a = .ok b := by
  cases x with
  | error e => cases h
  | ok a => exact ⟨a, rfl, h⟩

theorem exists_error_iff {ε α : Type} {x : Except ε α} :
    (∃ e, x = .error e) ↔ ¬ ∃ a, x = .ok a := by
  cases x with
  | error e => exact iff_of_true ⟨e, rfl⟩ fun ⟨_, h⟩ => by cases h
  | ok a => exact iff_of_false (fun ⟨_, h⟩ => by cases h) fun h => h ⟨a, rfl⟩

section Fold

variable {ε β γ : Type} {f : β → γ → Except ε β} {l : List γ} {b b' : β}

theorem exists_of_mem_foldlM (h : l.foldlM f b = .ok b') {c : γ} (hc : c ∈ l) :
    ∃ a a', f a c = .ok a' := by
  induction l generalizing b with
  | nil => cases hc
  | cons d l ih =>
    rw [List.foldlM_cons] at h
    obtain ⟨a, ha, h⟩ := exists_of_bind_ok h
    cases hc with
    | head => exact ⟨b, a, ha⟩
    | tail _ hc => exact ih h hc

theorem exists_foldlM_ok (hstep : ∀ c ∈ l, ∀ a, ∃ a', f a c = .ok a') (b : β) :
    ∃ b', l.foldlM f b = .ok b' := by
  induction l generalizing b with
  | nil => exact ⟨b, rfl⟩
  | cons c l ih =>
    obtain ⟨a, ha⟩ := hstep c List.mem_cons_self b
    obtain ⟨b', hb'⟩ := ih (fun d hd => hstep d (List.mem_cons_of_mem c hd)) a
    refine ⟨b', ?_⟩
    rw [List.foldlM_cons, ha]
    exact hb'

end Fold

namespace Document

def timesGiven (given : List (String × Document)) (name : String) : ℕ :=
  (given.map Prod.fst).count name

/-- No field of a record that has one of the names is given twice. -/
@[reducible]
def GivenOnce (names : List String) (given : List (String × Document)) : Prop :=
  ∀ name ∈ names, timesGiven given name ≤ 1

theorem timesGiven_cons (field : String × Document) (given : List (String × Document))
    (name : String) : timesGiven (field :: given) name =
      timesGiven given name + if field.1 = name then 1 else 0 := by
  simp only [timesGiven, List.map_cons, List.count_cons, beq_iff_eq]

theorem givenOnce_of_nodup {given : List (String × Document)} (h : (given.map Prod.fst).Nodup)
    (names : List String) : GivenOnce names given :=
  fun name _ => List.nodup_iff_count_le_one.1 h name

section Override

variable {β : Type} {names seen : List String}
  {set : String → Document → β → Except Refusal β} {given : List (String × Document)} {base b : β}
  {d : Document}

theorem setAll_eq_ok_iff : setAll names set seen given base = .ok b ↔
    (∀ name ∈ names, timesGiven given name + (if name ∈ seen then 1 else 0) ≤ 1) ∧
      given.foldlM (fun a field => set field.1 field.2 a) base = .ok b := by
  induction given generalizing seen base with
  | nil =>
    refine (and_iff_right ?_).symm
    intro name _
    rw [timesGiven, List.map_nil, List.count_nil]
    split_ifs
    · decide
    · decide
  | cons field given ih =>
    obtain ⟨name, d⟩ := field
    rw [setAll]
    split_ifs with hagain
    · refine iff_of_false nofun fun h => ?_
      have htwice := h.1 name hagain.1
      rw [timesGiven_cons, if_pos rfl, if_pos hagain.2] at htwice
      omega
    · -- From here on the name is among those seen; so far it has been among those to come.
      have hseen : (∀ other ∈ names, timesGiven ((name, d) :: given) other +
            (if other ∈ seen then 1 else 0) ≤ 1) ↔
          ∀ other ∈ names, timesGiven given other +
            (if other ∈ name :: seen then 1 else 0) ≤ 1 := by
        refine forall₂_congr fun other hother => ?_
        rw [timesGiven_cons]
        by_cases hname : name = other
        · subst hname
          rw [if_pos List.mem_cons_self, if_pos rfl, if_neg fun hseen => hagain ⟨hother, hseen⟩]
        · simp only [List.mem_cons, Ne.symm hname, hname, false_or, if_false, add_zero]
      rw [List.foldlM_cons, hseen]
      cases set name d base with
      | error e => exact iff_of_false nofun fun h => nomatch h.2
      | ok a => exact ih

theorem override_record : (record given).override names set base = .ok b ↔
    GivenOnce names given ∧ given.foldlM (fun a field => set field.1 field.2 a) base = .ok b := by
  rw [override, setAll_eq_ok_iff]
  simp only [List.not_mem_nil, if_false, add_zero, GivenOnce]

theorem fieldsGiven_of_override (h : d.override names set base = .ok b) :
    GivenOnce names (d.fieldsGiven names) ∧
      (d.fieldsGiven names).foldlM (fun a field => set field.1 field.2 a) base = .ok b := by
  cases d with
  | record given => exact override_record.1 h
  | list items =>
    obtain ⟨a, ha, h⟩ := exists_of_bind_ok h
    split_ifs at h
    cases h
    exact override_record.1 ha
  | _ => cases h

/-- The items of a list stand for the fields of a record in the order of the names. -/
theorem override_list (fields : List (String × Document)) (base : β) :
    (list (fields.map Prod.snd)).override (fields.map Prod.fst) set base =
      (record fields).override (fields.map Prod.fst) set base := by
  have hzip : (fields.map Prod.fst).zip (fields.map Prod.snd) = fields := by
    rw [← List.unzip_fst, ← List.unzip_snd, List.zip_unzip]
  simp only [override]
  rw [hzip]
  simp only [List.length_map, lt_irrefl, if_false]
  exact bind_pure _

end Override

section Records

variable {π γ : Type}

def fieldOr (given : List (String × Document)) (name : String)
    (read : Document → Except Refusal γ) (standard : γ) : Except Refusal γ :=
  match given.lookup name with
  | some d => read d
  | none => .ok standard

theorem lookup_of_mem {given : List (String × Document)} {name : String} {d : Document}
    (honce : timesGiven given name ≤ 1) (hfield : (name, d) ∈ given) :
    given.lookup name = some d := by
  induction given with
  | nil => cases hfield
  | cons field given ih =>
    rw [timesGiven_cons] at honce
    cases hfield with
    | head => rw [List.lookup_cons, beq_self_eq_true]
    | tail _ hfield =>
      have hpos : 0 < timesGiven given name :=
        List.count_pos_iff.2 (List.mem_map_of_mem (f := Prod.fst) hfield)
      have hne : field.1 ≠ name := by
        intro hname
        rw [if_pos hname] at honce
        omega
      rw [List.lookup_cons, beq_false_of_ne hne.symm]
      exact ih (by omega) hfield

theorem lookup_of_timesGiven {given : List (String × Document)} {name : String}
    (h : timesGiven given name = 0) : given.lookup name = none := by
  rw [List.lookup_eq_none_iff]
  intro field hfield
  rw [bne_iff_ne]
  rintro rfl
  exact List.count_eq_zero.1 h (List.mem_map_of_mem hfield)

/-- A field of some parameters: how it is read, and where they keep it. -/
structure Slot (π : Type) where
  name : String
  Value : Type
  read : Document → Except Refusal Value
  get : π → Value
  put : Value → π → π

/-- Parameters that consist of slots, each of which `set` fills as it is read. -/
structure Consists (slots : List (Slot π)) (set : String → Document → π → Except Refusal π) :
    Prop where
  set_slot : ∀ s ∈ slots, ∀ d p, set s.name d p = (s.put · p) <$> s.read d
  set_unknown : ∀ name ∉ slots.map Slot.name, ∀ d p, set name d p = .ok p
  get_put : ∀ s ∈ slots, ∀ v p, s.get (s.put v p) = v
  get_put_of_ne : ∀ s ∈ slots, ∀ t ∈ slots, t.name ≠ s.name → ∀ v p, s.get (t.put v p) = s.get p
  ext : ∀ p q, (∀ s ∈ slots, s.get p = s.get q) → p = q

variable {slots : List (Slot π)} {set : String → Document → π → Except Refusal π} {s : Slot π}
  {name : String} {d : Document} {p q base : π} {given : List (String × Document)}

namespace Consists

theorem read_of_set (h : Consists slots set) (hs : s ∈ slots) (hset : set s.name d p = .ok q) :
    s.read d = .ok (s.get q) := by
  rw [h.set_slot s hs] at hset
  obtain ⟨v, hv, hset⟩ := exists_of_bind_ok hset
  cases hset
  rw [hv, h.get_put s hs]

theorem get_of_set (h : Consists slots set) (hs : s ∈ slots) (hname : name ≠ s.name)
    (hset : set name d p = .ok q) : s.get q = s.get p := by
  by_cases hknown : name ∈ slots.map Slot.name
  · obtain ⟨t, ht, rfl⟩ := List.mem_map.1 hknown
    rw [h.set_slot t ht] at hset
    obtain ⟨v, -, hset⟩ := exists_of_bind_ok hset
    cases hset
    exact h.get_put_of_ne s hs t ht hname v p
  · rw [h.set_unknown name hknown] at hset
    cases hset
    rfl

theorem fieldOr_of_foldlM (h : Consists slots set) (hs : s ∈ slots)
    (honce : timesGiven given s.name ≤ 1)
    (hread : given.foldlM (fun a field => set field.1 field.2 a) base = .ok p) :
    fieldOr given s.name s.read (s.get base) = .ok (s.get p) := by
  induction given generalizing base with
  | nil =>
    cases hread
    rfl
  | cons field given ih =>
    obtain ⟨name, d⟩ := field
    rw [List.foldlM_cons] at hread
    obtain ⟨q, hq, hrest⟩ := exists_of_bind_ok hread
    rw [timesGiven_cons] at honce
    by_cases hname : name = s.name
    · subst hname
      rw [if_pos rfl] at honce
      -- No later field has this name, so what it sets is kept.
      have hnone : timesGiven given s.name = 0 := by omega
      have hrest := ih (by omega) hrest
      rw [fieldOr, lookup_of_timesGiven hnone] at hrest
      rw [fieldOr, List.lookup_cons, beq_self_eq_true, ← Except.ok.inj hrest]
      exact h.read_of_set hs hq
    · rw [if_neg hname] at honce
      rw [fieldOr, List.lookup_cons, beq_false_of_ne (Ne.symm hname),
        ← h.get_of_set hs hname hq]
      exact ih honce hrest

theorem fieldOr_of_override (h : Consists slots set) (hs : s ∈ slots)
    (hread : d.override (slots.map Slot.name) set base = .ok p) :
    fieldOr (d.fieldsGiven (slots.map Slot.name)) s.name s.read (s.get base) =
      .ok (s.get p) := by
  obtain ⟨honce, hread⟩ := fieldsGiven_of_override hread
  exact h.fieldOr_of_foldlM hs (honce s.name (List.mem_map_of_mem hs)) hread

theorem exists_foldlM_iff (h : Consists slots set) :
    (∃ p, given.foldlM (fun a field => set field.1 field.2 a) base = .ok p) ↔
      ∀ s ∈ slots, ∀ d, (s.name, d) ∈ given → ∃ v, s.read d = .ok v := by
  constructor
  · rintro ⟨p, hp⟩ s hs d hfield
    obtain ⟨q, q', hset⟩ := exists_of_mem_foldlM hp hfield
    exact ⟨_, h.read_of_set hs hset⟩
  · intro hread
    apply exists_foldlM_ok
    rintro ⟨name, d⟩ hfield q
    by_cases hknown : name ∈ slots.map Slot.name
    · obtain ⟨s, hs, rfl⟩ := List.mem_map.1 hknown
      obtain ⟨v, hv⟩ := hread s hs d hfield
      refine ⟨s.put v q, ?_⟩
      rw [h.set_slot s hs, hv]
      rfl
    · exact ⟨q, h.set_unknown name hknown d q⟩

/-- A record is read if each of its fields is, and none of the slots is given twice. -/
theorem exists_override_iff (h : Consists slots set) :
    (∃ p, (record given).override (slots.map Slot.name) set base = .ok p) ↔
      GivenOnce (slots.map Slot.name) given ∧
        ∀ s ∈ slots, ∀ d, (s.name, d) ∈ given → ∃ v, s.read d = .ok v := by
  simp only [override_record, exists_and_left, h.exists_foldlM_iff]

theorem override_eq_ok_iff (h : Consists slots set) :
    (record given).override (slots.map Slot.name) set base = .ok p ↔
      GivenOnce (slots.map Slot.name) given ∧
        ∀ s ∈ slots, fieldOr given s.name s.read (s.get base) = .ok (s.get p) := by
  constructor
  · intro hread
    exact ⟨(override_record.1 hread).1, fun s hs => h.fieldOr_of_override hs hread⟩
  · rintro ⟨honce, hfields⟩
    have hread : ∀ s ∈ slots, ∀ d, (s.name, d) ∈ given → ∃ v, s.read d = .ok v := by
      intro s hs d hfield
      have hs' := hfields s hs
      rw [fieldOr, lookup_of_mem (honce s.name (List.mem_map_of_mem hs)) hfield] at hs'
      exact ⟨_, hs'⟩
    obtain ⟨q, hq⟩ : ∃ q, (record given).override (slots.map Slot.name) set base = .ok q :=
      h.exists_override_iff.2 ⟨honce, hread⟩
    have hqp : q = p := by
      apply h.ext
      intro s hs
      have hs' := h.fieldOr_of_override hs hq
      exact Except.ok.inj (hs'.symm.trans (hfields s hs))
    rw [hq, hqp]

end Consists

end Records

end Document

end Relief
