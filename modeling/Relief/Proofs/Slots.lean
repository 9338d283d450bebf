import Relief.Document.Coding
import Relief.Proofs.Document

namespace Relief

open Document

theorem forall_mem_five {α : Type*} {P : α → Prop} {a b c d e : α} :
    (∀ x ∈ [a, b, c, d, e], P x) ↔ P a ∧ P b ∧ P c ∧ P d ∧ P e := by
  simp only [List.forall_mem_cons, List.not_mem_nil, false_implies, implies_true, and_true]

namespace ShadowParams

def slots : List (Slot ShadowParams) :=
  [⟨"azimuth", Float, toReal, azimuth, fun x p => { p with azimuth := x }⟩,
    ⟨"elevation", Float, toReal, elevation, fun x p => { p with elevation := x }⟩,
    ⟨"algorithm", ShadowMethod, ShadowMethod.decode, method, fun m p => { p with method := m }⟩,
    ⟨"mercator", Option LatitudeBand, toOption LatitudeBand.decode, mercator,
      fun band p => { p with mercator := band }⟩,
    ⟨"workers", ℕ, toCount, ShadowParams.workers, fun n p => { p with workers := n }⟩]

theorem consists : Consists slots setField where
  set_slot := by
    simp only [slots, forall_mem_five]
    exact ⟨fun _ _ => rfl, fun _ _ => rfl, fun _ _ => rfl, fun _ _ => rfl, fun _ _ => rfl⟩
  set_unknown := by
    intro name hname d p
    simp only [slots, List.map_cons, List.map_nil, List.mem_cons, List.not_mem_nil, or_false,
      not_or] at hname
    obtain ⟨h1, h2, h3, h4, h5⟩ := hname
    rw [setField.eq_def]
    split
    case h_6 => rfl
    all_goals contradiction
  get_put := by simp [slots]
  get_put_of_ne := by simp [slots]
  ext p q h := by
    simp only [slots, forall_mem_five] at h
    obtain ⟨h1, h2, h3, h4, h5⟩ := h
    cases p
    cases q
    simp_all

end ShadowParams

namespace OpennessParams

def slots : List (Slot OpennessParams) :=
  [⟨"directions", ℕ, toCount, directions, fun n p => { p with directions := n }⟩,
    ⟨"stride", ℕ, toCount, stride, fun n p => { p with stride := n }⟩,
    ⟨"max_distance", ℕ, toCount, maxDistance, fun n p => { p with maxDistance := n }⟩,
    ⟨"mercator", Option LatitudeBand, toOption LatitudeBand.decode, mercator,
      fun band p => { p with mercator := band }⟩,
    ⟨"workers", ℕ, toCount, OpennessParams.workers, fun n p => { p with workers := n }⟩]

theorem consists : Consists slots setField where
  set_slot := by
    simp only [slots, forall_mem_five]
    exact ⟨fun _ _ => rfl, fun _ _ => rfl, fun _ _ => rfl, fun _ _ => rfl, fun _ _ => rfl⟩
  set_unknown := by
    intro name hname d p
    simp only [slots, List.map_cons, List.map_nil, List.mem_cons, List.not_mem_nil, or_false,
      not_or] at hname
    obtain ⟨h1, h2, h3, h4, h5⟩ := hname
    rw [setField.eq_def]
    split
    case h_6 => rfl
    all_goals contradiction
  get_put := by simp [slots]
  get_put_of_ne := by simp [slots]
  ext p q h := by
    simp only [slots, forall_mem_five] at h
    obtain ⟨h1, h2, h3, h4, h5⟩ := h
    cases p
    cases q
    simp_all

end OpennessParams

end Relief
