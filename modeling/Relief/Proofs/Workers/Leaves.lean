import Mathlib
import Relief.WorkerPool

namespace Relief

/-- Output buffers that are told by the arrays that they pair. -/
class LawfulBuffers (ω : Type) [Buffers ω] where
  Leaf : Type
  Item : Leaf → Type
  leaf (l : Leaf) : ω → Array (Item l)
  ext {a b : ω} (h : ∀ l, leaf l a = leaf l b) : a = b
  isSome_cut (n : ℕ) (a : ω) : (Buffers.cut n a).isSome ↔ ∀ l, n ≤ (leaf l a).size
  leaf_cut {n : ℕ} {a b c : ω} (h : Buffers.cut n a = some (b, c)) (l : Leaf) :
    leaf l b = (leaf l a).extract 0 n ∧ leaf l c = (leaf l a).extract n (leaf l a).size
  leaf_join (a b : ω) (l : Leaf) : leaf l (Buffers.join a b) = leaf l a ++ leaf l b

theorem cut_array {τ : Type} (n : ℕ) (a : Array τ) : Buffers.cut n a =
    if n ≤ a.size then some (a.extract 0 n, a.extract n a.size) else none :=
  rfl

instance lawfulArray {τ : Type} : LawfulBuffers (Array τ) where
  Leaf := Unit
  Item _ := τ
  leaf _ a := a
  ext h := h ()
  isSome_cut n a := by
    rw [cut_array]
    split_ifs with h
    · exact iff_of_true rfl fun _ => h
    · exact iff_of_false Bool.false_ne_true fun hc => h (hc ())
  leaf_cut {n a b c} h _ := by
    rw [cut_array] at h
    split_ifs at h
    obtain ⟨rfl, rfl⟩ := Prod.mk.inj (Option.some.inj h)
    exact ⟨rfl, rfl⟩
  leaf_join _ _ _ := rfl

theorem cut_prod_eq_some {ω ξ : Type} [Buffers ω] [Buffers ξ] {n : ℕ} {a b c : ω × ξ} :
    Buffers.cut n a = some (b, c) ↔
      Buffers.cut n a.1 = some (b.1, c.1) ∧ Buffers.cut n a.2 = some (b.2, c.2) := by
  obtain ⟨b₁, b₂⟩ := b
  obtain ⟨c₁, c₂⟩ := c
  change ((Buffers.cut n a.1).bind fun p => (Buffers.cut n a.2).bind fun q =>
    some ((p.1, q.1), (p.2, q.2))) = _ ↔ _
  cases Buffers.cut n a.1 with
  | none => simp
  | some p =>
    cases Buffers.cut n a.2 with
    | none => simp
    | some q =>
      simp only [Option.bind_some, Option.some.injEq, Prod.ext_iff]
      tauto

theorem isSome_cut_prod {ω ξ : Type} [Buffers ω] [Buffers ξ] {n : ℕ} {a : ω × ξ} :
    (Buffers.cut n a).isSome ↔ (Buffers.cut n a.1).isSome ∧ (Buffers.cut n a.2).isSome := by
  simp only [Option.isSome_iff_exists]
  constructor
  · rintro ⟨⟨b, c⟩, h⟩
    obtain ⟨h₁, h₂⟩ := cut_prod_eq_some.1 h
    exact ⟨⟨_, h₁⟩, _, h₂⟩
  · rintro ⟨⟨p, h₁⟩, q, h₂⟩
    exact ⟨((p.1, q.1), (p.2, q.2)), cut_prod_eq_some.2 ⟨h₁, h₂⟩⟩

instance lawfulPair {ω ξ : Type} [Buffers ω] [Buffers ξ] [LawfulBuffers ω] [LawfulBuffers ξ] :
    LawfulBuffers (ω × ξ) where
  Leaf := LawfulBuffers.Leaf ω ⊕ LawfulBuffers.Leaf ξ
  Item := Sum.elim LawfulBuffers.Item LawfulBuffers.Item
  leaf
    | .inl l, a => LawfulBuffers.leaf l a.1
    | .inr l, a => LawfulBuffers.leaf l a.2
  ext h := Prod.ext (LawfulBuffers.ext fun l => h (.inl l)) (LawfulBuffers.ext fun l => h (.inr l))
  isSome_cut n a := by
    rw [isSome_cut_prod, LawfulBuffers.isSome_cut, LawfulBuffers.isSome_cut, Sum.forall]
    exact Iff.rfl
  leaf_cut h
    | .inl l => LawfulBuffers.leaf_cut (cut_prod_eq_some.1 h).1 l
    | .inr l => LawfulBuffers.leaf_cut (cut_prod_eq_some.1 h).2 l
  leaf_join a b
    | .inl l => LawfulBuffers.leaf_join a.1 b.1 l
    | .inr l => LawfulBuffers.leaf_join a.2 b.2 l

end Relief
