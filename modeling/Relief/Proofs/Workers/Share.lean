import Relief.Proofs.RowBlock
import Relief.Proofs.Workers.Leaves

namespace Relief.WorkerPool

open LawfulBuffers RowBlock

variable {ω : Type} [Buffers ω] [LawfulBuffers ω] {blocks : List RowBlock} {block : RowBlock}
  {cols a b : ℕ} {outputs whole rest left : ω} {shares : List (RowBlock × ω)}

/-- In every leaf, `part` holds the cells of `whole` from `lo` up to `hi`. -/
def IsPart (whole : ω) (lo hi : ℕ) (part : ω) : Prop :=
  ∀ l : Leaf ω, leaf l part = (leaf l whole).extract lo hi

def Fits (cols : ℕ) (block : RowBlock) (part : ω) : Prop :=
  ∀ l : Leaf ω, (leaf l part).size = block.size * cols

omit [LawfulBuffers ω] in
theorem share_cons_eq_some (h : block.size * cols < wordValues) :
    share cols (block :: blocks) outputs = some (shares, left) ↔
      ∃ part rest shares', Buffers.cut (block.size * cols) outputs = some (part, rest) ∧
        share cols blocks rest = some (shares', left) ∧ shares = (block, part) :: shares' := by
  have hw : Shape.wordSize ⟨block.size, cols⟩ = block.size * cols := Nat.mod_eq_of_lt h
  change ((Buffers.cut (Shape.wordSize ⟨block.size, cols⟩) outputs).bind fun p =>
    (share cols blocks p.2).bind fun q => some ((block, p.1) :: q.1, q.2)) = _ ↔ _
  rw [hw]
  simp only [Option.bind_eq_some_iff, Prod.exists, Option.some.injEq, Prod.mk.injEq]
  constructor
  · rintro ⟨part, rest, hc, shares', left, hs, rfl, rfl⟩
    exact ⟨part, rest, shares', hc, hs, rfl⟩
  · rintro ⟨part, rest, shares', hc, hs, rfl⟩
    exact ⟨part, rest, hc, shares', left, hs, rfl, rfl⟩

theorem rows_eq_add (hle : block.start ≤ block.stop) (hb : block.stop ≤ b) (cols : ℕ) :
    (b - block.start) * cols = block.size * cols + (b - block.stop) * cols := by
  rw [← Nat.add_mul]
  congr 1
  rw [RowBlock.size]
  omega

theorem isSome_share_iff (h : Consecutive blocks a b) (hword : (b - a) * cols < wordValues)
    (outputs : ω) :
    (share cols blocks outputs).isSome ↔ ∀ l : Leaf ω, (b - a) * cols ≤ (leaf l outputs).size := by
  induction h generalizing outputs with
  | nil a =>
    refine iff_of_true rfl fun l => ?_
    rw [Nat.sub_self, Nat.zero_mul]
    exact Nat.zero_le _
  | @cons block blocks b hle h ih =>
    rw [rows_eq_add hle h.le] at hword ⊢
    have hrest {part rest : ω} (hc : Buffers.cut (block.size * cols) outputs = some (part, rest)) :
        (share cols blocks rest).isSome ↔ ∀ l : Leaf ω,
          (b - block.stop) * cols ≤ (leaf l outputs).size - block.size * cols := by
      rw [ih (by omega)]
      refine forall_congr' fun l => ?_
      rw [(leaf_cut hc l).2, Array.size_extract, Nat.min_self]
    constructor
    · intro hs l
      obtain ⟨⟨shares, left⟩, hs⟩ := Option.isSome_iff_exists.1 hs
      obtain ⟨part, rest, shares', hc, hs', -⟩ := (share_cons_eq_some (by omega)).1 hs
      have hcut := (isSome_cut _ outputs).1 (Option.isSome_of_eq_some hc) l
      have hle' := (hrest hc).1 (Option.isSome_of_eq_some hs') l
      omega
    · intro hlen
      have hcut : (Buffers.cut (block.size * cols) outputs).isSome :=
        (isSome_cut _ _).2 fun l => by have := hlen l; omega
      obtain ⟨⟨part, rest⟩, hc⟩ := Option.isSome_iff_exists.1 hcut
      have hs := (hrest hc).2 fun l => by have := hlen l; omega
      obtain ⟨⟨shares', left⟩, hs'⟩ := Option.isSome_iff_exists.1 hs
      exact Option.isSome_iff_exists.2
        ⟨_, (share_cons_eq_some (by omega)).2 ⟨part, rest, shares', hc, hs', rfl⟩⟩

theorem extract_min_size {τ : Type} (x : Array τ) (i j : ℕ) :
    x.extract i (min j x.size) = x.extract i j := by
  apply Array.ext_getElem?
  intro k
  rw [Array.getElem?_extract, Array.getElem?_extract, min_assoc, Nat.min_self]

/-- What the whole has from row `a` on is dealt out as the rows of the blocks, up to row `b`. -/
theorem share_parts (h : Consecutive blocks a b) (hword : (b - a) * cols < wordValues)
    (hrest : ∀ l : Leaf ω, leaf l rest = (leaf l whole).extract (a * cols) (leaf l whole).size)
    (hs : share cols blocks rest = some (shares, left)) :
    shares.map (·.1) = blocks ∧
      (∀ s ∈ shares, IsPart whole (s.1.start * cols) (s.1.stop * cols) s.2 ∧ Fits cols s.1 s.2) ∧
      ∀ l : Leaf ω, leaf l left = (leaf l whole).extract (b * cols) (leaf l whole).size := by
  induction h generalizing rest shares with
  | nil a =>
    obtain ⟨rfl, rfl⟩ := Prod.mk.inj (Option.some.inj hs)
    exact ⟨rfl, fun s hm => (by cases hm), hrest⟩
  | @cons block blocks b hle h ih =>
    -- the cut is at the block's last row, so what is left is the whole from the next block on
    rw [rows_eq_add hle h.le] at hword
    obtain ⟨part, rest', shares', hc, hs', rfl⟩ := (share_cons_eq_some (by omega)).1 hs
    have hstop : block.start * cols + block.size * cols = block.stop * cols := by
      rw [← Nat.add_mul, RowBlock.size, Nat.add_sub_cancel' hle]
    have hrest' (l : Leaf ω) :
        leaf l rest' = (leaf l whole).extract (block.stop * cols) (leaf l whole).size := by
      rw [(leaf_cut hc l).2, hrest l, Array.extract_extract, Array.size_extract, hstop]
      congr 1
      omega
    have hpart : IsPart whole (block.start * cols) (block.stop * cols) part := by
      intro l
      rw [(leaf_cut hc l).1, hrest l, Array.extract_extract, hstop, Nat.add_zero,
        extract_min_size]
    have hfits : Fits cols block part := by
      intro l
      have hlen := (isSome_cut _ rest).1 (Option.isSome_of_eq_some hc) l
      rw [(leaf_cut hc l).1, Array.size_extract]
      omega
    obtain ⟨hmap, hparts, hleft⟩ := ih (by omega) hrest' hs'
    refine ⟨congrArg _ hmap, ?_, hleft⟩
    intro s hm
    rcases List.mem_cons.1 hm with rfl | hm
    · exact ⟨hpart, hfits⟩
    · exact hparts s hm

theorem share_outputs {rows : ℕ} (h : Consecutive blocks 0 rows) (hword : rows * cols < wordValues)
    (hs : share cols blocks outputs = some (shares, left)) :
    shares.map (·.1) = blocks ∧
      (∀ s ∈ shares, IsPart outputs (s.1.start * cols) (s.1.stop * cols) s.2 ∧ Fits cols s.1 s.2) ∧
      ∀ l : Leaf ω, leaf l left = (leaf l outputs).extract (rows * cols) (leaf l outputs).size :=
  share_parts h hword (fun l => by simp) hs

theorem exists_share {rows : ℕ} (h : Consecutive blocks 0 rows) (hword : rows * cols < wordValues)
    (hlen : ∀ l : Leaf ω, rows * cols ≤ (leaf l outputs).size) :
    ∃ shares left, share cols blocks outputs = some (shares, left) := by
  obtain ⟨⟨shares, left⟩, hs⟩ :=
    Option.isSome_iff_exists.1 ((isSome_share_iff h hword outputs).2 hlen)
  exact ⟨shares, left, hs⟩

theorem extract_append_of_size {τ : Type} {x y : Array τ} {n : ℕ} (h : x.size = n) (i j : ℕ) :
    (x ++ y).extract 0 n = x ∧ (x ++ y).extract (n + i) (n + j) = y.extract i j := by
  subst h
  rw [Array.extract_append, Array.extract_append]
  simp

theorem join_parts (h : Consecutive (shares.map (·.1)) a b)
    (hfits : ∀ s ∈ shares, Fits cols s.1 s.2) (left : ω) (l : Leaf ω) :
    let joined := (shares.map (·.2)).foldr Buffers.join left
    (leaf l joined).size = (b - a) * cols + (leaf l left).size ∧
      (∀ s ∈ shares, leaf l s.2 =
        (leaf l joined).extract ((s.1.start - a) * cols) ((s.1.stop - a) * cols)) ∧
      leaf l left = (leaf l joined).extract ((b - a) * cols) (leaf l joined).size := by
  induction shares generalizing a with
  | nil =>
    cases h
    simp
  | cons s shares ih =>
    rw [List.map_cons] at h
    cases h with
    | cons hle h =>
      obtain ⟨hsize, hparts, hleft⟩ := ih h fun s hm => hfits s (List.mem_cons_of_mem _ hm)
      have hpart : (leaf l s.2).size = s.1.size * cols := hfits s List.mem_cons_self l
      have hjoin : leaf l (((s :: shares).map (·.2)).foldr Buffers.join left) =
          leaf l s.2 ++ leaf l ((shares.map (·.2)).foldr Buffers.join left) := leaf_join _ _ l
      have hextract := extract_append_of_size
        (y := leaf l ((shares.map (·.2)).foldr Buffers.join left)) hpart
      intro joined
      rw [show leaf l joined = _ from hjoin, Array.size_append, hpart, hsize,
        rows_eq_add hle h.le]
      refine ⟨(Nat.add_assoc _ _ _).symm, ?_, ?_⟩
      · intro t hm
        rcases List.mem_cons.1 hm with rfl | hm
        · rw [Nat.sub_self, Nat.zero_mul]
          exact (hextract 0 0).1.symm
        · have hb := h.mem_bounds (List.mem_map_of_mem hm)
          rw [rows_eq_add hle hb.1, rows_eq_add hle (hb.1.trans hb.2.1), (hextract _ _).2]
          exact hparts t hm
      · rw [(hextract _ _).2, ← hsize]
        exact hleft

end Relief.WorkerPool
