import Relief.Proofs.Workers.Share

namespace Relief.WorkerPool

open LawfulBuffers RowBlock

section Splice

variable {τ : Type} {x y z : Array τ} {lo hi i j : ℕ}

theorem getElem?_splice (hle : lo ≤ hi) (hlen : hi ≤ x.size) (hy : y.size = hi - lo) (k : ℕ) :
    (x.extract 0 lo ++ (y ++ x.extract hi x.size))[k]? =
      if lo ≤ k ∧ k < hi then y[k - lo]? else x[k]? := by
  have hlo : (x.extract 0 lo).size = lo := by
    rw [Array.size_extract]
    omega
  rw [Array.getElem?_append, Array.getElem?_append, hlo, hy]
  split_ifs with h₁ h₂ h₂ h₃ h₄
  · omega
  · rw [Array.getElem?_extract, if_pos (by omega), Nat.zero_add]
  · rfl
  · omega
  · omega
  · rw [Array.getElem?_extract]
    split_ifs with h₄
    · congr 1
      omega
    · rw [Array.getElem?_eq_none (by omega)]

theorem extract_congr (h : ∀ k, i ≤ k → k < j → z[k]? = x[k]?) (hsize : z.size = x.size) :
    z.extract i j = x.extract i j := by
  apply Array.ext_getElem?
  intro k
  rw [Array.getElem?_extract, Array.getElem?_extract, hsize]
  split_ifs with hk
  · exact h _ (by omega) (by omega)
  · rfl

theorem extract_splice (hle : lo ≤ hi) (hlen : hi ≤ x.size) (hy : y.size = hi - lo) :
    (x.extract 0 lo ++ (y ++ x.extract hi x.size)).extract lo hi = y := by
  have hlo : (x.extract 0 lo).size = lo := by
    rw [Array.size_extract]
    omega
  have h := (extract_append_of_size (y := y ++ x.extract hi x.size) hlo 0 (hi - lo)).2
  rw [Nat.add_zero, Nat.add_sub_cancel' hle] at h
  rw [h]
  exact (extract_append_of_size hy 0 0).1

theorem getElem?_extract_sub {n : ℕ} (h : n ≤ i) :
    (x.extract n x.size)[i - n]? = x[i]? := by
  rw [Array.getElem?_extract, Nat.add_sub_cancel' h]
  split_ifs with hi
  · rfl
  · rw [Array.getElem?_eq_none (by omega)]

end Splice

variable {ω : Type} [Buffers ω] [LawfulBuffers ω] {blocks : List RowBlock} {block : RowBlock}
  {cols rows lo hi : ℕ} {outputs whole part : ω} {shape : Shape} {work : RowBlock → ω → ω}
  {writes : List (RowBlock × (ω → ω))}

theorem IsPart.getElem? (h : IsPart whole lo hi part) (l : Leaf ω) {i : ℕ} (hlo : lo ≤ i)
    (hhi : i < hi) : (leaf l whole)[i]? = (leaf l part)[i - lo]? := by
  rw [h l, Array.getElem?_extract, Nat.add_sub_cancel' hlo]
  split_ifs with hi
  · rfl
  · rw [Array.getElem?_eq_none (by omega)]

theorem IsPart.unique {other : ω} (h : IsPart whole lo hi part) (h' : IsPart whole lo hi other) :
    part = other :=
  LawfulBuffers.ext fun l => (h l).trans (h' l).symm

theorem IsPart.fits (h : IsPart whole (block.start * cols) (block.stop * cols) part)
    (hlen : ∀ l : Leaf ω, block.stop * cols ≤ (leaf l whole).size) : Fits cols block part := by
  intro l
  rw [h l, Array.size_extract, Nat.min_eq_left (hlen l), RowBlock.size, Nat.sub_mul]

/-- Works on the cells from `lo` up to `hi` of every leaf and leaves the others as they are. -/
def onPart (lo hi : ℕ) (f : ω → ω) (outputs : ω) : Option ω :=
  (Buffers.cut lo outputs).bind fun p =>
    (Buffers.cut (hi - lo) p.2).map fun q => Buffers.join p.1 (Buffers.join (f q.1) q.2)

def perform (cols : ℕ) : List (RowBlock × (ω → ω)) → ω → Option ω
  | [], outputs => some outputs
  | (block, f) :: writes, outputs =>
    (onPart (block.start * cols) (block.stop * cols) f outputs).bind (perform cols writes)

def ownWrites (block : RowBlock) (writes : List (RowBlock × (ω → ω))) (part : ω) : ω :=
  (writes.filter (·.1 = block)).foldl (fun part w => w.2 part) part

/-- Writes of all workers in some order. Those to the part of a block with rows make up its work,
done once, and there are no others. -/
structure Interleaves (cols : ℕ) (blocks : List RowBlock) (work : RowBlock → ω → ω)
    (writes : List (RowBlock × (ω → ω))) : Prop where
  mem : ∀ w ∈ writes, w.1 ∈ blocks ∧ w.1.isEmpty = false
  fits : ∀ w ∈ writes, ∀ part, Fits cols w.1 part → Fits cols w.1 (w.2 part)
  ownWrites_eq : ∀ block ∈ blocks, block.isEmpty = false → ∀ part, Fits cols block part →
    ownWrites block writes part = work block part

/-- Every block with rows has been worked on, on its own cells, and nothing has changed beyond the
rows. -/
structure Finishes (shape : Shape) (blocks : List RowBlock) (work : RowBlock → ω → ω)
    (outputs finished : ω) : Prop where
  worked : ∀ block ∈ blocks, block.isEmpty = false → ∃ part,
    IsPart outputs (block.start * shape.cols) (block.stop * shape.cols) part ∧
      IsPart finished (block.start * shape.cols) (block.stop * shape.cols) (work block part)
  beyond : ∀ (l : Leaf ω) (i : ℕ), shape.size ≤ i → (leaf l finished)[i]? = (leaf l outputs)[i]?

theorem exists_isPart (hle : lo ≤ hi) (hlen : ∀ l : Leaf ω, hi ≤ (leaf l outputs).size) :
    ∃ part, IsPart outputs lo hi part ∧ ∀ f : ω → ω, ∃ next, onPart lo hi f outputs = some next ∧
      ∀ l : Leaf ω, leaf l next = (leaf l outputs).extract 0 lo ++
        (leaf l (f part) ++ (leaf l outputs).extract hi (leaf l outputs).size) := by
  obtain ⟨⟨before, rest⟩, hc⟩ := Option.isSome_iff_exists.1
    ((isSome_cut lo outputs).2 fun l => hle.trans (hlen l))
  have hrest (l : Leaf ω) := (leaf_cut hc l).2
  have hlen' (l : Leaf ω) : hi - lo ≤ (leaf l rest).size := by
    rw [hrest, Array.size_extract]
    have := hlen l
    omega
  obtain ⟨⟨part, after⟩, hc'⟩ := Option.isSome_iff_exists.1 ((isSome_cut _ rest).2 hlen')
  refine ⟨part, fun l => ?_, fun f => ⟨Buffers.join before (Buffers.join (f part) after), ?_, ?_⟩⟩
  · rw [(leaf_cut hc' l).1, hrest, Array.extract_extract, Nat.add_zero, Nat.add_sub_cancel' hle,
      extract_min_size]
  · rw [onPart, hc, Option.bind_some, hc']
    rfl
  · intro l
    rw [leaf_join, leaf_join, (leaf_cut hc l).1, (leaf_cut hc' l).2, hrest, Array.extract_extract,
      Array.size_extract, Nat.add_sub_cancel' hle]
    congr 3
    have := hlen l
    omega

theorem onPart_spec (h : Consecutive blocks 0 rows) (hm : block ∈ blocks)
    (hlen : ∀ l : Leaf ω, rows * cols ≤ (leaf l outputs).size) {f : ω → ω}
    (hf : ∀ part, Fits cols block part → Fits cols block (f part)) :
    ∃ next, onPart (block.start * cols) (block.stop * cols) f outputs = some next ∧
      (∀ l : Leaf ω, (leaf l next).size = (leaf l outputs).size) ∧
      (∀ (l : Leaf ω) (i : ℕ), rows * cols ≤ i → (leaf l next)[i]? = (leaf l outputs)[i]?) ∧
      ∀ other ∈ blocks, ∀ part, IsPart outputs (other.start * cols) (other.stop * cols) part →
        IsPart next (other.start * cols) (other.stop * cols)
          (if other = block then f part else part) := by
  obtain ⟨-, hle, hstop⟩ := h.mem_bounds hm
  have hle' := Nat.mul_le_mul_right cols hle
  have hstop' := Nat.mul_le_mul_right cols hstop
  have hlen' (l : Leaf ω) := hstop'.trans (hlen l)
  obtain ⟨part, hpart, hnext⟩ := exists_isPart hle' hlen'
  obtain ⟨next, hon, hleaf⟩ := hnext f
  have hy (l : Leaf ω) : (leaf l (f part)).size = block.stop * cols - block.start * cols := by
    rw [hf part (hpart.fits hlen') l, RowBlock.size, Nat.sub_mul]
  have hget (l : Leaf ω) (k : ℕ) := (hleaf l).symm ▸ getElem?_splice hle' (hlen' l) (hy l) k
  have hsize (l : Leaf ω) : (leaf l next).size = (leaf l outputs).size := by
    have := hlen' l
    rw [hleaf l, Array.size_append, Array.size_append, Array.size_extract, Array.size_extract, hy l]
    omega
  refine ⟨next, hon, hsize, fun l i hi => ?_, fun other ho q hq => ?_⟩
  · rw [hget, if_neg (by omega)]
  · split_ifs with heq
    · subst heq
      obtain rfl := hpart.unique hq
      intro l
      rw [hleaf l, extract_splice hle' (hlen' l) (hy l)]
    · intro l
      rw [hq l]
      refine (extract_congr (fun k hk hk' => ?_) (hsize l)).symm
      rw [hget, if_neg]
      rintro ⟨h₁, h₂⟩
      rcases h.disjoint hm ho (Ne.symm heq) with hd | hd
      · have := Nat.mul_le_mul_right cols hd
        omega
      · have := Nat.mul_le_mul_right cols hd
        omega

/-- Whatever the order of the writes, each part is changed by its own block's writes alone. -/
theorem perform_spec (h : Consecutive blocks 0 rows) (hmem : ∀ w ∈ writes, w.1 ∈ blocks)
    (hfits : ∀ w ∈ writes, ∀ part, Fits cols w.1 part → Fits cols w.1 (w.2 part))
    (hlen : ∀ l : Leaf ω, rows * cols ≤ (leaf l outputs).size) :
    ∃ final, perform cols writes outputs = some final ∧
      (∀ (l : Leaf ω) (i : ℕ), rows * cols ≤ i → (leaf l final)[i]? = (leaf l outputs)[i]?) ∧
      ∀ block ∈ blocks, ∀ part, IsPart outputs (block.start * cols) (block.stop * cols) part →
        IsPart final (block.start * cols) (block.stop * cols) (ownWrites block writes part) := by
  induction writes generalizing outputs with
  | nil => exact ⟨outputs, rfl, fun _ _ _ => rfl, fun _ _ _ hp => hp⟩
  | cons w writes ih =>
    obtain ⟨next, hon, hsize, hbeyond, hparts⟩ :=
      onPart_spec h (hmem w List.mem_cons_self) hlen (hfits w List.mem_cons_self)
    obtain ⟨final, hperform, hbeyond', hparts'⟩ :=
      ih (fun w hw => hmem w (List.mem_cons_of_mem _ hw))
        (fun w hw => hfits w (List.mem_cons_of_mem _ hw)) fun l => (hlen l).trans_eq (hsize l).symm
    refine ⟨final, ?_, fun l i hi => (hbeyond' l i hi).trans (hbeyond l i hi), ?_⟩
    · change (onPart _ _ w.2 outputs).bind _ = _
      rw [hon]
      exact hperform
    · -- a write to the part of another block leaves this one for the block's own writes to come
      intro block hb p hp
      have hp' := hparts' block hb _ (hparts block hb p hp)
      rw [ownWrites, List.filter_cons]
      rw [ownWrites] at hp'
      by_cases heq : block = w.1
      · rw [if_pos heq] at hp'
        rw [if_pos (decide_eq_true heq.symm), List.foldl_cons]
        exact hp'
      · rw [if_neg heq] at hp'
        rw [if_neg (by simpa using Ne.symm heq)]
        exact hp'

end Relief.WorkerPool
