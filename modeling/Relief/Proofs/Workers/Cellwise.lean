import Relief.Proofs.Grid
import Relief.Proofs.Workers.Run

namespace Relief

theorem RowBlock.cellAt_sub {shape : Shape} {block : RowBlock} {i : ℕ} (hcols : 0 < shape.cols)
    (h : block.start * shape.cols ≤ i) :
    block.cellAt shape (i - block.start * shape.cols) = shape.cellAt i := by
  have hle : block.start ≤ i / shape.cols := (Nat.le_div_iff_mul_le hcols).2 h
  rw [Nat.mul_comm] at h
  rw [RowBlock.cellAt, Shape.cellAt, Nat.mul_comm, Nat.sub_mul_div, Nat.sub_mul_mod h,
    Nat.add_sub_cancel' hle]

namespace WorkerPool

open LawfulBuffers RowBlock

variable {ω : Type} [Buffers ω] [LawfulBuffers ω] {outputs : ω} {work : RowBlock → ω → ω}
  {shape : Shape} {values : (l : Leaf ω) → Cell → Item l}
  {blocks : List RowBlock} {finished : ω} {writes : List (RowBlock × (ω → ω))}

/-- The work writes into every leaf what `values` gives the cells of the block. -/
def Tabulates (shape : Shape) (work : RowBlock → ω → ω) (values : (l : Leaf ω) → Cell → Item l) :
    Prop :=
  ∀ block part, Fits shape.cols block part → ∀ l : Leaf ω, leaf l (work block part) =
    Array.ofFn fun i : Fin (block.size * shape.cols) => values l (block.cellAt shape i)

theorem Tabulates.fits (h : Tabulates shape work values) (block : RowBlock) (part : ω)
    (hp : Fits shape.cols block part) : Fits shape.cols block (work block part) := by
  intro l
  rw [h block part hp l, Array.size_ofFn]

theorem Finishes.eq_table (h : Finishes shape blocks work outputs finished)
    (hc : Consecutive blocks 0 shape.rows) (hw : Tabulates shape work values)
    (hsize : ∀ l : Leaf ω, (leaf l outputs).size = shape.size) (l : Leaf ω) :
    leaf l finished = shape.table (values l) := by
  apply Array.ext_getElem?
  intro i
  rw [Shape.table, Array.getElem?_ofFn]
  split_ifs with hi
  · obtain ⟨block, ⟨hm, hlo, hhi⟩, -⟩ := hc.existsUnique_cell hi
    have hcols : 0 < shape.cols := Nat.pos_of_mul_pos_left (Nat.zero_lt_of_lt hi)
    obtain ⟨part, hpart, hget⟩ := h.getElem? hm hlo hhi
    have hstop := Nat.mul_le_mul_right shape.cols (hc.mem_bounds hm).2.2
    have hfits := hpart.fits fun l => hstop.trans_eq (hsize l).symm
    have hlt : i - block.start * shape.cols < block.size * shape.cols := by
      rw [RowBlock.size, Nat.sub_mul]
      omega
    rw [hget, hw block part hfits l, Array.getElem?_ofFn, dif_pos hlt]
    exact congrArg (some ∘ values l) (cellAt_sub hcols hlo)
  · rw [h.beyond l i (not_lt.1 hi), Array.getElem?_eq_none ((hsize l).trans_le (not_lt.1 hi))]

/-- Any number of workers, in any order, leaves the same tables. -/
theorem run_of_tabulates (pool : WorkerPool) (hw : Tabulates shape work values)
    (hword : shape.size < wordValues) (hsize : ∀ l : Leaf ω, (leaf l outputs).size = shape.size)
    {table : ω} (htable : ∀ l : Leaf ω, leaf l table = shape.table (values l))
    (h : pool.workers * RowBlock.width ≤ addressLimit) :
    let blocks := (List.range pool.workers).map (ofWorker shape.rows pool.workers)
    pool.run shape outputs work = ⟨(blocks.filter (!·.isEmpty)).map .blockDone, .ok table⟩ ∧
      ∀ writes, Interleaves shape.cols blocks work writes →
        perform shape.cols writes outputs = some table := by
  intro blocks
  have hc : Consecutive blocks 0 shape.rows := consecutive_ofWorker pool.workers_pos
  have hlen (l : Leaf ω) : shape.size ≤ (leaf l outputs).size := (hsize l).ge
  have heq {final : ω} (hf : Finishes shape blocks work outputs final) : final = table :=
    LawfulBuffers.ext fun l => (hf.eq_table hc hw hsize l).trans (htable l).symm
  obtain ⟨finished, hrun, hfin⟩ := run_spec h hword hw.fits hlen
  refine ⟨?_, fun writes hi => ?_⟩
  · rw [hrun, heq hfin]
  · obtain ⟨final, hperform, hfinal⟩ := hi.finishes hc hlen
    rw [hperform, heq hfinal]

end WorkerPool

end Relief
