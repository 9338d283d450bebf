import Relief.Proofs.Logged
import Relief.Proofs.Workers.Interleaving

namespace Relief.WorkerPool

open LawfulBuffers RowBlock

variable {ω : Type} [Buffers ω] [LawfulBuffers ω] {blocks : List RowBlock} {block : RowBlock}
  {cols rows : ℕ} {outputs finished final left : ω} {shares : List (RowBlock × ω)} {shape : Shape}
  {work : RowBlock → ω → ω} {writes : List (RowBlock × (ω → ω))} {pool : WorkerPool}

theorem Finishes.getElem? (hf : Finishes shape blocks work outputs finished) (hm : block ∈ blocks)
    {i : ℕ} (hlo : block.start * shape.cols ≤ i) (hhi : i < block.stop * shape.cols) :
    ∃ part, IsPart outputs (block.start * shape.cols) (block.stop * shape.cols) part ∧
      ∀ l : Leaf ω, (leaf l finished)[i]? =
        (leaf l (work block part))[i - block.start * shape.cols]? := by
  have hempty : block.isEmpty = false :=
    isEmpty_of_lt (Nat.lt_of_mul_lt_mul_right (hlo.trans_lt hhi))
  obtain ⟨part, hpart, hdone⟩ := hf.worked block hm hempty
  exact ⟨part, hpart, fun l => hdone.getElem? l hlo hhi⟩

theorem Finishes.unique (h : Consecutive blocks 0 shape.rows)
    (hx : Finishes shape blocks work outputs finished)
    (hy : Finishes shape blocks work outputs final) : finished = final := by
  apply LawfulBuffers.ext
  intro l
  apply Array.ext_getElem?
  intro i
  rcases le_or_gt shape.size i with hi | hi
  · rw [hx.beyond l i hi, hy.beyond l i hi]
  · obtain ⟨block, ⟨hm, hlo, hhi⟩, -⟩ := h.existsUnique_cell hi
    obtain ⟨part, hpart, hget⟩ := hx.getElem? hm hlo hhi
    obtain ⟨part', hpart', hget'⟩ := hy.getElem? hm hlo hhi
    obtain rfl := hpart.unique hpart'
    rw [hget, hget']

theorem Interleaves.finishes (h : Consecutive blocks 0 shape.rows)
    (hw : Interleaves shape.cols blocks work writes)
    (hlen : ∀ l : Leaf ω, shape.size ≤ (leaf l outputs).size) :
    ∃ final, perform shape.cols writes outputs = some final ∧
      Finishes shape blocks work outputs final := by
  obtain ⟨final, hperform, hbeyond, hparts⟩ :=
    perform_spec h (fun w hm => (hw.mem w hm).1) hw.fits hlen
  refine ⟨final, hperform, fun block hm hempty => ?_, hbeyond⟩
  obtain ⟨-, hle, hstop⟩ := h.mem_bounds hm
  have hlen' (l : Leaf ω) := (Nat.mul_le_mul_right shape.cols hstop).trans (hlen l)
  obtain ⟨part, hpart, -⟩ := exists_isPart (Nat.mul_le_mul_right shape.cols hle) hlen'
  have hdone := hparts block hm part hpart
  rw [hw.ownWrites_eq block hm hempty part (hpart.fits hlen')] at hdone
  exact ⟨part, hpart, hdone⟩

def workedShare (work : RowBlock → ω → ω) (s : RowBlock × ω) : RowBlock × ω :=
  (s.1, if s.1.isEmpty then s.2 else work s.1 s.2)

theorem finishes_of_share (h : Consecutive blocks 0 shape.rows) (hword : shape.size < wordValues)
    (hwork : ∀ block part, Fits shape.cols block part → Fits shape.cols block (work block part))
    (hs : share shape.cols blocks outputs = some (shares, left)) :
    Finishes shape blocks work outputs
      (((shares.map (workedShare work)).map (·.2)).foldr Buffers.join left) := by
  obtain ⟨hmap, hparts, hleft⟩ := share_outputs h hword hs
  have hmap' : (shares.map (workedShare work)).map (·.1) = blocks := by
    rw [List.map_map]
    exact hmap
  have hfits : ∀ s ∈ shares.map (workedShare work), Fits shape.cols s.1 s.2 := by
    intro _ hm
    obtain ⟨s, hs, rfl⟩ := List.mem_map.1 hm
    rw [workedShare]
    dsimp only
    split_ifs
    · exact (hparts s hs).2
    · exact hwork _ _ (hparts s hs).2
  constructor
  · intro block hm hempty
    obtain ⟨s, hs, rfl⟩ := List.mem_map.1 (hmap ▸ hm)
    refine ⟨s.2, (hparts s hs).1, fun l => ?_⟩
    have hjoin := (join_parts (hmap'.symm ▸ h) hfits left l).2.1 _ (List.mem_map_of_mem hs)
    rwa [workedShare, hempty, if_neg Bool.false_ne_true, Nat.sub_zero, Nat.sub_zero] at hjoin
  · intro l i hi
    have htail := (join_parts (hmap'.symm ▸ h) hfits left l).2.2
    rw [Nat.sub_zero, hleft l] at htail
    rw [← getElem?_extract_sub hi, ← getElem?_extract_sub (n := shape.size) hi]
    exact congrArg (fun x => x[i - shape.size]?) htail.symm

theorem partition_of_addressable (h : pool.workers * RowBlock.width ≤ addressLimit) (rows : ℕ) :
    RowBlock.partition rows pool.workers =
      .ok ((List.range pool.workers).map (ofWorker rows pool.workers)) := by
  rw [RowBlock.partition, tabulate, max_eq_left pool.workers_pos, if_pos h]

theorem partition_of_not_addressable (pool : WorkerPool)
    (h : addressLimit < pool.workers * RowBlock.width) (rows : ℕ) :
    RowBlock.partition rows pool.workers = .error .capacityOverflow := by
  rw [RowBlock.partition, tabulate, max_eq_left pool.workers_pos, if_neg (not_le.2 h)]

omit [LawfulBuffers ω] in
theorem run_of_share_none (hp : RowBlock.partition shape.rows pool.workers = .ok blocks)
    (hs : share shape.cols blocks outputs = none) :
    pool.run shape outputs work = Logged.fail .shortOutput := by
  rw [run, hp, Logged.ofExcept_ok_bind, hs]

omit [LawfulBuffers ω] in
theorem run_of_share_some (hp : RowBlock.partition shape.rows pool.workers = .ok blocks)
    (hs : share shape.cols blocks outputs = some (shares, left)) :
    pool.run shape outputs work =
      ⟨(shares.filter (!·.1.isEmpty)).map (.blockDone ·.1),
        .ok (((shares.map (workedShare work)).map (·.2)).foldr Buffers.join left)⟩ := by
  rw [run, hp, Logged.ofExcept_ok_bind, hs, List.map_map]
  exact Logged.report_bind_pure _ _

theorem run_spec (h : pool.workers * RowBlock.width ≤ addressLimit)
    (hword : shape.size < wordValues)
    (hwork : ∀ block part, Fits shape.cols block part → Fits shape.cols block (work block part))
    (hlen : ∀ l : Leaf ω, shape.size ≤ (leaf l outputs).size) :
    let blocks := (List.range pool.workers).map (ofWorker shape.rows pool.workers)
    ∃ finished, pool.run shape outputs work =
        ⟨(blocks.filter (!·.isEmpty)).map .blockDone, .ok finished⟩ ∧
      Finishes shape blocks work outputs finished := by
  intro blocks
  have hc : Consecutive blocks 0 shape.rows := consecutive_ofWorker pool.workers_pos
  obtain ⟨shares, left, hs⟩ := exists_share hc hword hlen
  refine ⟨_, ?_, finishes_of_share hc hword hwork hs⟩
  rw [run_of_share_some (partition_of_addressable h _) hs]
  have hmap := (share_outputs hc hword hs).1
  congr 1
  rw [← hmap, List.filter_map, List.map_map]
  rfl

/-- A run calls upon the work of a block with rows alone, and there upon its own part alone. -/
theorem run_congr {work' : RowBlock → ω → ω} (h : pool.workers * RowBlock.width ≤ addressLimit)
    (hword : shape.size < wordValues) (hlen : ∀ l : Leaf ω, shape.size ≤ (leaf l outputs).size)
    (hcall : ∀ block ∈ (List.range pool.workers).map (ofWorker shape.rows pool.workers),
      block.isEmpty = false → ∀ part,
        IsPart outputs (block.start * shape.cols) (block.stop * shape.cols) part →
          work' block part = work block part) :
    pool.run shape outputs work' = pool.run shape outputs work := by
  have hc : Consecutive _ 0 shape.rows := consecutive_ofWorker pool.workers_pos
  obtain ⟨shares, left, hs⟩ := exists_share hc hword hlen
  obtain ⟨hmap, hparts, -⟩ := share_outputs hc hword hs
  have hworked : shares.map (workedShare work') = shares.map (workedShare work) := by
    refine List.map_congr_left fun s hm => ?_
    rw [workedShare, workedShare]
    cases hempty : s.1.isEmpty with
    | true => rfl
    | false =>
      have hmem := hmap ▸ List.mem_map_of_mem hm
      rw [hcall s.1 hmem hempty s.2 (hparts s hm).1]
  have hp := partition_of_addressable h shape.rows
  rw [run_of_share_some hp hs, run_of_share_some hp hs, hworked]

theorem interleaves_of_perm (h : Consecutive blocks 0 rows)
    (hwork : ∀ block part, Fits cols block part → Fits cols block (work block part))
    {order : List RowBlock} (hperm : order.Perm (blocks.filter (!·.isEmpty))) :
    Interleaves cols blocks work (order.map fun block => (block, work block)) where
  mem w hm := by
    obtain ⟨block, hb, rfl⟩ := List.mem_map.1 hm
    simpa using hperm.mem_iff.1 hb
  fits w hm part hf := by
    obtain ⟨block, -, rfl⟩ := List.mem_map.1 hm
    exact hwork block part hf
  ownWrites_eq block hb hempty part _ := by
    have hm : block ∈ order := hperm.mem_iff.2 (by simp [hb, hempty])
    have hone : order.filter (· = block) = [block] := by
      rw [List.filter_eq, List.count_eq_one_of_mem (hperm.nodup_iff.2 h.nodup) hm]
      rfl
    rw [ownWrites, List.filter_map]
    change ((order.filter (· = block)).map _).foldl _ part = _
    rw [hone]
    rfl

/-- Every row is dealt out once: each cell of the rows lies in one block's part, each block with
rows has its work done on the cells of its rows in every leaf, no work is asked for anything else,
and the outputs end the same in whatever order the workers write. Outputs too short for the rows are
refused, and so is a list of more blocks than can be addressed. -/
theorem run_each_row_once (pool : WorkerPool) (shape : Shape) (outputs : ω)
    (work : RowBlock → ω → ω) (hword : shape.size < wordValues)
    (hwork : ∀ block part, Fits shape.cols block part → Fits shape.cols block (work block part)) :
    let blocks := (List.range pool.workers).map (ofWorker shape.rows pool.workers)
    let run := pool.run shape outputs work
    (addressLimit < pool.workers * RowBlock.width → run.outcome = .error .capacityOverflow) ∧
    (pool.workers * RowBlock.width ≤ addressLimit →
      ((∃ l : Leaf ω, (leaf l outputs).size < shape.size) → run.outcome = .error .shortOutput) ∧
      ((∀ l : Leaf ω, shape.size ≤ (leaf l outputs).size) →
        (∀ i < shape.size, ∃! block, block ∈ blocks ∧ block.start * shape.cols ≤ i ∧
          i < block.stop * shape.cols) ∧
        (∀ work' : RowBlock → ω → ω,
          (∀ block ∈ blocks, block.isEmpty = false → ∀ part,
            IsPart outputs (block.start * shape.cols) (block.stop * shape.cols) part →
              work' block part = work block part) →
          pool.run shape outputs work' = run) ∧
        ∃ finished, run = ⟨(blocks.filter (!·.isEmpty)).map .blockDone, .ok finished⟩ ∧
          Finishes shape blocks work outputs finished ∧
          ∀ writes, Interleaves shape.cols blocks work writes →
            perform shape.cols writes outputs = some finished)) := by
  intro blocks run
  have hc : Consecutive blocks 0 shape.rows := consecutive_ofWorker pool.workers_pos
  refine ⟨fun h => ?_, fun h => ⟨fun hshort => ?_, fun hlen => ⟨fun i hi =>
    hc.existsUnique_cell hi, fun work' hcall => run_congr h hword hlen hcall, ?_⟩⟩⟩
  · change (WorkerPool.run pool shape outputs work).outcome = _
    rw [WorkerPool.run, partition_of_not_addressable pool h]
    rfl
  · have hnone : share shape.cols blocks outputs = none := by
      rw [← Option.not_isSome_iff_eq_none, isSome_share_iff hc hword, not_forall]
      obtain ⟨l, hl⟩ := hshort
      exact ⟨l, not_le.2 hl⟩
    change (WorkerPool.run pool shape outputs work).outcome = _
    rw [run_of_share_none (partition_of_addressable h _) hnone]
    rfl
  · obtain ⟨finished, hrun, hfin⟩ := run_spec h hword hwork hlen
    refine ⟨finished, hrun, hfin, fun writes hw => ?_⟩
    obtain ⟨final, hperform, hfinal⟩ := hw.finishes hc hlen
    rw [hperform, hfin.unique hc hfinal]

def signPart (block : RowBlock) (part : Array ℕ × Array ℕ × Array ℕ) :
    Array ℕ × Array ℕ × Array ℕ :=
  (part.1.map fun _ => block.worker, part.2.1.map fun _ => block.start,
    part.2.2.mapIdx fun i _ => i)

/-- Three workers on two rows: the first has none, and the others may work in either order. -/
theorem run_each_row_once_nested :
    let outputs := (Array.replicate 4 0, Array.replicate 5 9, Array.replicate 4 0)
    let finished := (#[1, 1, 2, 2], #[0, 0, 1, 1, 9], #[0, 1, 0, 1])
    (∀ block part, Fits 2 block part → Fits 2 block (signPart block part)) ∧
      WorkerPool.run ⟨3, by decide⟩ ⟨2, 2⟩ outputs signPart =
        ⟨[.blockDone ⟨1, 0, 1⟩, .blockDone ⟨2, 1, 2⟩], .ok finished⟩ ∧
      perform 2 [(⟨2, 1, 2⟩, signPart ⟨2, 1, 2⟩), (⟨1, 0, 1⟩, signPart ⟨1, 0, 1⟩)] outputs =
        some finished := by
  intro outputs finished
  have hwork : ∀ block part, Fits 2 block part → Fits 2 block (signPart block part) := by
    intro block part h l
    rcases l with l | l | l
    · exact Array.size_map.trans (h (.inl l))
    · exact Array.size_map.trans (h (.inr (.inl l)))
    · exact Array.size_mapIdx.trans (h (.inr (.inr l)))
  have hlen : ∀ l : Leaf (Array ℕ × Array ℕ × Array ℕ), 4 ≤ (leaf l outputs).size := by
    intro l
    rcases l with l | l | l
    · exact le_rfl
    · exact Nat.le_succ 4
    · exact le_rfl
  obtain ⟨-, hrun⟩ := run_each_row_once ⟨3, by decide⟩ ⟨2, 2⟩ outputs signPart (by decide) hwork
  obtain ⟨-, -, finished', hok, -, horder⟩ := (hrun (by decide)).2 hlen
  have hcomputed : (WorkerPool.run ⟨3, by decide⟩ ⟨2, 2⟩ outputs signPart).outcome.toOption =
      some finished := by
    decide +kernel
  obtain rfl : finished' = finished := by
    rw [hok] at hcomputed
    exact Option.some.inj hcomputed
  have hc : Consecutive ((List.range 3).map (ofWorker 2 3)) 0 2 := consecutive_ofWorker (by decide)
  have hperm : [(⟨2, 1, 2⟩ : RowBlock), ⟨1, 0, 1⟩].Perm
      (((List.range 3).map (ofWorker 2 3)).filter (!·.isEmpty)) := by
    decide
  exact ⟨hwork, hok, horder _ (interleaves_of_perm hc hwork hperm)⟩

end Relief.WorkerPool
