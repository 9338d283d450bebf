import Relief.Proofs.RowBlock

namespace Relief.RowBlock

variable {blocks : List RowBlock} {block : RowBlock} {a b i id rows workers : ℕ}

theorem Consecutive.sum_size (h : Consecutive blocks a b) :
    a + (blocks.map size).sum = b := by
  induction h with
  | nil => rfl
  | cons hle _ ih =>
    rw [List.map_cons, List.sum_cons, size]
    omega

theorem size_eq_zero_iff : block.size = 0 ↔ block.isEmpty = true := by
  rw [isEmpty, decide_eq_true_iff]

theorem length_filter_of_size_le (h : ∀ block ∈ blocks, block.size ≤ 1) :
    (blocks.filter (!·.isEmpty)).length = (blocks.map size).sum := by
  induction blocks with
  | nil => rfl
  | cons block blocks ih =>
    obtain ⟨hle, hall⟩ := List.forall_mem_cons.1 h
    rw [List.filter_cons, List.map_cons, List.sum_cons]
    cases he : block.isEmpty with
    | true =>
      rw [Bool.not_true, if_neg Bool.false_ne_true, ih hall, size_eq_zero_iff.2 he, Nat.zero_add]
    | false =>
      have hpos : block.size ≠ 0 := fun h0 => ne_true_of_eq_false he (size_eq_zero_iff.1 h0)
      rw [Bool.not_false, if_pos rfl, List.length_cons, ih hall]
      omega

theorem bound_eq (hpos : 0 < workers) (h : id ≤ workers) :
    bound rows workers id = id * rows / workers := by
  apply min_eq_left
  calc id * rows / workers ≤ workers * rows / workers :=
        Nat.div_le_div_right (Nat.mul_le_mul_right rows h)
    _ = rows := Nat.mul_div_cancel_left rows hpos

theorem succ_mul_div (hpos : 0 < workers) (i rows : ℕ) :
    (i + 1) * rows / workers = i * rows / workers + rows / workers ∨
      (i + 1) * rows / workers = i * rows / workers + rows ⌈/⌉ workers := by
  rw [Nat.ceilDiv_eq_add_pred_div, Nat.succ_mul, Nat.add_div hpos]
  split_ifs with h
  · right
    have hmod : 0 < rows % workers := by
      have hlt := Nat.mod_lt (i * rows) hpos
      omega
    have hceil : (rows + workers - 1) / workers = rows / workers + 1 := by
      rw [Nat.div_eq_iff hpos]
      have hdiv := Nat.div_add_mod' rows workers
      have hlt := Nat.mod_lt rows hpos
      rw [Nat.succ_mul]
      omega
    rw [hceil, Nat.add_assoc]
  · exact .inl rfl

theorem size_ofWorker (h : id < workers) :
    (ofWorker rows workers id).size = rows / workers ∨
      (ofWorker rows workers id).size = rows ⌈/⌉ workers := by
  have hpos := Nat.zero_lt_of_lt h
  change bound rows workers (id + 1) - bound rows workers id = _ ∨
    bound rows workers (id + 1) - bound rows workers id = _
  rw [bound_eq hpos (show id + 1 ≤ workers from h), bound_eq hpos h.le]
  rcases succ_mul_div hpos id rows with h | h
  · rw [h, Nat.add_sub_cancel_left]
    exact .inl rfl
  · rw [h, Nat.add_sub_cancel_left]
    exact .inr rfl

/-- Blocks that cut rows evenly, one for each worker. -/
structure Evenly (rows workers : ℕ) (blocks : List RowBlock) : Prop where
  length : blocks.length = workers
  worker : ∀ (i : ℕ) (block : RowBlock), blocks[i]? = some block → block.worker = i
  ordered : ∀ block ∈ blocks, block.start ≤ block.stop
  first : ∀ block : RowBlock, blocks[0]? = some block → block.start = 0
  next : ∀ (i : ℕ) (block other : RowBlock), blocks[i]? = some block → blocks[i + 1]? = some other →
    block.stop = other.start
  last : ∀ block : RowBlock, blocks[workers - 1]? = some block → block.stop = rows
  covers : ∀ row < rows, ∃! block, block ∈ blocks ∧ block.start ≤ row ∧ row < block.stop
  balanced : ∀ block ∈ blocks, block.size = rows / workers ∨ block.size = rows ⌈/⌉ workers
  filled : workers ≤ rows → ∀ block ∈ blocks, block.isEmpty = false
  single : rows < workers → (blocks.filter (!·.isEmpty)).length = rows ∧
    ∀ block ∈ blocks, block.isEmpty = false → block.size = 1

theorem getElem?_ofWorker
    (h : ((List.range workers).map (ofWorker rows workers))[i]? = some block) :
    i < workers ∧ block = ofWorker rows workers i := by
  rw [List.getElem?_map] at h
  obtain ⟨j, hj, rfl⟩ := Option.map_eq_some_iff.1 h
  obtain ⟨hlt, rfl⟩ := List.getElem?_eq_some_iff.1 hj
  rw [List.length_range] at hlt
  exact ⟨hlt, by rw [List.getElem_range]⟩

theorem evenly_ofWorker (hpos : 0 < workers) :
    Evenly rows workers ((List.range workers).map (ofWorker rows workers)) := by
  have hc : Consecutive _ 0 rows := consecutive_ofWorker hpos
  have hbalanced : ∀ block ∈ (List.range workers).map (ofWorker rows workers),
      block.size = rows / workers ∨ block.size = rows ⌈/⌉ workers := by
    intro block hm
    obtain ⟨id, hid, rfl⟩ := List.mem_map.1 hm
    exact size_ofWorker (List.mem_range.1 hid)
  refine ⟨?_, ?_, fun block hm => (hc.mem_bounds hm).2.1, ?_, ?_, ?_, ?_, hbalanced, ?_, ?_⟩
  · rw [List.length_map, List.length_range]
  · intro i block h
    obtain ⟨-, rfl⟩ := getElem?_ofWorker h
    rfl
  · intro block h
    obtain ⟨-, rfl⟩ := getElem?_ofWorker h
    exact bound_zero
  · intro i block other h h'
    obtain ⟨-, rfl⟩ := getElem?_ofWorker h
    obtain ⟨-, rfl⟩ := getElem?_ofWorker h'
    rfl
  · intro block h
    obtain ⟨-, rfl⟩ := getElem?_ofWorker h
    change bound rows workers (workers - 1 + 1) = rows
    rw [Nat.sub_add_cancel hpos, bound_workers hpos]
  · intro row hrow
    have hcell : row < rows * 1 := by rwa [Nat.mul_one]
    simpa only [Nat.mul_one] using hc.existsUnique_cell hcell
  · intro hle block hm
    have hone : 1 ≤ rows / workers := (Nat.one_le_div_iff hpos).2 hle
    have hceil : rows / workers ≤ rows ⌈/⌉ workers :=
      Nat.floorDiv_eq_div rows workers ▸ floorDiv_le_ceilDiv
    rw [← Bool.not_eq_true, ← size_eq_zero_iff]
    rcases hbalanced block hm with h | h <;> omega
  · intro hlt
    have hfloor : rows / workers = 0 := Nat.div_eq_of_lt hlt
    have hceil : rows ⌈/⌉ workers ≤ 1 := by
      rw [ceilDiv_le_iff_le_mul hpos, Nat.mul_one]
      exact hlt.le
    have hone : ∀ block ∈ (List.range workers).map (ofWorker rows workers), block.size ≤ 1 := by
      intro block hm
      rcases hbalanced block hm with h | h <;> omega
    refine ⟨?_, fun block hm he => ?_⟩
    · rw [length_filter_of_size_le hone]
      have hsum := hc.sum_size
      omega
    · have hne : block.size ≠ 0 := fun h0 => ne_true_of_eq_false he (size_eq_zero_iff.1 h0)
      have hle := hone block hm
      omega

/-- The blocks of a partition cut the rows evenly, and they are returned if a list of so many can
be addressed. No bound is cut off at the last row, and products of a worker and the rows fit in
words of twice the width, their quotients in words. -/
theorem partition_evenly (rows workers : ℕ) (hrows : rows < wordValues)
    (hworkers : workers < wordValues) :
    let count := max workers 1
    let blocks := (List.range count).map (ofWorker rows count)
    Evenly rows count blocks ∧
      (count * width ≤ addressLimit → partition rows workers = .ok blocks) ∧
      (addressLimit < count * width → partition rows workers = .error .capacityOverflow) ∧
      ∀ id ≤ count, id < wordValues ∧ id * rows < wordValues * wordValues ∧
        id * rows / count < wordValues ∧ bound rows count id = id * rows / count := by
  intro count blocks
  have hpos : 0 < count := by omega
  refine ⟨evenly_ofWorker hpos, fun h => if_pos h, fun h => if_neg h.not_ge, fun id hid => ?_⟩
  have hword : count < wordValues := max_lt hworkers (by decide)
  have hbound : bound rows count id = id * rows / count := bound_eq hpos hid
  refine ⟨hid.trans_lt hword, Nat.mul_lt_mul'' (hid.trans_lt hword) hrows, ?_, hbound⟩
  rw [← hbound]
  exact (min_le_right _ _).trans_lt hrows

/-- Three workers on the rows of all but the last two words, of whom the first has one row less. -/
theorem partition_evenly_three :
    let blocks : List RowBlock := [⟨0, 0, 6148914691236517204⟩,
      ⟨1, 6148914691236517204, 12297829382473034409⟩,
      ⟨2, 12297829382473034409, 18446744073709551614⟩]
    18446744073709551614 < wordValues ∧ 3 < wordValues ∧
      partition 18446744073709551614 3 = .ok blocks ∧ Evenly 18446744073709551614 3 blocks := by
  intro blocks
  obtain ⟨heven, hok, -⟩ := partition_evenly 18446744073709551614 3 (by decide) (by decide)
  exact ⟨by decide, by decide, hok (by decide), heven⟩

/-- As many workers as a word can count have more blocks than can be addressed, so that five rows
are not cut among them. -/
theorem partition_not_addressable :
    5 < wordValues ∧ wordValues - 1 < wordValues ∧
      ¬ ∃ blocks, partition 5 (wordValues - 1) = .ok blocks ∧ blocks.length = wordValues - 1 := by
  have hrefused : partition 5 (wordValues - 1) = .error .capacityOverflow := by
    rw [partition, tabulate, if_neg (by decide)]
  refine ⟨by decide, by decide, ?_⟩
  rintro ⟨blocks, hok, -⟩
  rw [hrefused] at hok
  cases hok

end Relief.RowBlock
