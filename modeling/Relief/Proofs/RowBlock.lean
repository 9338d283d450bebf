import Mathlib
import Relief.RowBlock

namespace Relief.RowBlock

variable {blocks : List RowBlock} {block other : RowBlock} {a b c r rows workers : ℕ}

/-- The blocks lead from row `a` up to row `b` without a gap. -/
inductive Consecutive : List RowBlock → ℕ → ℕ → Prop
  | nil (a : ℕ) : Consecutive [] a a
  | cons {block : RowBlock} {blocks : List RowBlock} {b : ℕ} (hle : block.start ≤ block.stop)
      (h : Consecutive blocks block.stop b) : Consecutive (block :: blocks) block.start b

theorem Consecutive.le (h : Consecutive blocks a b) : a ≤ b := by
  induction h with
  | nil => exact le_rfl
  | cons hle _ ih => exact hle.trans ih

theorem Consecutive.append {blocks' : List RowBlock} (h : Consecutive blocks a b)
    (h' : Consecutive blocks' b c) : Consecutive (blocks ++ blocks') a c := by
  induction h with
  | nil => exact h'
  | cons hle _ ih => exact .cons hle (ih h')

theorem Consecutive.mem_bounds (h : Consecutive blocks a b) (hm : block ∈ blocks) :
    a ≤ block.start ∧ block.start ≤ block.stop ∧ block.stop ≤ b := by
  induction h with
  | nil => cases hm
  | cons hle h ih =>
    rcases List.mem_cons.1 hm with rfl | hm
    · exact ⟨le_rfl, hle, h.le⟩
    · obtain ⟨h₁, h₂⟩ := ih hm
      exact ⟨hle.trans h₁, h₂⟩

theorem Consecutive.pairwise (h : Consecutive blocks a b) :
    blocks.Pairwise fun x y => x.stop ≤ y.start := by
  induction h with
  | nil => exact List.Pairwise.nil
  | cons _ h ih => exact List.Pairwise.cons (fun y hy => (h.mem_bounds hy).1) ih

theorem Consecutive.disjoint (h : Consecutive blocks a b) (hm : block ∈ blocks)
    (hm' : other ∈ blocks) (hne : block ≠ other) :
    block.stop ≤ other.start ∨ other.stop ≤ block.start := by
  have hp : blocks.Pairwise fun x y => x.stop ≤ y.start ∨ y.stop ≤ x.start :=
    h.pairwise.imp .inl
  have : Std.Symm fun x y : RowBlock => x.stop ≤ y.start ∨ y.stop ≤ x.start := ⟨fun _ _ => Or.symm⟩
  exact hp.forall hm hm' hne

theorem Consecutive.exists_mem (h : Consecutive blocks a b) (ha : a ≤ r) (hb : r < b) :
    ∃ block ∈ blocks, block.start ≤ r ∧ r < block.stop := by
  induction h with
  | nil => exact absurd hb (not_lt.2 ha)
  | @cons block blocks b _ _ ih =>
    rcases lt_or_ge r block.stop with hr | hr
    · exact ⟨block, List.mem_cons_self, ha, hr⟩
    · obtain ⟨other, hm, hr⟩ := ih hr hb
      exact ⟨other, List.mem_cons_of_mem _ hm, hr⟩

theorem Consecutive.existsUnique_cell {i cols : ℕ} (h : Consecutive blocks 0 rows)
    (hi : i < rows * cols) :
    ∃! block, block ∈ blocks ∧ block.start * cols ≤ i ∧ i < block.stop * cols := by
  have hcols : 0 < cols := Nat.pos_of_mul_pos_left (Nat.zero_lt_of_lt hi)
  obtain ⟨block, hm, hstart, hstop⟩ :=
    h.exists_mem (Nat.zero_le _) ((Nat.div_lt_iff_lt_mul hcols).2 hi)
  refine ⟨block, ⟨hm, ?_, ?_⟩, ?_⟩
  · exact (Nat.le_div_iff_mul_le hcols).1 hstart
  · exact (Nat.div_lt_iff_lt_mul hcols).1 hstop
  · rintro other ⟨hm', hstart', hstop'⟩
    by_contra hne
    rw [← Nat.le_div_iff_mul_le hcols] at hstart'
    rw [← Nat.div_lt_iff_lt_mul hcols] at hstop'
    rcases h.disjoint hm' hm hne with hd | hd
    · omega
    · omega

theorem lt_of_isEmpty (h : block.isEmpty = false) : block.start < block.stop := by
  rw [RowBlock.isEmpty, RowBlock.size, decide_eq_false_iff_not] at h
  omega

theorem isEmpty_of_lt (h : block.start < block.stop) : block.isEmpty = false := by
  rw [RowBlock.isEmpty, RowBlock.size, decide_eq_false_iff_not]
  omega

theorem Consecutive.nodup (h : Consecutive blocks a b) :
    (blocks.filter (!·.isEmpty)).Nodup := by
  apply List.Pairwise.imp_of_mem _ (h.pairwise.filter _)
  rintro x y hx _ hle rfl
  have hlt := lt_of_isEmpty (Bool.not_eq_true' _ ▸ List.of_mem_filter hx)
  omega

theorem bound_zero : bound rows workers 0 = 0 := by
  rw [bound, Nat.zero_mul, Nat.zero_div, Nat.zero_min]

theorem bound_workers (h : 0 < workers) : bound rows workers workers = rows := by
  rw [bound, Nat.mul_div_cancel_left _ h, Nat.min_self]

theorem bound_mono (h : a ≤ b) : bound rows workers a ≤ bound rows workers b :=
  min_le_min_right _ (Nat.div_le_div_right (Nat.mul_le_mul_right _ h))

theorem consecutive_range_map (rows workers n : ℕ) :
    Consecutive ((List.range n).map (ofWorker rows workers)) 0 (bound rows workers n) := by
  induction n with
  | zero =>
    rw [bound_zero]
    exact .nil 0
  | succ n ih =>
    rw [List.range_succ, List.map_append]
    exact ih.append (.cons (bound_mono n.le_succ) (.nil _))

/-- The blocks of all workers lead from the first row to the last. -/
theorem consecutive_ofWorker (h : 0 < workers) :
    Consecutive ((List.range workers).map (ofWorker rows workers)) 0 rows := by
  have hc := consecutive_range_map rows workers workers
  rwa [bound_workers h] at hc

/-- Blocks with rows, of which each row up to the last belongs to one and no other row to any. -/
structure Deals (rows : ℕ) (blocks : List RowBlock) : Prop where
  nonempty : ∀ block ∈ blocks, block.start < block.stop
  disjoint : blocks.Pairwise fun x y => x.stop ≤ y.start ∨ y.stop ≤ x.start
  covers : ∀ row, row < rows ↔ ∃ block ∈ blocks, block.start ≤ row ∧ row < block.stop

theorem Deals.perm {order : List RowBlock} (h : Deals rows blocks) (hperm : order.Perm blocks) :
    Deals rows order where
  nonempty block hm := h.nonempty block (hperm.mem_iff.1 hm)
  disjoint := (hperm.pairwise_iff fun hxy => hxy.symm).2 h.disjoint
  covers row := by
    simp only [h.covers, hperm.mem_iff]

theorem Consecutive.deals (h : Consecutive blocks 0 rows) :
    Deals rows (blocks.filter (!·.isEmpty)) where
  nonempty block hm := by
    have hkept : (!block.isEmpty) = true := (List.mem_filter.1 hm).2
    exact lt_of_isEmpty ((Bool.not_eq_true' _).mp hkept)
  disjoint := (h.pairwise.filter _).imp .inl
  covers row := by
    constructor
    · intro hrow
      obtain ⟨block, hm, hstart, hstop⟩ := h.exists_mem (Nat.zero_le row) hrow
      have hempty : block.isEmpty = false := isEmpty_of_lt (hstart.trans_lt hstop)
      exact ⟨block, List.mem_filter.2 ⟨hm, (Bool.not_eq_true' _).mpr hempty⟩, hstart, hstop⟩
    · rintro ⟨block, hm, -, hstop⟩
      exact hstop.trans_le (h.mem_bounds (List.mem_of_mem_filter hm)).2.2

end Relief.RowBlock
