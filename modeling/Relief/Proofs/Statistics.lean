import Relief.Terrain
import Relief.Proofs.Binary.Widening

namespace Relief

open Binary

theorem isNaN_of_isVoid {v : Float32} (h : Sample.isVoid v = false) : v.isNaN = false :=
  (Bool.or_eq_false_iff.1 h).1

theorem isNaN_of_isVoid_double {v : Float} (h : Sample.isVoid v = false) : v.isNaN = false :=
  (Bool.or_eq_false_iff.1 h).1

theorem singleValue_of_isVoid {v : Float32} (h : Sample.isVoid v = false) : singleValue v ≠ ⊥ := by
  intro hb
  have hn : (-1.0e38 : Float32).isNaN = false := by decide +kernel
  have hle : v ≤ -1.0e38 := by
    rw [single_le_iff, hb]
    exact ⟨⟨isNaN_of_isVoid h, hn⟩, bot_le⟩
  change (v.isNaN || decide (v ≤ -1.0e38)) = false at h
  rw [decide_eq_true hle, Bool.or_true] at h
  cases h

class Ranked (τ : Type) [Sample τ] [LT τ] [LE τ] [BEq τ] where
  rank : τ → EReal
  lt_iff {x y : τ} : Sample.isVoid x = false → Sample.isVoid y = false →
    (x < y ↔ rank x < rank y)
  le_iff {x y : τ} : Sample.isVoid x = false → Sample.isVoid y = false →
    (x ≤ y ↔ rank x ≤ rank y)
  beq_iff {x y : τ} : Sample.isVoid x = false → Sample.isVoid y = false →
    ((x == y) = true ↔ rank x = rank y)

noncomputable instance rankedSingle : Ranked Float32 where
  rank := singleValue
  lt_iff hx hy := by
    rw [single_lt_iff, and_iff_right ⟨isNaN_of_isVoid hx, isNaN_of_isVoid hy⟩]
  le_iff hx hy := by
    rw [single_le_iff, and_iff_right ⟨isNaN_of_isVoid hx, isNaN_of_isVoid hy⟩]
  beq_iff hx hy := by
    rw [single_beq_iff, and_iff_right ⟨isNaN_of_isVoid hx, isNaN_of_isVoid hy⟩]

noncomputable instance rankedDouble : Ranked Float where
  rank := value
  lt_iff hx hy := lt_iff_of_number (isNaN_of_isVoid_double hx) (isNaN_of_isVoid_double hy)
  le_iff hx hy := le_iff_of_number (isNaN_of_isVoid_double hx) (isNaN_of_isVoid_double hy)
  beq_iff hx hy := by
    rw [beq_iff, and_iff_right ⟨isNaN_of_isVoid_double hx, isNaN_of_isVoid_double hy⟩]

section Known

variable {τ : Type} [Sample τ] {cells others : List τ} {v : τ}

def known (cells : List τ) : List τ :=
  cells.filter fun v => !Sample.isVoid v

theorem mem_known : v ∈ known cells ↔ v ∈ cells ∧ Sample.isVoid v = false := by
  rw [known, List.mem_filter, Bool.not_eq_true']

theorem known_append : known (cells ++ others) = known cells ++ known others :=
  List.filter_append ..

theorem known_eq_nil : known cells = [] ↔ ∀ v ∈ cells, Sample.isVoid v = true := by
  simp only [known, List.filter_eq_nil_iff, Bool.not_eq_true', Bool.not_eq_false]

end Known

section Fold

variable {τ : Type} [Sample τ] [LT τ] [LE τ] [BEq τ] [Ranked τ] {cells : List τ} {v : τ}

noncomputable def Statistics.ofKnown (cells : List τ) : Statistics τ :=
  ⟨cells.argmin Ranked.rank, cells.argmax Ranked.rank, cells.length, 0⟩

variable [DecidableLT τ]

theorem argmin_concat (hcells : ∀ m ∈ cells, Sample.isVoid m = false)
    (hv : Sample.isVoid v = false) :
    (if (cells.argmin Ranked.rank).all (v < ·) then some v else cells.argmin Ranked.rank) =
      (cells ++ [v]).argmin Ranked.rank := by
  rw [List.argmin_concat]
  cases hm : cells.argmin Ranked.rank with
  | none => rfl
  | some m =>
    have hlt := Ranked.lt_iff hv (hcells m (List.argmin_mem hm))
    simp only [Option.all_some, decide_eq_true_eq, hlt]

theorem argmax_concat (hcells : ∀ m ∈ cells, Sample.isVoid m = false)
    (hv : Sample.isVoid v = false) :
    (if (cells.argmax Ranked.rank).all (· < v) then some v else cells.argmax Ranked.rank) =
      (cells ++ [v]).argmax Ranked.rank := by
  rw [List.argmax_concat]
  cases hm : cells.argmax Ranked.rank with
  | none => rfl
  | some m =>
    have hlt := Ranked.lt_iff (hcells m (List.argmax_mem hm)) hv
    simp only [Option.all_some, decide_eq_true_eq, hlt]

theorem Statistics.add_ofKnown (hcells : ∀ m ∈ cells, Sample.isVoid m = false)
    (hv : Sample.isVoid v = false) : (ofKnown cells).add v = ofKnown (cells ++ [v]) := by
  rw [add, ofKnown, ofKnown, argmin_concat hcells hv, argmax_concat hcells hv, List.length_append,
    List.length_singleton]

theorem foldl_add_eq (cells : List τ) :
    cells.foldl (fun s v => if Sample.isVoid v then s else s.add v)
      (⟨none, none, 0, 0⟩ : Statistics τ) = .ofKnown (known cells) := by
  induction cells using List.reverseRecOn with
  | nil => rfl
  | append_singleton cells v ih =>
    rw [List.foldl_concat, ih, known_append]
    cases hv : Sample.isVoid v with
    | true =>
      have hnil : known [v] = [] := by simp [known, hv]
      rw [hnil, List.append_nil, if_pos rfl]
    | false =>
      have hsingle : known [v] = [v] := by simp [known, hv]
      rw [hsingle, if_neg Bool.false_ne_true]
      apply Statistics.add_ofKnown _ hv
      intro m hm
      exact (mem_known.1 hm).2

theorem Raster.statistics_eq_ofKnown (r : Raster τ) : r.statistics =
    { Statistics.ofKnown (known r.cells.toList) with
      void := r.cells.size - (known r.cells.toList).length } := by
  rw [statistics, ← Array.foldl_toList, foldl_add_eq]
  rfl

end Fold

section Summary

variable {τ : Type} [Sample τ] {le : τ → τ → Prop} {cells others : List τ} {a b : Option τ}

/-- One of the cells that are no voids, preferred to every other one; none if all are voids. -/
structure Extreme (le : τ → τ → Prop) (cells : List τ) (chosen : Option τ) : Prop where
  eq_none_iff : chosen = none ↔ ∀ v ∈ cells, Sample.isVoid v = true
  mem : ∀ m, chosen = some m → m ∈ cells ∧ Sample.isVoid m = false
  le : ∀ m, chosen = some m → ∀ v ∈ cells, Sample.isVoid v = false → le m v

theorem Extreme.beq [BEq τ] (ha : Extreme le cells a) (hb : Extreme le others b)
    (h : cells.Perm others)
    (hle : ∀ {m n}, Sample.isVoid m = false → Sample.isVoid n = false → le m n → le n m →
      (m == n) = true) : (a == b) = true := by
  have hnone : a = none ↔ b = none := by
    rw [ha.eq_none_iff, hb.eq_none_iff]
    exact forall_congr' fun v => imp_congr_left h.mem_iff
  cases a with
  | none =>
    rw [hnone.1 rfl]
    rfl
  | some m =>
    cases b with
    | none => cases hnone.2 rfl
    | some n =>
      obtain ⟨hmem, hm⟩ := ha.mem m rfl
      obtain ⟨hmem', hn⟩ := hb.mem n rfl
      apply hle hm hn
      · exact ha.le m rfl n (h.mem_iff.2 hmem') hn
      · exact hb.le n rfl m (h.mem_iff.1 hmem) hm

variable [LT τ] [LE τ] [BEq τ]

/-- What a summary says of cells: how many mark voids and how many do not, and the bounds of those
that do not. -/
structure Statistics.Describes (s : Statistics τ) (cells : List τ) : Prop where
  valid : s.valid = cells.countP fun v => !Sample.isVoid v
  total : s.valid + s.void = cells.length
  lowest : Extreme (· ≤ ·) cells s.lowest
  highest : Extreme (· ≥ ·) cells s.highest

/-- Summaries with the same counts whose bounds are equal as numbers. -/
structure Statistics.Agrees (s t : Statistics τ) : Prop where
  valid : s.valid = t.valid
  void : s.void = t.void
  lowest : (s.lowest == t.lowest) = true
  highest : (s.highest == t.highest) = true

variable [Ranked τ]

theorem Ranked.beq_of_le_of_le {m n : τ} (hm : Sample.isVoid m = false)
    (hn : Sample.isVoid n = false) (h : m ≤ n) (h' : n ≤ m) : (m == n) = true := by
  rw [le_iff hm hn] at h
  rw [le_iff hn hm] at h'
  exact (beq_iff hm hn).2 (le_antisymm h h')

theorem Statistics.Describes.agrees {s t : Statistics τ} (hs : s.Describes cells)
    (ht : t.Describes others) (h : cells.Perm others) : s.Agrees t := by
  have hvalid : s.valid = t.valid := by
    rw [hs.valid, ht.valid]
    exact h.countP_eq _
  have hlength := h.length_eq
  rw [← hs.total, ← ht.total, hvalid] at hlength
  refine ⟨hvalid, Nat.add_left_cancel hlength, ?_, ?_⟩
  · exact hs.lowest.beq ht.lowest h Ranked.beq_of_le_of_le
  · apply hs.highest.beq ht.highest h
    intro m n hm hn hge hle
    exact Ranked.beq_of_le_of_le hm hn hle hge

variable [DecidableLT τ]

theorem Raster.describes_statistics (r : Raster τ) :
    r.statistics.Describes r.cells.toList := by
  have hlength : (known r.cells.toList).length ≤ r.cells.size := List.length_filter_le _ _
  rw [statistics_eq_ofKnown, Statistics.ofKnown]
  refine ⟨List.countP_eq_length_filter.symm, Nat.add_sub_cancel' hlength, ?_, ?_⟩
  · constructor
    · rw [List.argmin_eq_none, known_eq_nil]
    · intro m hm
      exact mem_known.1 (List.argmin_mem hm)
    · intro m hm v hmem hv
      rw [Ranked.le_iff (mem_known.1 (List.argmin_mem hm)).2 hv]
      exact List.le_of_mem_argmin (mem_known.2 ⟨hmem, hv⟩) hm
  · constructor
    · rw [List.argmax_eq_none, known_eq_nil]
    · intro m hm
      exact mem_known.1 (List.argmax_mem hm)
    · intro m hm v hmem hv
      rw [ge_iff_le, Ranked.le_iff hv (mem_known.1 (List.argmax_mem hm)).2]
      exact List.le_of_mem_argmax (mem_known.2 ⟨hmem, hv⟩) hm

/-- The summary of a raster describes its cells, and the same cells in any other order have one that
agrees with it. -/
structure Raster.Summarized (r : Raster τ) : Prop where
  describes : r.statistics.Describes r.cells.toList
  agrees : ∀ other : Raster τ, r.cells.toList.Perm other.cells.toList →
    r.statistics.Agrees other.statistics

theorem Raster.isVoid_of_bound (r : Raster τ) {m : τ}
    (h : m ∈ r.statistics.lowest ∨ m ∈ r.statistics.highest) : Sample.isVoid m = false := by
  rcases h with h | h
  · exact (r.describes_statistics.lowest.mem m h).2
  · exact (r.describes_statistics.highest.mem m h).2

theorem Raster.summarized (r : Raster τ) : r.Summarized := by
  refine ⟨r.describes_statistics, ?_⟩
  intro other h
  exact r.describes_statistics.agrees other.describes_statistics h

end Summary

namespace Raster

/-- Rasters of either precision are summed up exactly, and no bound is a void or not a number. -/
theorem statistics_summarize :
    (∀ r : Raster Float32, r.Summarized ∧
      ∀ m, m ∈ r.statistics.lowest ∨ m ∈ r.statistics.highest →
        Sample.isVoid m = false ∧ m.isNaN = false) ∧
    ∀ r : Raster Float, r.Summarized ∧
      ∀ m, m ∈ r.statistics.lowest ∨ m ∈ r.statistics.highest →
        Sample.isVoid m = false ∧ m.isNaN = false := by
  constructor
  · intro r
    refine ⟨r.summarized, ?_⟩
    intro m hm
    have hv := r.isVoid_of_bound hm
    exact ⟨hv, isNaN_of_isVoid hv⟩
  · intro r
    refine ⟨r.summarized, ?_⟩
    intro m hm
    have hv := r.isVoid_of_bound hm
    exact ⟨hv, isNaN_of_isVoid_double hv⟩

/-- Three voids, an infinity and both zeros in two orders. The lowest cell is the zero that comes
first, and the two zeros are one number. -/
theorem statistics_summarize_zeros :
    let r : Raster Float32 := ⟨⟨2, 3⟩, #[0.0 / 0.0, 0.0, Sample.void, 1.0 / 0.0, -0.0, -1.0e38],
      ⟨0.0, 3.0, 0.0, 2.0⟩, rfl, by decide⟩
    let other : Raster Float32 :=
      ⟨⟨6, 1⟩, #[-0.0, 0.0, 0.0 / 0.0, Sample.void, -1.0e38, 1.0 / 0.0],
        ⟨0.0, 1.0, 0.0, 6.0⟩, rfl, by decide⟩
    r.cells.toList.Perm other.cells.toList ∧ r.statistics.lowest = some 0.0 ∧
      other.statistics.lowest = some (-0.0) ∧ r.statistics.highest = some (1.0 / 0.0) ∧
      r.statistics.valid = 3 ∧ r.statistics.void = 3 ∧ r.statistics.Agrees other.statistics := by
  intro r other
  have hperm : r.cells.toList.Perm other.cells.toList := by decide +kernel
  obtain ⟨hsummary, -⟩ := statistics_summarize.1 r
  exact ⟨hperm, by decide +kernel, by decide +kernel, by decide +kernel, by decide +kernel,
    by decide +kernel, hsummary.agrees other hperm⟩

section Terrain

variable {r : Raster Float32} {c : Cell} {z : Float}

theorem void_statistics (r : Raster Float32) :
    r.statistics.void = r.cells.countP Sample.isVoid := by
  have hsummary := r.describes_statistics
  have hsize : r.cells.toList.length = r.cells.toList.countP Sample.isVoid +
      r.cells.toList.countP fun v => !Sample.isVoid v := by
    simpa only [Bool.not_eq_true, Bool.decide_eq_false] using
      List.length_eq_countP_add_countP Sample.isVoid (l := r.cells.toList)
  rw [← hsummary.total, hsummary.valid, Nat.add_comm] at hsize
  rw [← Array.countP_toList]
  exact Nat.add_right_cancel hsize

theorem exists_of_height (h : r.terrain.height c = some z) :
    ∃ v ∈ r.cells, Sample.isVoid v = false ∧ z = widen v := by
  unfold terrain at h
  dsimp only at h
  split_ifs at h
  rw [Array.getElem?_map, Option.join_eq_some_iff, Option.map_eq_some_iff] at h
  obtain ⟨v, hv, hz⟩ := h
  split_ifs at hz with hvoid
  exact ⟨v, Array.mem_of_getElem? hv, eq_false_of_ne_true hvoid, (Option.some.inj hz).symm⟩

theorem value_height (h : r.terrain.height c = some z) :
    z.isNaN = false ∧ value z ≠ ⊥ := by
  obtain ⟨v, -, hv, rfl⟩ := exists_of_height h
  obtain ⟨hn, hval⟩ := value_widen (isNaN_of_isVoid hv)
  exact ⟨hn, hval ▸ singleValue_of_isVoid hv⟩

theorem height_le_highest (h : r.terrain.height c = some z) :
    ∃ m, r.statistics.highest.map Sample.toFloat = some m ∧ m.isNaN = false ∧
      value z ≤ value m := by
  obtain ⟨v, hmem, hv, rfl⟩ := exists_of_height h
  have hhighest := r.describes_statistics.highest
  cases hm : r.statistics.highest with
  | none =>
    rw [hhighest.eq_none_iff.1 hm v hmem.val] at hv
    cases hv
  | some m =>
    have hn := isNaN_of_isVoid (hhighest.mem m hm).2
    have hle : v ≤ m := hhighest.le m hm v hmem.val hv
    obtain ⟨hnw, hvw⟩ := value_widen hn
    refine ⟨widen m, rfl, hnw, ?_⟩
    rw [hvw, (value_widen (isNaN_of_isVoid hv)).2]
    exact (single_le_iff.1 hle).2

end Terrain

end Raster

end Relief
