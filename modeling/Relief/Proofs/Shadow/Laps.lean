import Relief.Proofs.Shadow.Sweep

namespace Relief.Shadow

section Phases

variable {β : Type} [DivisionRing β] [LinearOrder β] {fall : β} {zs zs' : ℕ → Option β}
  {i j k lap a b : ℕ} {bound : WithBot β}

theorem horizonAt_le (h : ∀ j < k, ∀ z, zs j = some z →
    ((z - (k - j : ℕ) * fall : β) : WithBot β) ≤ bound) : horizonAt fall zs k ≤ bound := by
  refine Finset.sup_le fun j hj => ?_
  cases hz : zs j with
  | none => exact bot_le
  | some z => exact h j (Finset.mem_range.1 hj) z hz

theorem le_horizonAt (fall : β) (hj : j < k) (hz : zs j = some z) :
    ((z - (k - j : ℕ) * fall : β) : WithBot β) ≤ horizonAt fall zs k := by
  refine le_of_eq_of_le ?_ (Finset.le_sup (Finset.mem_range.2 hj))
  rw [hz]
  rfl

theorem horizonAt_congr (h : ∀ j < k, zs j = zs' j) :
    horizonAt fall zs k = horizonAt fall zs' k :=
  Finset.sup_congr rfl fun j hj => by rw [h j (Finset.mem_range.1 hj)]

theorem liesBelow_congr (fall : β) (h : ∀ j ≤ k, zs j = zs' j) :
    LiesBelow fall zs k ↔ LiesBelow fall zs' k := by
  rw [LiesBelow, LiesBelow, h k le_rfl, horizonAt_congr fun j hj => h j hj.le]

theorem markAt_congr (h : ∀ j ≤ k, zs j = zs' j) : markAt fall zs k = markAt fall zs' k := by
  have hbelow := liesBelow_congr fall h
  have hbefore := liesBelow_congr fall fun j (hj : j ≤ k - 1) => h j (hj.trans (k.sub_le 1))
  classical
  simp only [markAt, h k le_rfl, horizonAt_congr fun j hj => h j hj.le, hbelow, hbefore]

theorem markAt_eq_none_iff :
    markAt fall zs k = none ↔ ∃ z, zs k = some z ∧ ¬ LiesBelow fall zs k := by
  rw [markAt]
  cases zs k with
  | none => simp
  | some z => simp

/-- Two rays that go round the same terrain, of which the one is `a` and the other `b` steps past
the same place when they start. -/
def InPhase (lap a b : ℕ) (zs zs' : ℕ → Option β) : Prop :=
  ∀ i j, i + a ≡ j + b [MOD lap] → zs i = zs' j

omit [DivisionRing β] [LinearOrder β] in
theorem InPhase.symm (h : InPhase lap a b zs zs') : InPhase lap b a zs' zs :=
  fun i j hij => (h j i hij.symm).symm

variable [IsStrictOrderedRing β]

theorem InPhase.horizonAt_le (h : InPhase lap a b zs zs') (hlap : 0 < lap) (hfall : 0 ≤ fall)
    (hij : i + a ≡ j + b [MOD lap]) (hj : lap ≤ j) :
    horizonAt fall zs i ≤ horizonAt fall zs' j := by
  refine Shadow.horizonAt_le fun i' hi' z hz => ?_
  -- the same terrain has been met within the last lap
  obtain ⟨d, hd⟩ : ∃ d, d = (i - i' - 1) % lap + 1 := ⟨_, rfl⟩
  have hd1 : d ≤ lap := hd ▸ Nat.mod_lt _ hlap
  have hd2 : d ≤ i - i' := by
    have := Nat.mod_le (i - i' - 1) lap
    omega
  have hmod : d ≡ i - i' [MOD lap] := by
    have h1 : (i - i' - 1) % lap + 1 ≡ i - i' - 1 + 1 [MOD lap] := (Nat.mod_modEq _ _).add_right 1
    rwa [← hd, Nat.sub_add_cancel (by omega)] at h1
  have hplace : i' + a ≡ j - d + b [MOD lap] := by
    refine Nat.ModEq.add_right_cancel hmod.symm ?_
    rw [show i' + a + (i - i') = i + a by omega, show j - d + b + d = j + b by omega]
    exact hij
  have hz' : zs' (j - d) = some z := (h i' (j - d) hplace).symm.trans hz
  refine le_trans (WithBot.coe_le_coe.2 (sub_le_sub_left ?_ z)) (le_horizonAt fall (by omega) hz')
  exact mul_le_mul_of_nonneg_right (Nat.cast_le.2 (by omega)) hfall

theorem InPhase.horizonAt_eq (h : InPhase lap a b zs zs') (hlap : 0 < lap) (hfall : 0 ≤ fall)
    (hij : i + a ≡ j + b [MOD lap]) (hi : lap ≤ i) (hj : lap ≤ j) :
    horizonAt fall zs i = horizonAt fall zs' j :=
  le_antisymm (h.horizonAt_le hlap hfall hij hj) (h.symm.horizonAt_le hlap hfall hij.symm hi)

theorem InPhase.liesBelow (h : InPhase lap a b zs zs') (hlap : 0 < lap) (hfall : 0 ≤ fall)
    (hij : i + a ≡ j + b [MOD lap]) (hj : lap ≤ j) (hb : LiesBelow fall zs i) :
    LiesBelow fall zs' j := by
  obtain ⟨z, hz, hlt⟩ := hb
  exact ⟨z, (h i j hij).symm.trans hz, hlt.trans_le (h.horizonAt_le hlap hfall hij hj)⟩

theorem InPhase.liesBelow_iff (h : InPhase lap a b zs zs') (hlap : 0 < lap) (hfall : 0 ≤ fall)
    (hij : i + a ≡ j + b [MOD lap]) (hi : lap ≤ i) (hj : lap ≤ j) :
    LiesBelow fall zs i ↔ LiesBelow fall zs' j :=
  ⟨h.liesBelow hlap hfall hij hj, h.symm.liesBelow hlap hfall hij.symm hi⟩

/-- After the first lap two rays leave the same marks. -/
theorem InPhase.markAt_eq (h : InPhase lap a b zs zs') (hlap : 0 < lap) (hfall : 0 ≤ fall)
    (hij : i + a ≡ j + b [MOD lap]) (hi : lap < i) (hj : lap < j) :
    markAt fall zs i = markAt fall zs' j := by
  have hbefore : i - 1 + a ≡ j - 1 + b [MOD lap] := by
    refine Nat.ModEq.add_right_cancel' 1 ?_
    rw [show i - 1 + a + 1 = i + a by omega, show j - 1 + b + 1 = j + b by omega]
    exact hij
  have hbelow := h.liesBelow_iff hlap hfall hbefore (Nat.le_sub_one_of_lt hi)
    (Nat.le_sub_one_of_lt hj)
  have hnow := h.liesBelow_iff hlap hfall hij hi.le hj.le
  classical
  simp only [markAt, h i j hij, h.horizonAt_eq hlap hfall hij hi.le hj.le, hnow, hbelow,
    Nat.zero_lt_of_lt hi, Nat.zero_lt_of_lt hj]

theorem InPhase.markAt_eq_none (h : InPhase lap a b zs zs') (hlap : 0 < lap) (hfall : 0 ≤ fall)
    (hij : i + a ≡ j + b [MOD lap]) (hj : lap ≤ j) (hnone : markAt fall zs' j = none) :
    markAt fall zs i = none := by
  obtain ⟨z, hz, hlit⟩ := markAt_eq_none_iff.1 hnone
  exact markAt_eq_none_iff.2
    ⟨z, (h i j hij).trans hz, fun hb => hlit (h.liesBelow hlap hfall hij hj hb)⟩

end Phases

section Laps

variable {β : Type} [DivisionRing β] [LinearOrder β] {fall : β} {w : ℕ → Option β}
  {m n j q x y start : ℕ}

theorem ceilDiv_eq_iff (hm : 0 < m) : j ⌈/⌉ m = q ↔ j ≤ m * q ∧ m * q < j + m := by
  have hdiv := Nat.div_add_mod (j + m - 1) m
  have hmod := Nat.mod_lt (j + m - 1) hm
  rw [← Nat.ceilDiv_eq_add_pred_div] at hdiv
  constructor
  · rintro rfl
    omega
  · rintro ⟨hle, hlt⟩
    refine le_antisymm ((ceilDiv_le_iff_le_mul hm).2 hle) ?_
    refine Nat.le_of_lt_succ (Nat.lt_of_mul_lt_mul_left (a := m) ?_)
    rw [Nat.mul_succ]
    omega

theorem ceilDiv_add_mul (hm : 0 < m) (j a : ℕ) : (j + m * a) ⌈/⌉ m = j ⌈/⌉ m + a := by
  obtain ⟨hle, hlt⟩ := (ceilDiv_eq_iff hm).1 (rfl : j ⌈/⌉ m = _)
  rw [ceilDiv_eq_iff hm, mul_add]
  omega

theorem ceilDiv_modEq (hm : 0 < m) (h : x ≡ y [MOD m * n]) : x ⌈/⌉ m ≡ y ⌈/⌉ m [MOD n] := by
  have hpred : x + (m - 1) ≡ y + (m - 1) [MOD m * n] := h.add_right _
  rw [Nat.ceilDiv_eq_add_pred_div, Nat.ceilDiv_eq_add_pred_div, Nat.add_sub_assoc hm,
    Nat.add_sub_assoc hm, Nat.ModEq, ← Nat.mod_mul_right_div_self, hpred,
    Nat.mod_mul_right_div_self]

omit [DivisionRing β] [LinearOrder β] in
theorem getLast?_filterMap_part {g : ℕ → Option β} (hn : start + m ≤ n)
    (hafter : ∀ j, start + m ≤ j → j < n → g j = none)
    (hbefore : (∀ t < m, g (start + t) = none) → ∀ j < start, g j = none) :
    ((List.range n).filterMap g).getLast? =
      ((List.range m).filterMap fun t => g (start + t)).getLast? := by
  obtain ⟨rest, rfl⟩ := Nat.exists_eq_add_of_le hn
  have hrest : (List.range rest).filterMap (fun t => g (start + m + t)) = [] := by
    refine List.filterMap_eq_nil_iff.2 fun t ht => hafter _ (Nat.le_add_right _ _) ?_
    exact Nat.add_lt_add_left (List.mem_range.1 ht) _
  rw [List.range_add, List.range_add, List.filterMap_append, List.filterMap_append,
    List.filterMap_map, List.filterMap_map]
  change (_ ++ (List.range m).filterMap (fun t => g (start + t)) ++
    (List.range rest).filterMap fun t => g (start + m + t)).getLast? = _
  rw [hrest, List.append_nil, List.getLast?_append]
  cases hpart : ((List.range m).filterMap fun t => g (start + t)).getLast? with
  | some v => rfl
  | none =>
    rw [List.getLast?_eq_none_iff, List.filterMap_eq_nil_iff] at hpart
    have hstart : (List.range start).filterMap g = [] := List.filterMap_eq_nil_iff.2 fun j hj =>
      hbefore (fun t ht => hpart t (List.mem_range.2 ht)) j (List.mem_range.1 hj)
    rw [hstart]
    rfl

/-- The heights that a ray meets which takes `m` steps to a column and starts `a` columns past the
place from which the columns are counted. -/
def heightsAhead (w : ℕ → Option β) (m a j : ℕ) : Option β :=
  w (j ⌈/⌉ m + a)

/-- What such a ray marks in column `q` on two laps round `n` columns. -/
noncomputable def lapMarks (fall : β) (w : ℕ → Option β) (m n a q : ℕ) : List β :=
  (List.range (2 * (m * n) + 1)).filterMap fun j =>
    if j ⌈/⌉ m + a ≡ q [MOD n] then markAt fall (heightsAhead w m a) j else none

omit [DivisionRing β] [LinearOrder β] in
theorem inPhase_heightsAhead (hper : w.Periodic n) (hm : 0 < m) (a b : ℕ) :
    InPhase (m * n) (m * a) (m * b) (heightsAhead w m a) (heightsAhead w m b) := by
  intro i j hij
  have hmod := ceilDiv_modEq hm hij
  rw [ceilDiv_add_mul hm, ceilDiv_add_mul hm] at hmod
  rw [heightsAhead, heightsAhead, ← hper.map_mod_nat, hmod, hper.map_mod_nat]

variable [IsStrictOrderedRing β]

theorem exists_second_lap (hn : 0 < n) (a q : ℕ) :
    ∃ p, n ≤ p ∧ p < 2 * n ∧ p + 1 + a ≡ q [MOD n] := by
  refine ⟨n + (q + (1 + a) * (n - 1)) % n, Nat.le_add_right _ _, ?_, ?_⟩
  · have := Nat.mod_lt (q + (1 + a) * (n - 1)) hn
    omega
  · obtain ⟨n, rfl⟩ := Nat.exists_eq_add_of_le' hn
    calc n + 1 + (q + (1 + a) * n) % (n + 1) + 1 + a
        = n + 1 + ((q + (1 + a) * n) % (n + 1) + (1 + a)) := by ring
      _ ≡ (q + (1 + a) * n) % (n + 1) + (1 + a) [MOD n + 1] := Nat.add_modEq_left
      _ ≡ q + (1 + a) * n + (1 + a) [MOD n + 1] := (Nat.mod_modEq _ _).add_right _
      _ = q + (1 + a) * (n + 1) := by ring
      _ ≡ q [MOD n + 1] := Nat.add_mul_modulus_modEq_iff.2 rfl

theorem getLast?_lapMarks (hper : w.Periodic n) (hm : 0 < m) (hn : 0 < n) (hfall : 0 ≤ fall)
    (a q : ℕ) : ∃ p, n ≤ p ∧ p + 1 + a ≡ q [MOD n] ∧
      (lapMarks fall w m n a q).getLast? =
        ((List.range m).filterMap fun t =>
          markAt fall (heightsAhead w m a) (m * p + 1 + t)).getLast? := by
  obtain ⟨p, hle, hlt, hp⟩ := exists_second_lap hn a q
  have hlap : m * n ≤ m * p := Nat.mul_le_mul_left m hle
  have hend : m * (p + 1) ≤ m * (2 * n) := Nat.mul_le_mul_left m hlt
  rw [Nat.mul_succ, Nat.mul_left_comm] at hend
  have hcol {t : ℕ} (ht : t < m) : (m * p + 1 + t) ⌈/⌉ m = p + 1 := by
    rw [ceilDiv_eq_iff hm, Nat.mul_succ]
    omega
  have hblock (t : ℕ) (ht : t < m) : (if (m * p + 1 + t) ⌈/⌉ m + a ≡ q [MOD n] then
      markAt fall (heightsAhead w m a) (m * p + 1 + t) else none) =
        markAt fall (heightsAhead w m a) (m * p + 1 + t) := by
    rw [hcol ht, if_pos hp]
  refine ⟨p, hle, hp, (getLast?_filterMap_part (by omega) ?_ ?_).trans
    (congrArg _ (List.filterMap_congr fun t ht => hblock t (List.mem_range.1 ht)))⟩
  · -- the ray is not back in the column before the lap ends
    intro j hj hjn
    refine if_neg fun hc => ?_
    obtain ⟨hup, hlow⟩ := (ceilDiv_eq_iff hm).1 (rfl : j ⌈/⌉ m = _)
    have hahead : p + 1 < j ⌈/⌉ m := by
      refine Nat.lt_of_mul_lt_mul_left (a := m) ?_
      rw [Nat.mul_succ]
      omega
    have hwithin : j ⌈/⌉ m ≤ 2 * n := by
      rw [ceilDiv_le_iff_le_mul hm, Nat.mul_left_comm]
      omega
    have hdvd := (Nat.modEq_iff_dvd' hahead.le).1
      (Nat.ModEq.add_right_cancel' a (hp.trans hc.symm))
    have := Nat.le_of_dvd (Nat.sub_pos_of_lt hahead) hdvd
    omega
  · -- a visit on the first lap has its like on the second
    intro hnone j hj
    split_ifs with hc
    · obtain ⟨hup, hlow⟩ := (ceilDiv_eq_iff hm).1 (rfl : j ⌈/⌉ m = _)
      obtain ⟨t, ht, hrest⟩ : ∃ t < m, j + (m - 1 - t) = m * (j ⌈/⌉ m) :=
        ⟨m - 1 - (m * (j ⌈/⌉ m) - j), by omega, by omega⟩
      have hsame : j + m * a ≡ m * p + 1 + t + m * a [MOD m * n] := by
        refine Nat.ModEq.add_right_cancel' (m - 1 - t) ?_
        have hmul : m * (j ⌈/⌉ m + a) ≡ m * (p + 1 + a) [MOD m * n] :=
          (hc.trans hp.symm).mul_left' m
        rw [mul_add, mul_add, Nat.mul_succ] at hmul
        convert hmul using 1 <;> omega
      refine (inPhase_heightsAhead hper hm a a).markAt_eq_none (Nat.mul_pos hm hn) hfall hsame
        (by omega) ?_
      rw [← hblock t ht]
      exact hnone t ht
    · rfl

/-- Two laps leave the same last marks from wherever the ray starts. -/
theorem getLast?_lapMarks_eq (hper : w.Periodic n) (hm : 0 < m) (hn : 0 < n) (hfall : 0 ≤ fall)
    (a b q : ℕ) :
    (lapMarks fall w m n a q).getLast? = (lapMarks fall w m n b q).getLast? := by
  obtain ⟨p, hle, hp, hlast⟩ := getLast?_lapMarks hper hm hn hfall a q
  obtain ⟨p', hle', hp', hlast'⟩ := getLast?_lapMarks hper hm hn hfall b q
  have hlap : m * n ≤ m * p := Nat.mul_le_mul_left m hle
  have hlap' : m * n ≤ m * p' := Nat.mul_le_mul_left m hle'
  rw [hlast, hlast']
  refine congrArg _ (List.filterMap_congr fun t ht => ?_)
  have hsame : m * p + 1 + t + m * a ≡ m * p' + 1 + t + m * b [MOD m * n] := by
    have hcols : p + a ≡ p' + b [MOD n] := by
      refine Nat.ModEq.add_right_cancel' 1 ?_
      rw [Nat.add_right_comm, Nat.add_right_comm p']
      exact hp.trans hp'.symm
    have hmul := ((hcols.mul_left' m).add_right (1 + t))
    rw [mul_add, mul_add] at hmul
    convert hmul using 1 <;> ring
  exact (inPhase_heightsAhead hper hm a b).markAt_eq (Nat.mul_pos hm hn) hfall hsame (by omega)
    (by omega)

end Laps

end Relief.Shadow
