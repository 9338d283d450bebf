import Relief.Proofs.Exact

namespace Relief

open Binary

variable {shape : Shape} {p : Position Float} {c : Cell}

theorem Shape.contains_of_nearest (h : shape.nearest p = some c) : shape.Contains c := by
  unfold Shape.nearest at h
  dsimp only at h
  split_ifs at h with hc
  obtain ⟨hr, hl, hr', hl'⟩ := hc
  obtain rfl := Option.some.inj h
  exact ⟨toNat_toInt_lt hr hr', toNat_toInt_lt hl hl'⟩

theorem Shape.contains_of_nearestWrapped (h : shape.nearestWrapped p = some c)
    (hc : 0 < shape.cols) : shape.Contains c := by
  unfold Shape.nearestWrapped at h
  dsimp only at h
  split_ifs at h with hr
  obtain rfl := Option.some.inj h
  have hpos : 0 < (shape.cols : ℤ) := Nat.cast_pos.2 hc
  have h0 := Int.emod_nonneg (Whole.toInt (Whole.nearest p.x)) hpos.ne'
  have h1 := Int.emod_lt_of_pos (Whole.toInt (Whole.nearest p.x)) hpos
  exact ⟨toNat_toInt_lt hr.1 hr.2, by dsimp only; omega⟩

/-- A place is on a line of so many cells if its nearest whole number counts one of them. -/
def OnLine (count : ℕ) (x : Float) : Prop :=
  x.isFinite = true ∧ 0 ≤ halfAway (number x) ∧
    ((halfAway (number x) : ℝ) : EReal) < value (count : Float)

theorem onLine_iff {count : ℕ} {x : Float} :
    0.0 ≤ nearest x ∧ nearest x < (count : Float) ↔ OnLine count x := by
  constructor
  · rintro ⟨h0, h1⟩
    obtain ⟨⟨-, hn⟩, hle⟩ := le_iff.1 h0
    have hlt := (lt_iff.1 h1).2
    rw [value_zero] at hle
    have hf : x.isFinite = true := by
      by_contra hf
      rw [nearest_of_not_isFinite hf] at hn hle hlt
      exact hf (isFinite_iff.2
        ⟨hn, ne_bot_of_gt (EReal.bot_lt_zero.trans_le hle), ne_top_of_lt hlt⟩)
    obtain ⟨hnf, hnn⟩ := number_nearest hf
    rw [value_of_isFinite hnf, hnn] at hle hlt
    exact ⟨hf, by exact_mod_cast hle, hlt⟩
  · rintro ⟨hf, h0, h1⟩
    obtain ⟨hnf, hnn⟩ := number_nearest hf
    rw [← hnn, ← value_of_isFinite hnf] at h1
    refine ⟨?_, lt_iff.2 ⟨⟨isNaN_of_isFinite hnf, (value_natCast count).1⟩, h1⟩⟩
    rw [le_iff_number isFinite_zero hnf, number_zero, hnn]
    exact_mod_cast h0

theorem OnLine.congr {count : ℕ} {x y : Float} (h : OnLine count x) (hy : y.isNaN = false)
    (hv : value y = value x) : OnLine count y := by
  obtain ⟨hf, h0, h1⟩ := h
  obtain ⟨hyf, hyn⟩ := isFinite_of_value_eq hy (hv.trans (value_of_isFinite hf))
  exact ⟨hyf, hyn ▸ h0, hyn ▸ h1⟩

theorem Shape.isSome_nearest_iff :
    (shape.nearest p).isSome ↔ OnLine shape.rows p.y ∧ OnLine shape.cols p.x := by
  rw [← onLine_iff, ← onLine_iff]
  unfold Shape.nearest
  dsimp only
  split_ifs with h
  · exact iff_of_true rfl ⟨⟨h.1, h.2.2.1⟩, h.2.1, h.2.2.2⟩
  · apply iff_of_false (by simp)
    rintro ⟨⟨h₁, h₂⟩, h₃, h₄⟩
    exact h ⟨h₁, h₃, h₂, h₄⟩

theorem Shape.nearest_eq_some (h : shape.nearest p = some c) :
    OnLine shape.rows p.y ∧ OnLine shape.cols p.x ∧
      c = ⟨(toInt (Binary.nearest p.y)).toNat, (toInt (Binary.nearest p.x)).toNat⟩ := by
  obtain ⟨hy, hx⟩ := Shape.isSome_nearest_iff.1 (Option.isSome_of_eq_some h)
  refine ⟨hy, hx, ?_⟩
  unfold Shape.nearest at h
  dsimp only at h
  split_ifs at h
  exact (Option.some.inj h).symm

theorem onLine_natCast {count k : ℕ} (h : k < count) (hk : k < 2 ^ 53) :
    OnLine count (k : Float) ∧ (toInt (nearest (k : Float))).toNat = k := by
  obtain ⟨hf, hn⟩ := number_natCast hk
  obtain ⟨hnf, hnn⟩ := number_nearest hf
  have hhalf : halfAway (number (k : Float)) = k := by
    rw [hn]
    exact_mod_cast halfAway_intCast k
  refine ⟨⟨hf, hhalf ▸ k.cast_nonneg, ?_⟩, toNat_toInt_eq hnf (by rw [hnn, hhalf]; rfl) (by omega)⟩
  -- the count may be rounded, but not to less than the next number
  have hmono : delivered .binary64 _ ≤ delivered .binary64 _ :=
    delivered_mono (EReal.coe_le_coe_iff.2 (Nat.cast_le (α := ℝ).2 h))
  rw [delivered_natCast_le hk] at hmono
  rw [hhalf, (value_natCast count).2]
  refine lt_of_lt_of_le ?_ hmono
  rw [EReal.coe_lt_coe_iff]
  push_cast
  linarith

theorem Shape.nearest_position (h : shape.Contains c)
    (hrow : c.row < 2 ^ 53) (hcol : c.col < 2 ^ 53) :
    shape.nearest (c.position : Position Float) = some c := by
  obtain ⟨hy, hny⟩ := onLine_natCast h.1 hrow
  obtain ⟨hx, hnx⟩ := onLine_natCast h.2 hcol
  obtain ⟨d, hd⟩ := Option.isSome_iff_exists.1
    (Shape.isSome_nearest_iff.2 (show OnLine _ (c.position : Position Float).y ∧ _ from ⟨hy, hx⟩))
  rw [hd, (Shape.nearest_eq_some hd).2.2]
  exact congrArg some (congrArg₂ Cell.mk hny hnx)

theorem onLine_iff_within {count : ℕ} (hc : count < 2 ^ 53) {x : Float} :
    OnLine count x ↔ x.isFinite = true ∧ Within count (number x) := by
  rw [OnLine, Within, (value_natCast count).2, delivered_natCast hc,
    EReal.coe_lt_coe_iff]
  exact and_congr_right fun _ => and_congr_right fun _ => by exact_mod_cast Iff.rfl

theorem Edges.contains_of_locate {edges : Edges} (hcols : 0 < shape.cols)
    (h : edges.locate shape p = some c) : shape.Contains c := by
  cases edges with
  | periodic => exact Shape.contains_of_nearestWrapped h hcols
  | bounded => exact Shape.contains_of_nearest h

theorem Edges.isSome_locate_iff {edges : Edges} :
    (edges.locate shape p).isSome ↔
      OnLine shape.rows p.y ∧ (edges = .bounded → OnLine shape.cols p.x) := by
  cases edges with
  | bounded =>
    rw [Edges.locate, Shape.isSome_nearest_iff]
    exact and_congr_right fun _ => ⟨fun h _ => h, fun h => h rfl⟩
  | periodic =>
    rw [Edges.locate, ← onLine_iff, Shape.nearestWrapped]
    split_ifs with h
    · exact iff_of_true rfl ⟨h, fun he => by cases he⟩
    · exact iff_of_false Bool.false_ne_true fun hc => h hc.1

end Relief
