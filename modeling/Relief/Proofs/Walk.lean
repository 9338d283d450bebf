import Mathlib
import Relief.Walk

namespace Relief

variable {ι σ : Type} {locate : ι → Option Cell} {next : ι → ι} {visit : ι → Cell → σ → Option σ}

/-- The cells of a walk that no visit ends. -/
def path (locate : ι → Option Cell) (next : ι → ι) : (steps : ℕ) → ι → List Cell
  | 0, _ => []
  | steps + 1, i =>
    match locate i with
    | none => []
    | some c => c :: path locate next steps (next i)

theorem path_getElem?_eq_some {n k : ℕ} {i : ι} {c : Cell} :
    (path locate next n i)[k]? = some c ↔
      k < n ∧ (∀ j < k, (locate (next^[j] i)).isSome) ∧ locate (next^[k] i) = some c := by
  induction n generalizing k i with
  | zero => simp [path]
  | succ n ih =>
    rw [path]
    cases h : locate i with
    | none =>
      cases k with
      | zero => simp [h]
      | succ k =>
        simp only [List.getElem?_nil, reduceCtorEq, false_iff]
        rintro ⟨-, hj, -⟩
        have := hj 0 k.succ_pos
        simp [h] at this
    | some d =>
      cases k with
      | zero => simp [h]
      | succ k =>
        rw [List.getElem?_cons_succ, ih, Nat.succ_lt_succ_iff, Function.iterate_succ_apply]
        refine and_congr_right fun _ => and_congr_left fun _ => ?_
        constructor
        · intro hj j hlt
          cases j with
          | zero => simp [h]
          | succ j => exact hj j (Nat.succ_lt_succ_iff.1 hlt)
        · intro hj j hlt
          exact hj (j + 1) (Nat.succ_lt_succ hlt)

theorem path_eq_map {f : Cell → Cell} {n : ℕ} {i j : ι}
    (h : ∀ k < n, locate (next^[k] j) = (locate (next^[k] i)).map f) :
    path locate next n j = (path locate next n i).map f := by
  induction n generalizing i j with
  | zero => rfl
  | succ n ih =>
    have h0 : locate j = (locate i).map f := h 0 n.succ_pos
    have hrest := ih (i := next i) (j := next j) fun k hk => h (k + 1) (Nat.succ_lt_succ hk)
    rw [path, path, h0]
    cases locate i with
    | none => rfl
    | some c => exact congrArg (f c :: ·) hrest

theorem path_eq_map_range {f : ℕ → Cell} {n : ℕ} {i : ι}
    (h : ∀ k < n, locate (next^[k] i) = some (f k)) :
    path locate next n i = (List.range n).map f := by
  induction n generalizing i f with
  | zero => rfl
  | succ n ih =>
    have h0 : locate i = some (f 0) := h 0 n.succ_pos
    have hrest := ih (i := next i) (f := f ∘ Nat.succ) fun k hk => h (k + 1) (Nat.succ_lt_succ hk)
    rw [path, h0, List.range_succ_eq_map, List.map_cons, List.map_map]
    exact congrArg (f 0 :: ·) hrest

theorem path_pairwise {R : Cell → Cell → Prop} (htrans : ∀ {a b c}, R a b → R b c → R a c)
    (hstep : ∀ {i c d}, locate i = some c → locate (next i) = some d → R c d) (n : ℕ) (i : ι) :
    (path locate next n i).Pairwise R := by
  induction n generalizing i with
  | zero => exact List.Pairwise.nil
  | succ n ih =>
    rw [path]
    cases hi : locate i with
    | none => exact List.Pairwise.nil
    | some c =>
      refine List.Pairwise.cons (fun d hd => ?_) (ih (next i))
      -- the first cell is before the second, and the second before the others
      cases n with
      | zero => cases hd
      | succ n =>
        have hrest := ih (next i)
        rw [path] at hd hrest
        cases hj : locate (next i) with
        | none =>
          rw [hj] at hd
          cases hd
        | some e =>
          rw [hj] at hd hrest
          rcases List.mem_cons.1 hd with rfl | hd
          · exact hstep hi hj
          · exact htrans (hstep hi hj) (List.rel_of_pairwise_cons hrest hd)

theorem path_isChain {R : Cell → Cell → Prop} {i : ι}
    (h : ∀ k c d, locate (next^[k] i) = some c → locate (next^[k + 1] i) = some d → R c d)
    (n : ℕ) : (path locate next n i).IsChain R := by
  rw [List.isChain_iff_getElem]
  intro k hk
  obtain ⟨-, -, hc⟩ := path_getElem?_eq_some.1 (List.getElem?_eq_getElem (Nat.lt_of_succ_lt hk))
  obtain ⟨-, -, hd⟩ := path_getElem?_eq_some.1 (List.getElem?_eq_getElem hk)
  exact h k _ _ hc hd

/-- A walk whose visits never end it folds over its path. -/
theorem walk_eq_foldl {P : σ → Prop} {f : σ → Cell → σ}
    (hvisit : ∀ i c s, P s → visit i c s = some (f s c)) (hkept : ∀ s c, P s → P (f s c))
    (n : ℕ) (i : ι) {s : σ} (hs : P s) :
    (walk locate next visit n i s).1 = (path locate next n i).foldl f s := by
  induction n generalizing i s with
  | zero => rfl
  | succ n ih =>
    rw [walk, path]
    cases locate i with
    | none => rfl
    | some c =>
      simp only [hvisit i c s hs, List.foldl_cons]
      exact ih (next i) (hkept s c hs)

/-- What the visits of a walk that none of them ends come upon. -/
def found {α : Type} (locate : ι → Option Cell) (next : ι → ι) (find : ι → Cell → Option α) :
    (steps : ℕ) → ι → List α
  | 0, _ => []
  | steps + 1, i =>
    match locate i with
    | none => []
    | some c => (find i c).toList ++ found locate next find steps (next i)

section Found

variable {α : Type} {find : ι → Cell → Option α}

theorem mem_found {n : ℕ} {i : ι} {a : α} : a ∈ found locate next find n i ↔
    ∃ k < n, (∀ j < k, (locate (next^[j] i)).isSome) ∧
      ∃ c, locate (next^[k] i) = some c ∧ find (next^[k] i) c = some a := by
  induction n generalizing i with
  | zero => simp [found]
  | succ n ih =>
    rw [found, Nat.exists_lt_succ_left]
    simp only [Nat.forall_lt_succ_left, Function.iterate_zero, id_eq, Function.iterate_succ_apply]
    cases h : locate i with
    | none => simp
    | some c => simp [ih]

theorem walk_eq_foldl_found {f : σ → α → σ}
    (hvisit : ∀ i c s, visit i c s = some ((find i c).elim s (f s))) (n : ℕ) (i : ι) (s : σ) :
    (walk locate next visit n i s).1 = (found locate next find n i).foldl f s := by
  induction n generalizing i s with
  | zero => rfl
  | succ n ih =>
    rw [walk, found]
    cases locate i with
    | none => rfl
    | some c =>
      simp only [hvisit, List.foldl_append]
      rw [ih]
      cases find i c with
      | none => rfl
      | some a => rfl

end Found

theorem walk_keeps {P : σ → Prop} {f : σ → Cell → σ}
    (hvisit : ∀ i c s, P s → visit i c s = some (f s c)) (hkept : ∀ s c, P s → P (f s c))
    (n : ℕ) (i : ι) {s : σ} (hs : P s) :
    P (walk locate next visit n i s).1 ∧ (walk locate next visit n i s).2 ≠ .stopped := by
  induction n generalizing i s with
  | zero => exact ⟨hs, Ending.noConfusion⟩
  | succ n ih =>
    rw [walk]
    cases locate i with
    | none => exact ⟨hs, Ending.noConfusion⟩
    | some c =>
      simp only [hvisit i c s hs]
      exact ih (next i) (hkept s c hs)

/-- Walks along the same places whose visits keep a relation end related. -/
theorem walk_rel {τ : Type} {R : σ → τ → Prop} {visit' : ι → Cell → τ → Option τ}
    (hvisit : ∀ i c s t, R s t → Option.Rel R (visit i c s) (visit' i c t)) (n : ℕ) (i : ι) {s : σ}
    {t : τ} (h : R s t) :
    R (walk locate next visit n i s).1 (walk locate next visit' n i t).1 := by
  induction n generalizing i s t with
  | zero => exact h
  | succ n ih =>
    rw [walk, walk]
    cases locate i with
    | none => exact h
    | some c =>
      have hv := hvisit i c s t h
      dsimp only
      generalize visit i c s = a at hv ⊢
      generalize visit' i c t = b at hv ⊢
      cases hv with
      | none => exact h
      | some hst => exact ih (next i) hst

/-- The cells of the visits that do not end a walk. -/
def touched (locate : ι → Option Cell) (next : ι → ι) (visit : ι → Cell → σ → Option σ) :
    (steps : ℕ) → ι → σ → List Cell
  | 0, _, _ => []
  | steps + 1, i, s =>
    match locate i with
    | none => []
    | some c =>
      match visit i c s with
      | none => []
      | some t => c :: touched locate next visit steps (next i) t

theorem of_mem_touched {P : Cell → Prop} (hlocate : ∀ i c, locate i = some c → P c) (n : ℕ) (i : ι)
    (s : σ) : ∀ c ∈ touched locate next visit n i s, P c := by
  induction n generalizing i s with
  | zero => exact List.forall_mem_nil P
  | succ n ih =>
    rw [touched]
    cases hi : locate i with
    | none => exact List.forall_mem_nil P
    | some c =>
      dsimp only
      cases visit i c s with
      | none => exact List.forall_mem_nil P
      | some t => exact List.forall_mem_cons.2 ⟨hlocate i c hi, ih (next i) t⟩

/-- A walk touches the cells of its path until a visit ends it. -/
theorem exists_touched_append (n : ℕ) (i : ι) (s : σ) :
    ∃ rest, touched locate next visit n i s ++ rest = path locate next n i := by
  induction n generalizing i s with
  | zero => exact ⟨[], rfl⟩
  | succ n ih =>
    rw [touched, path]
    cases locate i with
    | none => exact ⟨[], rfl⟩
    | some c =>
      dsimp only
      cases visit i c s with
      | none => exact ⟨_, List.nil_append _⟩
      | some t =>
        obtain ⟨rest, hrest⟩ := ih (next i) t
        exact ⟨rest, congrArg (c :: ·) hrest⟩

theorem touched_isChain {R : Cell → Cell → Prop} {i : ι}
    (h : ∀ k c d, locate (next^[k] i) = some c → locate (next^[k + 1] i) = some d → R c d)
    (n : ℕ) (s : σ) : (touched locate next visit n i s).IsChain R := by
  obtain ⟨rest, hrest⟩ := exists_touched_append n i s
  exact (hrest ▸ path_isChain h n).left_of_append

theorem foldlM_touched (visit : Cell → σ → Option σ) (n : ℕ) (i : ι) (s : σ) :
    (touched locate next (fun _ => visit) n i s).foldlM (fun s c => visit c s) s =
      some (walk locate next (fun _ => visit) n i s).1 := by
  induction n generalizing i s with
  | zero => rfl
  | succ n ih =>
    rw [touched, walk]
    cases locate i with
    | none => rfl
    | some c =>
      dsimp only
      cases hv : visit c s with
      | none => rfl
      | some t =>
        rw [List.foldlM_cons, hv]
        exact ih (next i) t

/-- Visits that do the same at the cells touched, and end the walk where the others do, make the
same walk. -/
theorem walk_eq_of_touched {visit' : ι → Cell → σ → Option σ}
    (hstop : ∀ i c s, visit i c s = none → visit' i c s = none) (n : ℕ) (i : ι) (s : σ)
    (h : ∀ c ∈ touched locate next visit n i s, ∀ i s, visit' i c s = visit i c s) :
    walk locate next visit' n i s = walk locate next visit n i s := by
  induction n generalizing i s with
  | zero => rfl
  | succ n ih =>
    rw [touched] at h
    rw [walk, walk]
    cases hi : locate i with
    | none => rfl
    | some c =>
      rw [hi] at h
      dsimp only at h ⊢
      cases hv : visit i c s with
      | none => rw [hstop i c s hv]
      | some t =>
        rw [hv, List.forall_mem_cons] at h
        rw [h.1 i s, hv]
        exact ih (next i) t h.2

theorem walk_keeps_of_touched {P : σ → Prop} (n : ℕ) (i : ι) {s : σ}
    (h : ∀ c ∈ touched locate next visit n i s, ∀ i s t, visit i c s = some t → P s → P t)
    (hs : P s) : P (walk locate next visit n i s).1 := by
  induction n generalizing i s with
  | zero => exact hs
  | succ n ih =>
    rw [touched] at h
    rw [walk]
    cases hi : locate i with
    | none => exact hs
    | some c =>
      rw [hi] at h
      dsimp only at h ⊢
      cases hv : visit i c s with
      | none => exact hs
      | some t =>
        rw [hv, List.forall_mem_cons] at h
        exact ih (next i) h.2 (h.1 i s t hv hs)

theorem walk_of_ended {n m : ℕ} {i : ι} {s : σ} (h : (walk locate next visit n i s).2 ≠ .outOfSteps)
    (hle : n ≤ m) : walk locate next visit m i s = walk locate next visit n i s := by
  induction n generalizing m i s with
  | zero => exact absurd rfl h
  | succ n ih =>
    obtain ⟨m, rfl⟩ := Nat.exists_eq_add_of_le' (Nat.one_le_of_lt hle)
    rw [walk] at h ⊢
    rw [walk]
    cases hi : locate i with
    | none => rfl
    | some c =>
      rw [hi] at h
      dsimp only at h ⊢
      cases hv : visit i c s with
      | none => rfl
      | some t =>
        rw [hv] at h
        exact ih h (by omega)

end Relief
