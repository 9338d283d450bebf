import Mathlib
import Relief.Logged

namespace Relief

namespace Logged

variable {β γ : Type} {x : Logged β} {b : β} {e : Error}

@[simp] theorem ofExcept_ok_bind (b : β) (f : β → Logged γ) : (ofExcept (.ok b) >>= f) = f b :=
  rfl

theorem ok_bind (events : List Event) (b : β) (f : β → Logged γ) :
    ((⟨events, .ok b⟩ : Logged β) >>= f) = ⟨events ++ (f b).events, (f b).outcome⟩ :=
  rfl

@[simp] theorem outcome_report_bind (events : List Event) (f : Unit → Logged γ) :
    (report events >>= f).outcome = (f ()).outcome :=
  rfl

theorem outcome_bind (x : Logged β) (f : β → Logged γ) :
    (x >>= f).outcome = x.outcome.bind fun b => (f b).outcome := by
  change (Logged.bind x f).outcome = _
  rw [Logged.bind]
  cases x.outcome with
  | error e => rfl
  | ok b => rfl

theorem exists_of_bind_ok {f : β → Logged γ} {c : γ} (h : (x >>= f).outcome = .ok c) :
    ∃ b, x.outcome = .ok b ∧ (f b).outcome = .ok c := by
  rw [outcome_bind] at h
  cases hx : x.outcome with
  | error e =>
    rw [hx] at h
    cases h
  | ok b =>
    rw [hx] at h
    exact ⟨b, rfl, h⟩

theorem outcome_bind_ok (h : x.outcome = .ok b) (f : β → Logged γ) :
    (x >>= f).outcome = (f b).outcome := by
  change (Logged.bind x f).outcome = _
  rw [Logged.bind, h]

theorem outcome_ofExcept_bind_pure (x : Except Error β) (f : β → γ) :
    (ofExcept x >>= fun b => pure (f b)).outcome = x.map f := by
  cases x with
  | error e => rfl
  | ok b => rfl

theorem report_bind_pure (events : List Event) (b : β) :
    (report events >>= fun _ => pure b) = ⟨events, .ok b⟩ := by
  change (⟨events ++ [], .ok b⟩ : Logged β) = _
  rw [List.append_nil]

theorem outcome_ofExcept_error_bind (e : Error) (f : β → Logged γ) :
    (ofExcept (.error e) >>= f).outcome = .error e :=
  rfl

end Logged

theorem exists_ok_of_map {β γ : Type} {x : Except Error β} {f : β → γ} {c : γ}
    (h : x.toOption.map f = some c) : ∃ b, x = .ok b ∧ f b = c := by
  cases x with
  | ok b => exact ⟨b, rfl, Option.some.inj h⟩
  | error e => cases h

section Alike

variable {β γ β' γ' : Type} {R : β → γ → Prop} {S : β' → γ' → Prop}

/-- Two outcomes that are the same failure, or related results. -/
def Alike (R : β → γ → Prop) : Except Error β → Except Error γ → Prop
  | .ok b, .ok c => R b c
  | .error e, .error e' => e = e'
  | _, _ => False

theorem Alike.same (x : Except Error β) : Alike (· = ·) x x := by
  cases x with
  | ok b => exact rfl
  | error e => exact rfl

theorem Alike.bind {x : Except Error β} {y : Except Error γ} {f : β → Except Error β'}
    {g : γ → Except Error γ'} (h : Alike R x y)
    (hf : ∀ b c, x = .ok b → R b c → Alike S (f b) (g c)) : Alike S (x.bind f) (y.bind g) := by
  cases x with
  | ok b =>
    cases y with
    | ok c => exact hf b c rfl h
    | error e => exact h.elim
  | error e =>
    cases y with
    | ok c => exact h.elim
    | error e' => exact h

end Alike

end Relief
