import Relief.Event

namespace Relief

/-- An outcome and the events reported on the way to it, oldest first. -/
structure Logged (β : Type) where
  events : List Event
  outcome : Except Error β

namespace Logged

variable {β γ : Type}

protected def pure (b : β) : Logged β :=
  ⟨[], .ok b⟩

protected def bind (x : Logged β) (f : β → Logged γ) : Logged γ :=
  match x.outcome with
  | .error e => ⟨x.events, .error e⟩
  | .ok b => ⟨x.events ++ (f b).events, (f b).outcome⟩

instance : Monad Logged where
  pure := Logged.pure
  bind := Logged.bind

def fail (e : Error) : Logged β :=
  ⟨[], .error e⟩

def report (events : List Event) : Logged Unit :=
  ⟨events, .ok ()⟩

def ofExcept (x : Except Error β) : Logged β :=
  ⟨[], x⟩

end Logged

end Relief
