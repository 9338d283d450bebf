import Relief.Error

namespace Relief

inductive Document where
  | null
  | bool (b : Bool)
  | whole (n : Int)
  | real (x : Float)
  | text (s : String)
  | list (items : List Document)
  | record (fields : List (String × Document))

inductive Refusal where
  | form
  | content (cause : Error)
  deriving DecidableEq

namespace Document

def toReal : Document → Except Refusal Float
  | whole n => .ok (.ofInt n)
  | real x => .ok x
  | _ => .error .form

def toCount : Document → Except Refusal Nat
  | whole n => if 0 ≤ n ∧ n < wordValues then .ok n.toNat else .error .form
  | _ => .error .form

def toOption {β : Type} (decode : Document → Except Refusal β) :
    Document → Except Refusal (Option β)
  | null => .ok none
  | d => some <$> decode d

/-- The fields that a document gives: those of a record, or the items of a list in the order of
`names`. -/
def fieldsGiven (names : List String) : Document → List (String × Document)
  | record fields => fields
  | list items => names.zip items
  | _ => []

/-- Sets fields in their order. One of `names` that has been seen before is refused. -/
def setAll {β : Type} (names : List String) (set : String → Document → β → Except Refusal β) :
    (seen : List String) → List (String × Document) → β → Except Refusal β
  | _, [], b => .ok b
  | seen, (name, d) :: fields, b =>
    if name ∈ names ∧ name ∈ seen then .error .form
    else do setAll names set (name :: seen) fields (← set name d b)

/-- Overrides fields of `base` by those that a document gives. `set` leaves unknown fields alone; a
list must not be longer than `names`. -/
def override {β : Type} (names : List String) (set : String → Document → β → Except Refusal β)
    (base : β) : Document → Except Refusal β
  | record fields => setAll names set [] fields base
  | list items => do
    let b ← setAll names set [] (names.zip items) base
    if names.length < items.length then .error .form else .ok b
  | _ => .error .form

end Document

end Relief
