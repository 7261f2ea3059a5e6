import ApiDoc.Dict

/-!
# Records with named fields

A record is written either with the names of its fields, in any order, or as
the plain list of their values.  A field is required, or it has a default, or it
may be absent; in a list of values a field of the last kind must be present.
-/

namespace ApiDoc

/-- The fields of a record that is being read. -/
structure Record (α : Type u) where
  fields : List (String × α)
  positional : Bool
deriving Repr, Inhabited

namespace Record

variable {α : Type u} {β : Type v}

/-- A record written with names. -/
def named (fields : List (String × α)) : Record α :=
  ⟨fields, false⟩

/-- A record written as a list of values; there may be fewer values than names. -/
def ofValues? (names : List String) (values : List α) : Option (Record α) :=
  if values.length ≤ names.length then some ⟨names.zip values, true⟩ else none

def find? (r : Record α) (name : String) : Option α :=
  Dict.find? r.fields name

/-- A field that must be there. -/
def required? (r : Record α) (name : String) (read : α → Option β) : Option β :=
  (r.find? name).bind read

/-- A field with a default. -/
def defaulted? (r : Record α) (name : String) (fallback : β) (read : α → Option β) :
    Option β :=
  match r.find? name with
  | some a => read a
  | none => some fallback

/-- A field that may be absent. -/
def optional? (r : Record α) (name : String) (read : α → Option (Option β)) :
    Option (Option β) :=
  match r.find? name with
  | some a => read a
  | none => if r.positional then none else some none

end Record

end ApiDoc
