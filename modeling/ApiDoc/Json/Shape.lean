import ApiDoc.Json.Basic
import ApiDoc.Record

/-!
# Reading typed values from JSON

Small readers that are put together into the reader of a record.  Each gives
nothing when the value does not have the shape it asks for.
-/

namespace ApiDoc.Json

variable {α : Type}

/-- `null` as absence. -/
def orNull? (read : Json → Option α) : Json → Option (Option α)
  | .null => some none
  | j => (read j).map some

/-- A list whose items all have the same shape. -/
def listOf? (read : Json → Option α) : Json → Option (List α)
  | .arr items => items.mapM read
  | _ => none

/-- The members of an object, in increasing order of their keys. -/
def dictOf? (read : Json → Option α) : Json → Option (Dict α)
  | .obj members =>
      (members.mapM fun (entry : String × Json) =>
        (read entry.2).map fun a => (entry.1, a)).map Dict.ofList
  | _ => none

/-- An object, or the list of the values of a record with these names. -/
def record? (names : List String) : Json → Option (Record Json)
  | .obj members => some (Record.named members)
  | .arr items => Record.ofValues? names items
  | _ => none

/-- The members that are not among the named fields, in increasing order. -/
def others (names : List String) (members : List (String × Json)) : Dict Json :=
  Dict.ofList (members.filter fun (key, _) => !names.contains key)

/-- A member that is left out when there is no value. -/
def optionalMember (key : String) (write : α → Json) : Option α → List (String × Json)
  | none => []
  | some a => [(key, write a)]

/-- A member that is left out when the list is empty. -/
def listMember (key : String) (write : α → Json) : List α → List (String × Json)
  | [] => []
  | items => [(key, .arr (items.map write))]

/-- A dictionary as an object. -/
def ofDict (write : α → Json) (d : Dict α) : Json :=
  .obj (d.map fun (key, a) => (key, write a))

end ApiDoc.Json
