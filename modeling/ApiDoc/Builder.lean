import ApiDoc.Error
import ApiDoc.Pagination

/-!
# Builders of schemas

A reference such as `P(User)` asks the builder behind the code `P` for a schema around the
model `User`.  Any function can be registered under a code; the settings register pages of
the known kinds by their names.
-/

namespace ApiDoc

/-- The schema that is put around a model, by the path of the model and the address of the
route that refers to it. -/
abbrev Builder := (model uri : String) → Schema

/-- The registered builders by their codes. -/
structure Builders where
  codes : Dict Builder := []
deriving Inhabited

namespace Builders

/-- Register a builder; it takes the place of another one with its code. -/
def register (builders : Builders) (code : String) (builder : Builder) : Builders :=
  { codes := Dict.insert builders.codes code builder }

def find? (builders : Builders) (code : String) : Option Builder :=
  Dict.find? builders.codes code

/-- Register the kind of page that each code names; the first unknown name is the error. -/
def ofNames (host : String) (names : Dict String) : Except Error Builders :=
  names.foldlM (fun builders (code, name) =>
    match PageKind.ofName? name with
    | some kind => .ok (builders.register code (kind.schema host))
    | none => .error (.unknownBuilder code name)) {}

end Builders

end ApiDoc
