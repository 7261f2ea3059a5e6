import ApiDoc.Error
import ApiDoc.Json.Reader
import ApiDoc.Text.Basic
import ApiDoc.Yaml.Reader

/-!
# Data files

The name of a data file tells its format: JSON for the extension `json`, in
whatever case, and YAML for any other.
-/

namespace ApiDoc.DataFile

/-- The last component of a path. -/
def fileName (path : String) : List Char :=
  Text.afterLast (· = '/') path.toList

/-- The extension of a path; a name that only starts with a point has none. -/
def extension? (path : String) : Option String :=
  match Text.cutLast? ['.'] (fileName path) with
  | some (_ :: _, ext) => some (String.ofList ext)
  | _ => none

def isJson (path : String) : Bool :=
  (extension? path).any fun ext => ext.toLower = "json"

/-- Read a file as a value of some type.  A YAML file of white space is blank. -/
def read (ofDatum? : Datum → Option α) (path text : String) : Except Error α :=
  if isJson path then
    ((Json.readMembers? text.toList).bind fun j => ofDatum? (.ofJson j)).elim (.error .json) .ok
  else
    let datum := if Text.allBlank text.toList then some .blank else Yaml.read? text.toList
    (datum.bind ofDatum?).elim (.error .yaml) .ok

end ApiDoc.DataFile
