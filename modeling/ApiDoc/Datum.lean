import ApiDoc.Json.Basic
import ApiDoc.Record

/-!
# Values of a data file

Settings and descriptions of an application come from files in one of two
formats, which agree on lists and maps and differ in small things: one has
scalars that are a value and a text at once, one lets a list stand for a record
written without names.  A datum keeps what either format tells, and the readers
below turn it into typed values.  Each gives nothing when the datum does not have
the shape it asks for.
-/

namespace ApiDoc

/-- A value of a data file. -/
inductive Datum
  /-- Nothing at all in a place where a value could stand. -/
  | blank
  /-- A scalar: its value, unless that is out of range, and its text, if it can be
  read as one. -/
  | scalar (value : Option Json) (text : Option String)
  /-- A list, which stands for a record if `tuple` is set. -/
  | list (items : List Datum) (tuple : Bool)
  /-- Keys with values, as they are written. -/
  | map (entries : List (Datum × Datum))
deriving Inhabited

namespace Datum

variable {α : Type}

/-- A text that is its own value. -/
def ofText (text : String) : Datum :=
  .scalar (some (.str text)) (some text)

mutual

/-- A JSON value as a datum. -/
def ofJson : Json → Datum
  | .str s => .ofText s
  | .arr items => .list (ofItems items) true
  | .obj members => .map (ofMembers members)
  | j => .scalar (some j) none
termination_by structural j => j

def ofItems : List Json → List Datum
  | [] => []
  | j :: rest => ofJson j :: ofItems rest
termination_by structural items => items

def ofMembers : List (String × Json) → List (Datum × Datum)
  | [] => []
  | (key, j) :: rest => (.ofText key, ofJson j) :: ofMembers rest
termination_by structural members => members

end

/-- The text of a scalar. -/
def text? : Datum → Option String
  | .blank => some ""
  | .scalar _ text => text
  | _ => none

/-- The value of a scalar. -/
def scalar? : Datum → Option Json
  | .blank => some .null
  | .scalar value _ => value
  | _ => none

mutual

/-- The value of a datum; a repeated key keeps its first place and its last
value. -/
def value? : Datum → Option Json
  | .blank => some .null
  | .scalar value _ => value
  | .list items _ => (values? items).map .arr
  | .map entries => (members? entries).map fun members => .obj (Dict.merged members)
termination_by structural d => d

def values? : List Datum → Option (List Json)
  | [] => some []
  | d :: rest => do return (← value? d) :: (← values? rest)
termination_by structural items => items

def members? : List (Datum × Datum) → Option (List (String × Json))
  | [] => some []
  | (key, d) :: rest => do return (← text? key, ← value? d) :: (← members? rest)
termination_by structural entries => entries

end

def flag? (d : Datum) : Option Bool :=
  d.scalar?.bind Json.asBool?

/-- A whole number of 64 bits without a sign. -/
def word? (d : Datum) : Option Nat :=
  d.scalar?.bind Json.asWord?

/-- A value that may be absent. -/
def orNone? (read : Datum → Option α) (d : Datum) : Option (Option α) :=
  match d with
  | .blank | .scalar (some .null) _ => some none
  | d => (read d).map some

def list? (read : Datum → Option α) : Datum → Option (List α)
  | .blank => some []
  | .list items _ => items.mapM read
  | _ => none

/-- The entries of a map under the texts of their keys, in their order. -/
def entries? (read : Datum → Option α) : Datum → Option (List (String × α))
  | .blank => some []
  | .map entries =>
      entries.mapM fun (entry : Datum × Datum) => do
        return (← text? entry.1, ← read entry.2)
  | _ => none

/-- A dictionary with increasing keys; the last value of a key counts. -/
def dict? (read : Datum → Option α) (d : Datum) : Option (Dict α) :=
  (entries? read d).map Dict.ofList

/-- A field of a record: its name, and another one it may be written under. -/
structure Field where
  name : String
  alias_ : Option String := none

/-- The name of the field that a key is written for. -/
def Field.find? (fields : List Field) (key : String) : Option String :=
  (fields.find? fun f => f.name = key || f.alias_ = some key).map Field.name

/-- A record with these fields.  A field written twice is refused, and other keys
do not count. -/
def record? (fields : List Field) : Datum → Option (Record Datum)
  | .list items true => Record.ofValues? (fields.map Field.name) items
  | d => do
      let entries ← entries? some d
      let known := entries.filterMap fun (key, value) =>
        (Field.find? fields key).map fun name => (name, value)
      if (known.map (·.1)).Nodup then some (Record.named known) else none

/-- Fields without other names. -/
def fieldsOf (names : List String) : List Field :=
  names.map fun name => { name }

end Datum

end ApiDoc
