import ApiDoc.Document.Basic
import ApiDoc.Request.RuleSchema
import ApiDoc.Rule.Reader
import ApiDoc.Schema.Collapse

/-!
# Request bodies

The rules of a request with a body are the leaves of one schema.  A dotted name
is a path in it: `*` goes to the elements of an array, any other segment to a
property.  Rules come in any order, so a node may be made as a container first
and described later, or the other way round.
-/

namespace ApiDoc.Body

/-- The container that the next segment asks for. -/
def containerType (next : String) : String :=
  if next = "*" then "array" else "object"

/-- Give arrays a list of slots and objects a list of properties. -/
def ensureContainer (s : Schema) : Schema :=
  if s.isType "array" && s.items.isNone then { s with items := some (.list []) }
  else if s.isType "object" && s.properties.isNone then { s with properties := some [] }
  else s

/-- A node that is there already only changes its type. -/
def upgrade (s : Schema) (type : String) : Schema :=
  let s := { s with type := some type }
  ensureContainer (if type = "object" then { s with items := none } else s)

/-- Whether deeper rules have filled a node. -/
def isPopulated (s : Schema) : Bool :=
  (match s.properties with
    | some (_ :: _) => true
    | _ => false) ||
  (match s.items with
    | some (.list (_ :: _)) => true
    | _ => false)

/-- The type that a rule gives to a node, with the segments left below it. -/
def nodeType (rest : List String) (rules : FieldRules) : String :=
  match rest with
  | next :: _ => containerType next
  | [] => rules.schemaType

/-- A new node: the schema of the rules at a leaf, a bare container above. -/
def newNode (now : Moment) (rest : List String) (rules : FieldRules) : Schema :=
  match rest with
  | [] => rules.schema now
  | next :: _ => ensureContainer (.typed (containerType next))

/-- The element slot for the next step, and how the slots look with it replaced. -/
def elementSlot (now : Moment) (rest : List String) (rules : FieldRules) :
    Option (Items Schema) → Schema × (Schema → Items Schema)
  | none | some (.list []) => (newNode now rest rules, fun s => .list [s])
  | some (.list (slot :: slots)) =>
      (upgrade slot (nodeType rest rules), fun s => .list (s :: slots))
  | some (.single item) => (upgrade item (nodeType rest rules), .single)

/-- The property for the next step. -/
def propertyNode (now : Moment) (rest : List String) (rules : FieldRules) :
    Option Schema → Schema
  | none => newNode now rest rules
  | some s =>
      if rest.isEmpty && isPopulated s then s else upgrade s (nodeType rest rules)

/-- Add the rules of one field below a node. -/
def insert (now : Moment) (rules : FieldRules) : List String → Schema → Schema
  | [], parent => parent
  | token :: rest, parent =>
      if token = "*" then
        let (slot, put) := elementSlot now rest rules parent.items
        { parent with items := some (put (insert now rules rest slot)) }
      else
        let properties := parent.properties.getD []
        let node := propertyNode now rest rules (Dict.find? properties token)
        { parent with
          properties := some (Dict.insert properties token (insert now rules rest node)) }

/-- Apply a function to the element of an array, if there is one. -/
def onElement (f : Schema → Schema) (s : Schema) : Schema :=
  match s.items with
  | some (.list (slot :: slots)) => { s with items := some (.list (f slot :: slots)) }
  | some (.single item) => { s with items := some (.single (f item)) }
  | _ => s

/-- Mark a field required in the object that holds it, and that object in its
own, up to the nearest array.  The flag tells whether the parent goes on. -/
def markRequired : List String → Schema → Schema × Bool
  | [], s => (s, false)
  | token :: rest, s =>
      if token = "*" then
        (if rest.isEmpty then s else onElement (fun e => (markRequired rest e).1) s, false)
      else
        let properties := s.properties.getD []
        let (s, propagates) :=
          if rest.isEmpty then (s, true)
          else
            match Dict.find? properties token with
            | some child =>
                let (child, propagates) := markRequired rest child
                ({ s with properties := some (Dict.insert properties token child) }, propagates)
            | none => (s, false)
        (if propagates then s.markRequired token else s, propagates)

/-- The segments of a dotted name. -/
def tokens (field : String) : List String :=
  (Text.splitOn '.' field.toList).map String.ofList

/-- Add the rules of one field to the body. -/
def addRules (now : Moment) (root : Schema) (rules : FieldRules) : Schema :=
  let path := tokens rules.field
  let root := insert now rules path root
  if rules.isRequired then (markRequired path root).1 else root

/-- The body before its element slots are finished. -/
def draft (now : Moment) (rules : RuleSet) : Schema :=
  rules.foldl (addRules now) .object

/-- The schema of the body; the slots below its properties are finished. -/
def ofRules (now : Moment) (rules : RuleSet) : Schema :=
  let root := draft now rules
  { root with properties := Schema.collapseProperties root.properties }

def isBinary (s : Schema) : Bool :=
  s.format == some "binary"

/-- Whether a property is a file or a list of files. -/
def holdsFile (s : Schema) : Bool :=
  isBinary s || (s.item?.map isBinary).getD false

/-- The media type of a body: forms carry files, all else is JSON. -/
def mediaType (root : Schema) : String :=
  if (root.properties.getD []).any fun (_, s) => holdsFile s then "multipart/form-data"
  else "application/json"

/-- Media type and schema of the body that the rules of a request describe. -/
def schema (now : Moment) (rules : List (String × Json)) : Except Error (String × Schema) :=
  (RuleSet.read rules).map fun rules =>
    let root := ofRules now rules
    (mediaType root, root)

/-- The request body that the rules of a request describe. -/
def requestBody (now : Moment) (rules : List (String × Json)) : Except Error RequestBody :=
  (schema now rules).map fun (type, root) => { content := [(type, { schema := root })] }

end ApiDoc.Body
