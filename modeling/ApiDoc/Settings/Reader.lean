import ApiDoc.DataFile
import ApiDoc.Datum
import ApiDoc.Settings
import ApiDoc.Text.Casing

/-!
# Reading settings

Every part of the settings may be left out.  A key that has no meaning is
skipped; a value of the wrong shape refuses the whole file.
-/

namespace ApiDoc

open Datum (fieldsOf)

/-- A server: an address, or a map with an address and a description.  The fields
of the map may also be numbered. -/
def ServerEntry.ofDatum? (d : Datum) : Option ServerEntry :=
  match d with
  | .scalar (some (.str address)) _ => some (.url address)
  | .map entries => do
      let names := ["url", "description"]
      let known ← entries.mapM fun (entry : Datum × Datum) =>
        match entry.1.scalar? with
        | some (.str key) => some (key, entry.2)
        | some (.num (.int i)) =>
            if i < 0 then none else some ((names[i.toNat]?).getD "", entry.2)
        | _ => none
      let known : List (String × Datum) := known.filter fun (key, _) => names.contains key
      guard (known.map (·.1)).Nodup
      let text := fun key =>
        match Dict.find? known key with
        | some value =>
            Datum.orNone? (fun value => value.scalar?.bind Json.asStr?) value
        | none => some none
      return .detailed (← text "url") (← text "description")
  | _ => none

/-- A strategy by its name in whatever case; an unknown one leaves operations
untagged. -/
def Tagging.ofName (name : String) : Tagging :=
  match Text.lower name with
  | "prefix" => .byPrefix
  | "controller" => .byHandler
  | _ => .untagged

def TagInfo.ofDatum? (d : Datum) : Option TagInfo := do
  let r ← Datum.record? (fieldsOf ["name", "description"]) d
  return {
    name := ← r.required? "name" Datum.text?
    description := ← r.optional? "description" (Datum.orNone? Datum.text?) }

def Sources.ofDatum? (d : Datum) : Option Sources := do
  let r ← Datum.record? [{ name := "doc_block", alias_ := some "docBlock" },
    { name := "security" }] d
  return {
    comments := ← r.defaulted? "doc_block" true Datum.flag?
    security := ← r.defaulted? "security" true Datum.flag? }

def AppendedResponse.ofDatum? (d : Datum) : Option AppendedResponse := do
  let r ← Datum.record? (fieldsOf ["description", "ref"]) d
  return {
    description := ← r.optional? "description" (Datum.orNone? Datum.text?)
    reference := ← r.optional? "ref" (Datum.orNone? Datum.text?) }

def AppendedHeader.ofDatum? (d : Datum) : Option AppendedHeader := do
  let r ← Datum.record? (fieldsOf ["type", "example", "description", "required"]) d
  return {
    type := ← r.defaulted? "type" "string" Datum.text?
    sample := ← r.defaulted? "example" none (Datum.orNone? Datum.value?)
    description := ← r.defaulted? "description" none (Datum.orNone? Datum.text?)
    required := ← r.defaulted? "required" false Datum.flag? }

/-- The key of a response: a whole number of 64 bits with a sign, or a text. -/
def responseKey? (d : Datum) : Option (Int ⊕ String) :=
  match d.scalar? with
  | some (.num (.int i)) => if i < (Nat.pow 2 63 : Int) then some (.inl i) else none
  | some (.str s) => some (.inr s)
  | _ => none

/-- Responses by code.  A code written as a text wins over the same one written as
a number. -/
def appendedResponses? : Datum → Option (Dict AppendedResponse)
  | .blank => some []
  | .map entries => do
      let keyed ← entries.mapM fun (entry : Datum × Datum) => do
        return (← responseKey? entry.1, ← AppendedResponse.ofDatum? entry.2)
      let numbered := keyed.filterMap fun (key, response) =>
        key.getLeft?.map fun i => (toString i, response)
      let named := keyed.filterMap fun (key, response) =>
        key.getRight?.map fun s => (s, response)
      return Dict.insertAll (Dict.ofList numbered) named
  | _ => none

def Appended.ofDatum? (d : Datum) : Option Appended := do
  let r ← Datum.record? (fieldsOf ["responses", "headers"]) d
  return {
    responses := ← r.defaulted? "responses" [] appendedResponses?
    headers := ← r.defaulted? "headers" [] (Datum.dict? AppendedHeader.ofDatum?) }

def Ignored.ofDatum? (d : Datum) : Option Ignored := do
  let r ← Datum.record? (fieldsOf ["methods", "routes", "models"]) d
  let usual : Ignored := {}
  let texts := Datum.list? Datum.text?
  return {
    methods := ← r.defaulted? "methods" usual.methods texts
    routes := ← r.defaulted? "routes" usual.routes texts
    models := ← r.defaulted? "models" usual.models texts }

namespace Settings

/-- The names of the fields, in the order of a list that stands for settings. -/
def fieldNames : List String :=
  ["title", "description", "version", "host", "api_base_path", "servers", "schemas", "tags",
    "default_tags_generation_strategy", "parse", "authentication_flow", "oauth_scopes",
    "security_middlewares", "append", "ignored", "schema_builders"]

/-- Read settings; what is left out has its default. -/
def ofDatum? (d : Datum) : Option Settings := do
  let r ← Datum.record? (fieldsOf fieldNames) d
  let usual : Settings := {}
  let text := fun name fallback => r.defaulted? name fallback Datum.text?
  let texts := fun name fallback => r.defaulted? name fallback (Datum.dict? Datum.text?)
  return {
    title := ← text "title" usual.title
    description := ← text "description" usual.description
    version := ← text "version" usual.version
    host := ← text "host" usual.host
    basePath := ← text "api_base_path" usual.basePath
    servers := ← r.defaulted? "servers" usual.servers (Datum.list? ServerEntry.ofDatum?)
    schemaDirectory := ← r.defaulted? "schemas" none (Datum.orNone? Datum.text?)
    tags := ← r.defaulted? "tags" usual.tags (Datum.list? TagInfo.ofDatum?)
    tagging :=
      ← r.defaulted? "default_tags_generation_strategy" usual.tagging
        fun d => d.text?.map Tagging.ofName
    sources := ← r.defaulted? "parse" usual.sources Sources.ofDatum?
    flows := ← texts "authentication_flow" usual.flows
    scopes := ← texts "oauth_scopes" usual.scopes
    guards := ← r.defaulted? "security_middlewares" usual.guards (Datum.list? Datum.text?)
    appended := ← r.defaulted? "append" usual.appended Appended.ofDatum?
    ignored := ← r.defaulted? "ignored" usual.ignored Ignored.ofDatum?
    pageKinds := ← texts "schema_builders" usual.pageKinds }

/-- The settings in a file, with flows that are allowed. -/
def ofFile (path text : String) : Except Error Settings := do
  let s ← DataFile.read ofDatum? path text
  s.validate
  return s

end Settings

end ApiDoc
