import ApiDoc.Component.Catalog
import ApiDoc.Document.Codec
import ApiDoc.Handler
import ApiDoc.PathChange
import ApiDoc.Settings

/-!
# What the comment of a handler says about an operation

Summary, description and deprecation come from the comment itself.  The tag
`Request` overlays any part of the operation; each tag `Response` adds a response
under its code.
-/

namespace ApiDoc

/-- What the operations of an application are made from. -/
structure Assembly where
  settings : Settings
  builders : Builders
  entities : Entities
  now : Moment

/-- The part of an operation that a comment gives. -/
structure Documented where
  operation : Operation := {}
  /-- The changes of the parameters of the path. -/
  overrides : Option (List PathOverride) := none
  warnings : List Warning := []
deriving Inhabited

namespace Documented

/-- Overlay one key of the tag `Request`. -/
def overlay (d : Documented) (entry : String × Json) : Except Error Documented :=
  match entry.1 with
  | "operationId" =>
      .ok { d with operation := { d.operation with operationId := some entry.2.plainText } }
  | "pathParams" => .ok { d with overrides := some (PathOverride.ofJson entry.2) }
  | key => do return { d with operation := ← d.operation.mergeValue key entry.2 }

/-- The schema of a response: a list or what a builder gives, a known entity, or the text
as it is. -/
def responseSchema (a : Assembly) (reference uri : String) : Except Error Schema := do
  match ← Reference.structured a.builders reference uri with
  | some schema => return schema
  | none => return { reference := some (a.entities.componentPath (Reference.trimmed reference)) }

/-- The response that the keys of a tag describe. -/
def response (a : Assembly) (uri : String) (entries : List (String × Json)) :
    Except Error Response := do
  let plain : Response :=
    { description := ((Dict.find? entries "description").map Json.plainText).getD "" }
  match Dict.find? entries "ref" with
  | none => return plain
  | some reference => return plain.withSchema (← responseSchema a reference.plainText uri)

/-- Add the response of one tag; a tag without code is skipped with a warning. -/
def addResponse (a : Assembly) (uri : String) (d : Documented) (body : String) :
    Except Error Documented := do
  let entries ← TagBody.parse body
  match Dict.find? entries "code" with
  | none => return { d with warnings := d.warnings ++ [.responseWithoutCode uri] }
  | some code =>
      let response ← response a uri entries
      return { d with
        operation :=
          { d.operation with
            responses := Dict.insert d.operation.responses code.plainText response } }

/-- Read a comment. -/
def ofComment (a : Assembly) (uri comment : String) : Except Error Documented := do
  let block := DocBlock.parse comment
  let start : Documented :=
    { operation :=
        { deprecated := block.hasTag "deprecated"
          summary := block.summary
          description := block.description } }
  let entries ← match block.firstBody? "Request" with
    | some body => TagBody.parse body
    | none => .ok []
  let overlaid ← entries.foldlM overlay start
  ((block.tagsNamed "Response").filterMap (·.body)).foldlM (addResponse a uri) overlaid

/-- What is documented about a handler: nothing without a comment, or when comments
are not read. -/
def ofHandler (a : Assembly) (uri : String) (handler : Option Handler) :
    Except Error Documented :=
  match (handler.bind (·.comment)).filter fun text => !Text.allBlank text.toList with
  | some comment => if a.settings.sources.comments then ofComment a uri comment else .ok {}
  | none => .ok {}

end Documented

end ApiDoc
