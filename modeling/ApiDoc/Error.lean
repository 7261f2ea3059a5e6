import ApiDoc.Json.Printer

/-!
# What can go wrong

Every cause that stops a document from being made, with its wording in one
place, and the warnings that do not stop it.
-/

namespace ApiDoc

/-- Why the body of a tag cannot be used. -/
inductive TagFault
  /-- The body is in braces, and is JSON, but no object. -/
  | notAnObject
  /-- The body has text before its first key. -/
  | missingKey (entry : String)
  /-- A part in braces is not JSON. -/
  | badJson
  /-- A value does not fit the place it is meant for. -/
  | misfit
  /-- A verbatim schema of a field is none. -/
  | badRawSchema (owner field : String)
deriving Repr, Inhabited

def TagFault.message : TagFault → String
  | .notAnObject => "expected a JSON object"
  | .missingKey entry => "entry `" ++ entry ++ "` has no key"
  | .badJson => "invalid JSON"
  | .misfit => "the value does not fit"
  | .badRawSchema owner field => "invalid raw schema for " ++ owner ++ "." ++ field

/-- A cause that ends the work. -/
inductive Error
  /-- A file cannot be read or written. -/
  | file
  /-- A JSON text is malformed, or does not have the shape that is asked for. -/
  | json
  /-- A YAML text is malformed, or does not have the shape that is asked for. -/
  | yaml
  /-- The body of a tag in a documentation comment does not follow its grammar. -/
  | badTag (body : String) (fault : TagFault)
  /-- An authentication flow is configured under an unknown name. -/
  | invalidDefinition (definition : String) (allowed : List String)
  /-- An authentication flow is not one of those its definition allows. -/
  | invalidFlow (definition flow : String) (allowed : List String)
  /-- A reference calls a builder that is not configured. -/
  | builderNotFound (code uri : String)
  /-- A builder code is configured for a builder that does not exist. -/
  | unknownBuilder (code builder : String)
  /-- A rule is neither a text nor a list of texts. -/
  | malformedRule (field : String) (rule : Json)
  /-- One path has two different lists of parameter changes. -/
  | repeatedPathChange (uri : String)
  /-- A route answers to a method that is not known. -/
  | unsupportedMethod (name : String)
deriving Repr, Inhabited

def Error.message : Error → String
  | .file => "the file cannot be used"
  | .json => "JSON error"
  | .yaml => "YAML error"
  | .badTag body fault => "failed to parse annotation: " ++ fault.message ++ "\n" ++ body
  | .invalidDefinition definition allowed =>
      "invalid definition `" ++ definition ++ "`, please select from the following: " ++
        ", ".intercalate allowed
  | .invalidFlow definition flow allowed =>
      "invalid authentication flow `" ++ flow ++ "` for `" ++ definition ++
        "`, please select one from the following: " ++ ", ".intercalate allowed
  | .builderNotFound code uri =>
      "schema builder `" ++ code ++ "` not found in `schema_builders` configuration; " ++
        "problem found trying to generate `" ++ uri ++ "`"
  | .unknownBuilder code builder =>
      "schema builder `" ++ code ++ "` refers to unknown implementation `" ++ builder ++ "`"
  | .malformedRule field rule =>
      "rule `" ++ field ++ " => " ++ rule.compact ++ "` is not well formatted"
  | .repeatedPathChange uri =>
      "route `" ++ uri ++ "` has `pathParams` changes more than once; change path params " ++
        "in only one method and the changes will be applied to all methods of the route"
  | .unsupportedMethod name => "unsupported HTTP method `" ++ name ++ "`"

/-- Something left out of the document. -/
inductive Warning
  | modelWithoutTable (model : String)
  | unresolvedRelation (model relation : String)
  | missingAccessor (model name : String)
  | replacedSchema (name : String)
  | responseWithoutCode (uri : String)
  | repeatedPathChange (path uri : String)
  | droppedOperation (method path renamed : String)
  | skippedFile (path : String)
deriving DecidableEq, Repr, Inhabited

def Warning.message : Warning → String
  | .modelWithoutTable model => "Model " ++ model ++ " has no backing table, skipping"
  | .unresolvedRelation model relation =>
      "Relation " ++ model ++ "." ++ relation ++ " has no resolvable target, skipping"
  | .missingAccessor model name =>
      "Computed attribute " ++ model ++ "." ++ name ++ " has no accessor, skipping"
  | .replacedSchema name =>
      "Custom schema " ++ name ++ " replaces the model schema of the same name"
  | .responseWithoutCode uri => "@Response without a code on " ++ uri ++ " is ignored"
  | .repeatedPathChange path uri =>
      "Route " ++ path ++ " has pathParams changes more than once; change path params in " ++
        "only one method and they apply to every method of the route (route: " ++ uri ++ ")"
  | .droppedOperation method path renamed =>
      method ++ " " ++ path ++ " is already documented; dropping the renamed " ++ renamed ++
        " operation"
  | .skippedFile path => "Skipping " ++ path

end ApiDoc
