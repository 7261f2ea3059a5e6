import ApiDoc.Builder
import ApiDoc.Text.Alphabet

/-!
# References to schemas

An annotation refers to a schema by the name of a model, by a name with empty
brackets for a list of it, or by a call `Code(Name)` for what the builder of the
code makes of it.  White space inside a reference does not count.
-/

namespace ApiDoc

/-- What a reference asks for. -/
inductive Reference
  /-- What the builder of a code makes of a model. -/
  | call (code model : String)
  /-- A list of a model. -/
  | list (model : String)
  /-- Any other text: the name itself. -/
  | plain
deriving DecidableEq, Repr, Inhabited

namespace Reference

/-- A letter and the word characters after it. -/
def name? : List Char → Option (List Char × List Char)
  | c :: cs =>
      if c.isAlpha then some (c :: cs.takeWhile Text.isWord, cs.dropWhile Text.isWord) else none
  | [] => none

/-- A call at the start of a text. -/
def callHere? (cs : List Char) : Option (String × String) :=
  match name? cs with
  | some (code, '(' :: rest) =>
      match name? rest with
      | some (model, ')' :: _) => some (String.ofList code, String.ofList model)
      | _ => none
  | _ => none

/-- The leftmost call in a text. -/
def call? : List Char → Option (String × String)
  | [] => none
  | c :: cs => (callHere? (c :: cs)).or (call? cs)

/-- Read a reference. -/
def parse (reference : String) : Reference :=
  let text := reference.toList.filter (!Text.isBlank ·)
  match call? text with
  | some (code, model) => .call code model
  | none =>
      match Text.dropTail? ['[', ']'] text with
      | some model => .list (String.ofList model)
      | none => .plain

/-- The schema of a call or a list; nothing for the plain name of a model. -/
def structured (builders : Builders) (reference uri : String) :
    Except Error (Option Schema) :=
  match parse reference with
  | .call code model =>
      match builders.find? code with
      | some builder => .ok (some (builder (Schema.refPath model) uri))
      | none => .error (.builderNotFound code uri)
  | .list model => .ok (some (.arrayOf (.ref model)))
  | .plain => .ok none

/-- The name of a plain reference. -/
def trimmed (reference : String) : String :=
  Text.onString Text.trim reference

/-- The schema of any reference; a plain name refers to its component. -/
def resolve (builders : Builders) (reference uri : String) : Except Error Schema := do
  match ← structured builders reference uri with
  | some schema => return schema
  | none => return .ref (trimmed reference)

end Reference

end ApiDoc
