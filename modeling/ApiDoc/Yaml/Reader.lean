import ApiDoc.Datum
import ApiDoc.Yaml.Plain
import ApiDoc.Yaml.Token

/-!
# Reading YAML

A text is one document, and a document is one datum; a text without any content is
a blank one.  Aliases are replaced by what they stand for, which must have ended
before the alias.
-/

namespace ApiDoc.Yaml

/-- What the scalars and tags of a document refer to. -/
structure Scope where
  /-- The data with an anchor; one that has not ended cannot be used. -/
  anchors : Dict (Option Datum) := []
  /-- What each handle of tags stands for. -/
  handles : Dict String := [("!", "!"), ("!!", "tag:yaml.org,2002:")]
deriving Inhabited

/-- The marks in front of a value. -/
structure Marks where
  anchor : Option String := none
  tag : Option String := none
deriving Repr, Inhabited

/-- The name of a type of the standard schema. -/
def standardTag (name : String) : String :=
  "tag:yaml.org,2002:" ++ name

/-- A scalar as a datum.  A tag of the standard schema decides how it is read; one of
an application has no value. -/
def scalarDatum (tag : Option String) (cs : List Char) (plain : Bool) : Datum :=
  let text := String.ofList cs
  let value := match tag with
    | none => if plain then Plain.value? cs else some (.str text)
    | some tag =>
        if tag = standardTag "bool" then (Plain.bool? cs).map .bool
        else if tag = standardTag "int" then (Plain.int? cs).bind Plain.intValue?
        else if tag = standardTag "float" then (Plain.float? cs).map Plain.floatValue
        else if tag = standardTag "null" then if Plain.isNull cs then some .null else none
        else if tag.toList.head? = some '!' then none
        else some (.str text)
  if tag.isNone && plain && cs.isEmpty then .blank else .scalar value (some text)

namespace Scope

/-- The full tag behind a handle. -/
def resolve? (s : Scope) (name : TagName) : Option String :=
  if name.handle = "" then some name.suffix
  else (Dict.find? s.handles name.handle).map (· ++ name.suffix)

/-- Bind an anchor. -/
def bind (s : Scope) (anchor : Option String) (d : Option Datum) : Scope :=
  match anchor with
  | none => s
  | some name => { s with anchors := Dict.put s.anchors name d }

end Scope

/-- The marks at the start of a list of tokens: at most one anchor and one tag. -/
def marks? (s : Scope) (ts : List Token) : Option (Marks × List Token) :=
  match ts with
  | .anchor name :: .tag tag :: rest =>
      (s.resolve? tag).map fun tag => (⟨some name, some tag⟩, rest)
  | .tag tag :: .anchor name :: rest =>
      (s.resolve? tag).map fun tag => (⟨some name, some tag⟩, rest)
  | .anchor name :: rest => some (⟨some name, none⟩, rest)
  | .tag tag :: rest => (s.resolve? tag).map fun tag => (⟨none, some tag⟩, rest)
  | _ => some ({}, ts)

/-- Where a value stands. -/
inductive Place
  /-- In a flow collection. -/
  | flow
  /-- In a block collection. -/
  | block
  /-- As a key or a value of a block mapping, where a sequence needs no indent. -/
  | entry
deriving DecidableEq, Repr, Inhabited

/-- Whether a value is left out before these tokens. -/
def isMissing (stops : List Token) (ts : List Token) : Bool :=
  match ts with
  | [] => false
  | t :: _ => stops.contains t

/-- A datum with the scope and the tokens after it. -/
abbrev Parsed (α : Type) := α × Scope × List Token

/-- Levels of collections that a document may have. -/
def maxDepth : Nat := 128

mutual

/-- One value. -/
def value? : (fuel depth : Nat) → Place → Scope → List Token → Option (Parsed Datum)
  | 0, _, _, _, _ => none
  | fuel + 1, depth, place, s, ts =>
      match ts with
      | .aliasTo name :: rest =>
          match Dict.find? s.anchors name with
          | some (some d) => some (d, s, rest)
          | _ => none
      | _ =>
          match marks? s ts with
          | none => none
          | some (marks, ts) =>
              match ts with
              | .scalar text plain :: rest =>
                  let d := scalarDatum marks.tag text plain
                  some (d, s.bind marks.anchor (some d), rest)
              | _ =>
                  match collection? fuel depth place (s.bind marks.anchor none) ts with
                  | some (some (d, s, rest)) =>
                      some (d, s.bind marks.anchor (some d), rest)
                  | some none =>
                      if marks.anchor.isSome || marks.tag.isSome then
                        let d := scalarDatum marks.tag [] true
                        some (d, s.bind marks.anchor (some d), ts)
                      else none
                  | none => none

/-- A collection, if one begins here. -/
def collection? : (fuel depth : Nat) → Place → Scope → List Token →
    Option (Option (Parsed Datum))
  | 0, _, _, _, _ => none
  | _ + 1, 0, _, _, ts =>
      match ts with
      | .blockEntry :: _ | .blockSequenceStart :: _ | .blockMappingStart :: _
      | .flowSequenceStart :: _ | .flowMappingStart :: _ => none
      | _ => some none
  | fuel + 1, depth + 1, place, s, ts =>
      let list := fun (p : Parsed (List Datum)) => some (some (.list p.1 false, p.2))
      let map := fun (p : Parsed (List (Datum × Datum))) => some (some (Datum.map p.1, p.2))
      match ts with
      | .blockEntry :: _ =>
          if place = .entry then (indentless? fuel depth [] s ts).bind list else some none
      | .blockSequenceStart :: rest =>
          if place = .flow then some none else (blockItems? fuel depth [] s rest).bind list
      | .blockMappingStart :: rest =>
          if place = .flow then some none else (blockEntries? fuel depth [] s rest).bind map
      | .flowSequenceStart :: rest => (flowItems? fuel depth [] s rest).bind list
      | .flowMappingStart :: rest => (flowEntries? fuel depth [] s rest).bind map
      | _ => some none

/-- A value, or a blank if it is left out before one of the given tokens. -/
def optional? : (fuel depth : Nat) → Place → List Token → Scope → List Token →
    Option (Parsed Datum)
  | 0, _, _, _, _, _ => none
  | fuel + 1, depth, place, stops, s, ts =>
      if isMissing stops ts then some (.blank, s, ts) else value? fuel depth place s ts

/-- The items of a block sequence. -/
def blockItems? : (fuel depth : Nat) → List Datum → Scope → List Token →
    Option (Parsed (List Datum))
  | 0, _, _, _, _ => none
  | fuel + 1, depth, acc, s, ts =>
      match ts with
      | .blockEntry :: rest =>
          match optional? fuel depth .block [.blockEntry, .blockEnd] s rest with
          | some (d, s, rest) => blockItems? fuel depth (d :: acc) s rest
          | none => none
      | .blockEnd :: rest => some (acc.reverse, s, rest)
      | _ => none

/-- The items of a sequence that is indented like the mapping around it. -/
def indentless? : (fuel depth : Nat) → List Datum → Scope → List Token →
    Option (Parsed (List Datum))
  | 0, _, _, _, _ => none
  | fuel + 1, depth, acc, s, ts =>
      match ts with
      | .blockEntry :: rest =>
          match optional? fuel depth .block [.blockEntry, .key, .value, .blockEnd] s rest with
          | some (d, s, rest) => indentless? fuel depth (d :: acc) s rest
          | none => none
      | _ => some (acc.reverse, s, ts)

/-- The entries of a block mapping. -/
def blockEntries? : (fuel depth : Nat) → List (Datum × Datum) → Scope → List Token →
    Option (Parsed (List (Datum × Datum)))
  | 0, _, _, _, _ => none
  | fuel + 1, depth, acc, s, ts =>
      match ts with
      | .key :: rest =>
          match optional? fuel depth .entry [.key, .value, .blockEnd] s rest with
          | some (k, s, .value :: rest) =>
              match optional? fuel depth .entry [.key, .value, .blockEnd] s rest with
              | some (d, s, rest) => blockEntries? fuel depth ((k, d) :: acc) s rest
              | none => none
          | some (k, s, rest) => blockEntries? fuel depth ((k, .blank) :: acc) s rest
          | none => none
      | .blockEnd :: rest => some (acc.reverse, s, rest)
      | _ => none

/-- The items of a flow sequence; a key makes a mapping of one entry. -/
def flowItems? : (fuel depth : Nat) → List Datum → Scope → List Token →
    Option (Parsed (List Datum))
  | 0, _, _, _, _ => none
  | fuel + 1, depth, acc, s, ts =>
      match ts with
      | .flowSequenceEnd :: rest => some (acc.reverse, s, rest)
      | _ =>
          let item := match ts with
            | .key :: rest =>
                match depth with
                | 0 => none
                | depth + 1 => pair? fuel depth s rest
            | _ => value? fuel depth .flow s ts
          match item with
          | some (d, s, .flowEntry :: rest) => flowItems? fuel depth (d :: acc) s rest
          | some (d, s, .flowSequenceEnd :: rest) => some ((d :: acc).reverse, s, rest)
          | _ => none

/-- A mapping of one entry in a flow sequence. -/
def pair? : (fuel depth : Nat) → Scope → List Token → Option (Parsed Datum)
  | 0, _, _, _ => none
  | fuel + 1, depth, s, ts =>
      let stops : List Token := [.value, .flowEntry, .flowSequenceEnd]
      let key :=
        if isMissing stops ts then some (Datum.blank, s, ts.drop 1)
        else value? fuel depth .flow s ts
      match key with
      | some (k, s, .value :: rest) =>
          match optional? fuel depth .flow [.flowEntry, .flowSequenceEnd] s rest with
          | some (d, s, rest) => some (.map [(k, d)], s, rest)
          | none => none
      | some (k, s, rest) => some (.map [(k, .blank)], s, rest)
      | none => none

/-- The entries of a flow mapping; a value alone is a key without value. -/
def flowEntries? : (fuel depth : Nat) → List (Datum × Datum) → Scope → List Token →
    Option (Parsed (List (Datum × Datum)))
  | 0, _, _, _, _ => none
  | fuel + 1, depth, acc, s, ts =>
      match ts with
      | .flowMappingEnd :: rest => some (acc.reverse, s, rest)
      | _ =>
          let entry := match ts with
            | .key :: rest =>
                match optional? fuel depth .flow [.value, .flowEntry, .flowMappingEnd] s rest with
                | some (k, s, .value :: rest) =>
                    match optional? fuel depth .flow [.flowEntry, .flowMappingEnd] s rest with
                    | some (d, s, rest) => some ((k, d), s, rest)
                    | none => none
                | some (k, s, rest) => some ((k, .blank), s, rest)
                | none => none
            | _ =>
                match value? fuel depth .flow s ts with
                | some (k, s, rest) => some ((k, .blank), s, rest)
                | none => none
          match entry with
          | some (e, s, .flowEntry :: rest) => flowEntries? fuel depth (e :: acc) s rest
          | some (e, s, .flowMappingEnd :: rest) => some ((e :: acc).reverse, s, rest)
          | _ => none

end

/-- The directives in front of a document: at most one version, and a meaning for
each handle. -/
def directives? (version : Bool) (own : List String) (s : Scope) :
    List Token → Option (Scope × List Token)
  | .version :: rest => if version then none else directives? true own s rest
  | .tagHandle handle uri :: rest =>
      if own.contains handle then none
      else
        directives? version (handle :: own)
          { s with handles := Dict.put s.handles handle uri } rest
  | ts => some (s, ts)

/-- Whether a token stands in front of a document. -/
def isHead : Token → Bool
  | .version | .tagHandle .. | .documentStart => true
  | _ => false

/-- Whether a document ends before these tokens. -/
def atDocumentEnd : List Token → Bool
  | [] => true
  | t :: _ => isHead t || t = .documentEnd

/-- The content of a document: nothing, or one value up to the marks of its end. -/
def content? (s : Scope) (ts : List Token) : Option Datum :=
  let finish := fun (d : Datum) (ts : List Token) =>
    if (ts.dropWhile (· = .documentEnd)).isEmpty then some d else none
  if atDocumentEnd ts then finish .blank ts
  else
    match value? (4 * ts.length + 4) maxDepth .block s ts with
    | some (d, _, rest) => finish d rest
    | none => none

/-- The only document of a list of tokens. -/
def document? (ts : List Token) : Option Datum :=
  match ts with
  | [] => some .blank
  | t :: _ =>
      if isHead t then
        match directives? false [] {} ts with
        | some (s, .documentStart :: rest) => content? s rest
        | _ => none
      else if t = .documentEnd then none
      else content? {} ts

/-- Read a text. -/
def read? (text : List Char) : Option Datum :=
  (Token.scan? text).bind document?

end ApiDoc.Yaml
