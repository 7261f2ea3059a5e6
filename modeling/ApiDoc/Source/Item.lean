import ApiDoc.Source.Tree

/-!
# Items of a source file

What a source file says about schemas and handlers: its structs with their fields,
and the methods of its types, each with the attributes in front of it.  Other items
are known to be well formed, and are not kept.
-/

namespace ApiDoc.Source

/-- How a path starts. -/
inductive PathOrigin
  | plain
  /-- With two colons. -/
  | rooted
  /-- With a type in angle brackets, seen as some trait or not. -/
  | qualified
deriving DecidableEq, Repr, Inhabited

mutual

/-- A type, as far as it has a text. -/
inductive TypeExpr
  | path (origin : PathOrigin) (segments : List Segment)
  /-- A reference to a type, or a type in parentheses. -/
  | wrapped (inner : TypeExpr)
  /-- A slice or an array. -/
  | sequence (element : TypeExpr)
  | unit
  /-- A function, a trait object, a pointer, a tuple, and the like. -/
  | other

/-- A name in a path, with its arguments in angle brackets. -/
inductive Segment
  | mk (name : String) (arguments : List Argument)

/-- An argument in angle brackets; only types have a text. -/
inductive Argument
  | type (t : TypeExpr)
  | other

end

instance : Inhabited TypeExpr := ⟨.other⟩
instance : Inhabited Segment := ⟨.mk "" []⟩
instance : Inhabited Argument := ⟨.other⟩

/-- What an attribute says about its name. -/
inductive AttributeValue
  | none
  /-- Trees in brackets. -/
  | list (trees : List Tree)
  /-- A text after an equals sign. -/
  | text (value : String)
  /-- Another expression after an equals sign. -/
  | other
deriving Repr, Inhabited

/-- An attribute; a path of several segments is no name. -/
structure Attribute where
  name : Option String
  value : AttributeValue
deriving Repr, Inhabited

/-- A field of a struct; those of a tuple have no name. -/
structure Field where
  name : Option String := none
  attributes : List Attribute := []
  type : TypeExpr
deriving Inhabited

structure Struct where
  name : String
  /-- It has parameters in angle brackets. -/
  isGeneric : Bool := false
  attributes : List Attribute := []
  fields : List Field := []
deriving Inhabited

structure Method where
  name : String
  attributes : List Attribute := []
deriving Inhabited

inductive Item
  | struct (s : Struct)
  /-- The methods of a type that belong to no trait. -/
  | methods (owner : TypeExpr) (methods : List Method)
  | module (items : List Item)
  | other

instance : Inhabited Item := ⟨.other⟩

end ApiDoc.Source
