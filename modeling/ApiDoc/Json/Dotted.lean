import ApiDoc.Json.Basic
import ApiDoc.Text.Digits

/-!
# Dotted paths

A dotted path names a place in a tree: a segment is a key, or a position where
the tree has a list.  `setAt` writes to a place and makes objects on the way;
`at?` reads it.
-/

namespace ApiDoc.Json

/-- The position that a segment names. -/
def position? (segment : String) : Option Nat :=
  Text.natural? segment.toList

/-- The position of a segment in a list of this length; the place behind the
last item counts. -/
def slot? (segment : String) (length : Nat) : Option Nat :=
  (position? segment).filter (· ≤ length)

/-- Write a value to a place.  A position in a list replaces that item or
appends one; any other segment is a key of an object, and a node that is no
object gives way to one. -/
def setAt : (path : List String) → (tree value : Json) → Json
  | [], _, value => value
  | segment :: path, tree, value =>
      let asKey := fun (members : List (String × Json)) =>
        obj (Dict.put members segment
          (setAt path ((Dict.find? members segment).getD (obj [])) value))
      match tree with
      | arr items =>
          match slot? segment items.length with
          | some i =>
              match items[i]? with
              | some item => arr (items.set i (setAt path item value))
              | none => arr (items ++ [setAt path null value])
          | none => asKey []
      | obj members => asKey members
      | _ => asKey []

/-- Read a place: a key of an object, or a position inside a list. -/
def at? : (path : List String) → Json → Option Json
  | [], tree => some tree
  | segment :: path, tree =>
      match tree with
      | arr items => (position? segment).bind fun i => (items[i]?).bind (at? path)
      | obj members => (Dict.find? members segment).bind (at? path)
      | _ => none

/-- The segments of a dotted path. -/
def segments (path : String) : List String :=
  (Text.splitOn '.' path.toList).map String.ofList

/-- Write a value to the place that a dotted path names. -/
def setDotted (tree : Json) (path : String) (value : Json) : Json :=
  setAt (segments path) tree value

end ApiDoc.Json
