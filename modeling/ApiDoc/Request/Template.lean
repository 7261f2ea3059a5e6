import ApiDoc.Document.Basic
import ApiDoc.Text.Basic

/-!
# Path templates

A path template is text with placeholders in braces.  `pieces` takes it apart,
`render` writes it again, and the names of the placeholders are the path
parameters of every operation under the template.
-/

namespace ApiDoc.Template

/-- A part of a template: one character of text, or a placeholder. -/
inductive Piece
  | char (c : Char)
  | placeholder (name : List Char)
deriving DecidableEq, Repr, Inhabited

def Piece.render : Piece → List Char
  | .char c => [c]
  | .placeholder name => '\x7b' :: name ++ ['\x7d']

/-- Take a text apart; `opened` holds the text since an opening brace, last
character first.  A brace that is never closed is text. -/
def piecesFrom (opened : Option (List Char)) : List Char → List Piece
  | [] =>
      match opened with
      | none => []
      | some name => ('\x7b' :: name.reverse).map .char
  | c :: cs =>
      match opened with
      | none => if c = '\x7b' then piecesFrom (some []) cs else .char c :: piecesFrom none cs
      | some name =>
          if c = '\x7d' then .placeholder name.reverse :: piecesFrom none cs
          else piecesFrom (some (c :: name)) cs

/-- The parts of a template. -/
def pieces (uri : String) : List Piece :=
  piecesFrom none uri.toList

/-- The template with these parts. -/
def render (ps : List Piece) : String :=
  String.ofList (ps.flatMap Piece.render)

/-- The name of a placeholder without marks of optionality. -/
def bareName (name : List Char) : String :=
  String.ofList (Text.dropEndWhile (· = '?') name)

/-- The names of the placeholders in order. -/
def names (uri : String) : List String :=
  (pieces uri).filterMap fun
    | .placeholder name => some (bareName name)
    | .char _ => none

/-- The path parameters of a template: required strings, in order. -/
def parameters (uri : String) : List Parameter :=
  (names uri).map fun name =>
    { name, location := .path, required := true, schema := .typed "string" }

/-- Rename placeholders by position: the one for which a new name is given
changes, the others stay. -/
def renameFrom : List (Option String) → List Piece → List Piece
  | _, [] => []
  | news, .char c :: rest => .char c :: renameFrom news rest
  | [], .placeholder name :: rest => .placeholder name :: renameFrom [] rest
  | new :: news, .placeholder name :: rest =>
      .placeholder ((new.map String.toList).getD name) :: renameFrom news rest

/-- Rename the placeholders of a template by position. -/
def rename (uri : String) (news : List (Option String)) : String :=
  render (renameFrom news (pieces uri))

theorem flatMap_render_char (cs : List Char) :
    (cs.map Piece.char).flatMap Piece.render = cs := by
  induction cs with
  | nil => rfl
  | cons c cs ih => simp [Piece.render, ih]

theorem flatMap_render_piecesFrom (cs : List Char) :
    (piecesFrom none cs).flatMap Piece.render = cs ∧
      ∀ name, (piecesFrom (some name) cs).flatMap Piece.render = '\x7b' :: name.reverse ++ cs := by
  induction cs with
  | nil =>
      constructor
      · rfl
      · intro name
        show (('\x7b' :: name.reverse).map Piece.char).flatMap Piece.render = _
        rw [flatMap_render_char]
        simp
  | cons c cs ih =>
      constructor
      · by_cases h : c = '\x7b'
        · simp [piecesFrom, h, ih.2]
        · simp [piecesFrom, h, Piece.render, ih.1]
      · intro name
        by_cases h : c = '\x7d'
        · simp [piecesFrom, h, Piece.render, ih.1]
        · simp [piecesFrom, h, ih.2]

/-- Writing the parts of a template gives the template. -/
theorem render_pieces (uri : String) : render (pieces uri) = uri := by
  simp [render, pieces, (flatMap_render_piecesFrom uri.toList).1]

end ApiDoc.Template
