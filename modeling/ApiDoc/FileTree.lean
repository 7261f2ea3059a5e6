import ApiDoc.Dict
import ApiDoc.Text.Basic

/-!
# Files and directories

A tree of files stands for a directory and all that is in it.  A path is followed step
by step: an empty step or a point stays, two points go up, and a name goes down.  No
path leads out of the tree, and none goes on behind a link.
-/

namespace ApiDoc

/-- What stands under a name. -/
inductive FileTree
  | file (text : String)
  | directory (entries : List (String × FileTree))
  /-- A link or a special file, with the text that is read through it if it leads to a
  file. -/
  | special (text : Option String)
deriving Repr, Inhabited

namespace FileTree

def isDirectory : FileTree → Bool
  | directory _ => true
  | file _ => false
  | special _ => false

/-- What is read as a file: the text of one, or of the one that a link leads to. -/
def text? : FileTree → Option String
  | file text => some text
  | directory _ => none
  | special text => text

/-- What stands under a list of names. -/
def at? : FileTree → List String → Option FileTree
  | tree, [] => some tree
  | directory entries, name :: rest => (Dict.find? entries name).bind fun tree => at? tree rest
  | file _, _ :: _ => none
  | special _, _ :: _ => none

/-- Put a tree under a list of names, all but the last of which are directories. -/
def put : FileTree → List String → FileTree → FileTree
  | _, [], tree => tree
  | directory entries, name :: rest, tree =>
      let old := (Dict.find? entries name).getD (directory [])
      directory (Dict.put entries name (put old rest tree))
  | file text, _ :: _, _ => file text
  | special text, _ :: _, _ => special text

/-- The steps of a path. -/
def steps (path : String) : List String :=
  (Text.splitOn '/' path.toList).map String.ofList

/-- A place in a tree. -/
structure Place where
  tree : FileTree
  names : List String := []
deriving Inhabited

/-- Go one step from a directory; a missing one is made where that is allowed. -/
def Place.step? (make : Bool) (p : Place) (step : String) : Option Place :=
  match p.tree.at? p.names with
  | some (directory _) =>
      if step = "" || step = "." then some p
      else if step = ".." then
        if p.names.isEmpty then none else some { p with names := p.names.dropLast }
      else
        let names := p.names ++ [step]
        if (p.tree.at? names).isSome then some { p with names }
        else if make then some { tree := p.tree.put names (directory []), names }
        else none
  | _ => none

/-- The end of a path. -/
def place? (make : Bool) (tree : FileTree) (path : String) : Option Place :=
  if path = "" || path.toList.head? = some '/' then none
  else (steps path).foldlM (Place.step? make) { tree }

/-- What a path leads to. -/
def find? (tree : FileTree) (path : String) : Option FileTree :=
  (place? false tree path).bind fun p => p.tree.at? p.names

/-- Make a directory and those on the way to it. -/
def makeDirectory? (tree : FileTree) (path : String) : Option FileTree :=
  (place? true tree path).bind fun p =>
    if (p.tree.at? p.names).any isDirectory then some p.tree else none

/-- The steps of a path in reverse, without those at its end that stay. -/
def dropStays : List String → List String
  | [] => []
  | [first] => if first = "" then [] else [first]
  | step :: rest => if step = "" || step = "." then dropStays rest else step :: rest

/-- The path without its last step, empty for a single one. -/
def parentPath (path : String) : String :=
  "/".intercalate (dropStays ((dropStays (steps path).reverse).drop 1)).reverse

/-- Why a file cannot be written. -/
inductive WriteFault
  /-- A directory on the way cannot be made. -/
  | directory (path : String)
  | file (path : String)
deriving DecidableEq, Repr, Inhabited

/-- Write a file into the directory of a path, which must be there. -/
def putFile? (tree : FileTree) (path text : String) : Option FileTree := do
  let all := steps path
  let name ← all.getLast?
  if name = "" || name = "." || name = ".." then none
  let place ← if all.length = 1 then some { tree } else
    place? false tree ("/".intercalate all.dropLast)
  match place.tree.at? place.names with
  | some (directory entries) =>
      if (Dict.find? entries name).any isDirectory then none
      else some (tree.put (place.names ++ [name]) (file text))
  | _ => none

/-- Write a file, and make the directories on the way to it. -/
def write (tree : FileTree) (path text : String) : Except WriteFault FileTree := do
  let parent := parentPath path
  let tree ←
    if parent = "" then .ok tree
    else (tree.makeDirectory? parent).elim (.error (.directory parent)) .ok
  (tree.putFile? path text).elim (.error (.file path)) .ok

/-- The tree of some files with their paths; a path without a text is a directory. -/
def ofFiles (files : List (String × Option String)) : FileTree :=
  files.foldl (fun tree (path, text) =>
    match text with
    | some text => ((tree.write path text).toOption).getD tree
    | none => (tree.makeDirectory? path).getD tree) (directory [])

theorem at?_nil (tree : FileTree) : tree.at? [] = some tree := by
  cases tree <;> rfl

theorem at?_cons_directory (entries : List (String × FileTree)) (name : String)
    (rest : List String) :
    (directory entries).at? (name :: rest) =
      (Dict.find? entries name).bind fun tree => tree.at? rest := rfl

end FileTree

end ApiDoc
