import ApiDoc.DataFile
import ApiDoc.FileTree
import ApiDoc.Source.Entities

/-!
# Scanning a directory for source files

A scan finds the files with the extension `rs` at every depth, and leaves out hidden
names and build directories below its root.  A link counts as the file that it leads to,
and is not followed to a directory.  The files come in the order of the names on the way
to them, so the order of the entries of a directory does not matter.
-/

namespace ApiDoc.Source

/-- A name that is passed over. -/
def isSkipped (name : String) : Bool :=
  name.toList.head? = some '.' || name = "target"

/-- The name of a source file. -/
def isSourceName (name : String) : Bool :=
  DataFile.extension? name = some "rs"

/-- A source file: the names on the way to it, and its text. -/
abbrev Found := List String × String

/-- What is read as a file under a name, if the name is that of a source file. -/
def foundFile (name : String) (text : Option String) : List Found :=
  if isSourceName name then text.toList.map fun text => ([name], text) else []

mutual

/-- The source files in an entry of a directory. -/
def foundAt (name : String) : FileTree → List Found
  | .file text => foundFile name (some text)
  | .special text => foundFile name text
  | .directory entries => (foundAmong entries).map fun (names, text) => (name :: names, text)

/-- The source files among the entries of a directory. -/
def foundAmong : List (String × FileTree) → List Found
  | [] => []
  | (name, tree) :: rest => (if isSkipped name then [] else foundAt name tree) ++ foundAmong rest

end

/-- Paths in the order of their names, the first that differ deciding; a path is
before the longer ones it begins. -/
def pathsInOrder : List String → List String → Bool
  | [], _ => true
  | _ :: _, [] => false
  | a :: as, b :: bs => decide (a < b) || (decide (a = b) && pathsInOrder as bs)

/-- Two files in the order of the names on the way to them. -/
def inOrder (a b : Found) : Bool :=
  pathsInOrder a.1 b.1

/-- The source files of a directory, in their order; nothing for anything else. -/
def scan? : FileTree → Option (List Found)
  | .file _ => none
  | .special _ => none
  | .directory entries => some ((foundAmong entries).mergeSort inOrder)

/-- A file with its path. -/
structure SourceFile where
  path : String
  text : String
deriving Repr, Inhabited

/-- The path of what is found under a root. -/
def pathBelow (root : String) (names : List String) : String :=
  let relative := "/".intercalate names
  if root.toList.getLast? = some '/' then root ++ relative else root ++ "/" ++ relative

/-- The source files below a root. -/
def filesBelow? (root : String) (tree : FileTree) : Option (List SourceFile) :=
  (scan? tree).map fun found =>
    found.map fun (names, text) => ⟨pathBelow root names, text⟩

/-- What is said of a root that is no directory. -/
def noDirectory (root : String) : String :=
  "Source directory does not exist: " ++ root

/-- What is said of a file that is malformed. -/
def malformed (path : String) : String :=
  "Failed to parse Rust syntax in file: " ++ path

/-- What the files say; one that is malformed is passed over with a warning. -/
def Findings.ofFiles (files : List SourceFile) : Findings × List Warning :=
  let read := files.map fun f => (f.path, items? f.text.toList)
  let skipped := read.filterMap fun (path, items) =>
    if items.isNone then some (Warning.skippedFile path) else none
  (.ofItems (read.flatMap fun (_, items) => items.getD []), skipped)

end ApiDoc.Source
