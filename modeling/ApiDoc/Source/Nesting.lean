import ApiDoc.Source.Literal

/-!
# Reading token trees

Tokens are read from the left and collected in the innermost open group.  At the end
of the text every group must be closed, each by a bracket of its own kind.
-/

namespace ApiDoc.Source

/-- A text literal that stands for a text. -/
def writtenText (text : List Char) : String :=
  let escape := fun c : Char =>
    if c = '"' then ['\\', '"'] else if c = '\\' then ['\\', '\\']
    else if c = '\n' then ['\\', 'n'] else if c = '\r' then ['\\', 'r']
    else if c = '\t' then ['\\', 't'] else [c]
  String.ofList ('"' :: text.flatMap escape ++ ['"'])

/-- The attribute that a documentation comment stands for. -/
def DocText.attribute (d : DocText) : List Tree :=
  let literal := Tree.literal (writtenText d.text) (.text (String.ofList d.text))
  .mark '#' false :: (if d.isInner then [.mark '!' false] else []) ++
    [.group .square [.word "doc", .mark '=' false, literal]]

/-- A literal, a mark or a word. -/
def leaf? (cs : List Char) : Option (Tree × List Char) :=
  ((literal? cs).or (mark? cs)).or (word? cs)

def opening? : Char → Option Bracket
  | '(' => some .round
  | '[' => some .square
  | '\x7b' => some .curly
  | _ => none

def closing? : Char → Option Bracket
  | ')' => some .round
  | ']' => some .square
  | '\x7d' => some .curly
  | _ => none

/-- The groups that are open, each with the trees before it in reverse. -/
abbrev OpenGroups := List (Bracket × List Tree)

/-- Read trees up to the end; `done` are those of the innermost group, in reverse. -/
def readTrees? : (fuel : Nat) → OpenGroups → (done : List Tree) → List Char →
    Option (List Tree)
  | 0, _, _, _ => none
  | fuel + 1, groups, done, cs =>
      let cs := dropBlanks cs.length cs
      match docText? cs with
      | some (doc, rest) =>
          if hasLoneReturn doc.text then none
          else readTrees? fuel groups (doc.attribute.reverse ++ done) rest
      | none =>
          match cs with
          | [] => if groups.isEmpty then some done.reverse else none
          | c :: rest =>
              match opening? c, closing? c, groups with
              | some bracket, _, _ => readTrees? fuel ((bracket, done) :: groups) [] rest
              | none, some bracket, (opened, before) :: groups =>
                  if opened = bracket then
                    readTrees? fuel groups (.group bracket done.reverse :: before) rest
                  else none
              | none, some _, [] => none
              | none, none, _ =>
                  match leaf? cs with
                  | some (tree, rest) => readTrees? fuel groups (tree :: done) rest
                  | none => none

/-- The trees of a text; a mark of byte order at its start is skipped. -/
def trees? (cs : List Char) : Option (List Tree) :=
  let cs := (Text.dropHead? [Char.ofNat 0xFEFF] cs).getD cs
  readTrees? (cs.length + 1) [] [] cs

end ApiDoc.Source
