import ApiDoc.Text.Basic

/-!
# Brackets and quoted strings

Two scans look only at characters outside double-quoted strings: `closing?`
finds the parenthesis that closes the first one, and `splitTop` cuts a text
where no bracket is open.  A backslash inside a string hides the character
after it.  The pieces of `splitTop` lose nothing but the separators.
-/

namespace ApiDoc.Text

/-- Where a scan stands with respect to double-quoted strings. -/
inductive Quoting
  | outside
  | inside
  | escaped
deriving DecidableEq, Repr, Inhabited

/-- The state after one more character. -/
def Quoting.next : Quoting → Char → Quoting
  | .outside, c => if c = '"' then .inside else .outside
  | .inside, c => if c = '\\' then .escaped else if c = '"' then .outside else .inside
  | .escaped, _ => .inside

/-- The text up to the parenthesis that brings the depth back to zero, and the
text after it.  Closing more than was opened leaves the depth at zero. -/
def closing? : Quoting → (depth : Nat) → List Char → Option (List Char × List Char)
  | _, _, [] => none
  | q, depth, c :: cs =>
      let go := fun (depth : Nat) =>
        (closing? (q.next c) depth cs).map fun (inner, rest) => (c :: inner, rest)
      if q ≠ .outside then go depth
      else if c = '(' then go (depth + 1)
      else if c = ')' then if depth ≤ 1 then some ([], cs) else go (depth - 1)
      else go depth

/-- For a text that starts with a parenthesis: what is inside, and what follows. -/
def parenthesized? : List Char → Option (List Char × List Char)
  | '(' :: cs => closing? .outside 1 cs
  | _ => none

def isOpening (c : Char) : Bool :=
  c = '[' || c = '\x7b' || c = '('

def isClosing (c : Char) : Bool :=
  c = ']' || c = '\x7d' || c = ')'

/-- The depth of brackets after a character outside strings. -/
def depthAfter (depth : Int) (c : Char) : Int :=
  if isOpening c then depth + 1 else if isClosing c then depth - 1 else depth

/-- Cut at separators outside strings and at depth zero. -/
def splitTopFrom (sep : Char) : Quoting → (depth : Int) → List Char → List (List Char)
  | _, _, [] => [[]]
  | q, depth, c :: cs =>
      if q ≠ .outside || c = '"' then growFirst c (splitTopFrom sep (q.next c) depth cs)
      else if isOpening c || isClosing c then
        growFirst c (splitTopFrom sep .outside (depthAfter depth c) cs)
      else if depth = 0 && c = sep then [] :: splitTopFrom sep .outside depth cs
      else growFirst c (splitTopFrom sep .outside depth cs)

/-- Cut a text at the separators that stand outside brackets and strings. -/
def splitTop (sep : Char) (cs : List Char) : List (List Char) :=
  splitTopFrom sep .outside 0 cs

theorem splitTopFrom_ne_nil (sep : Char) (q : Quoting) (depth : Int) (cs : List Char) :
    splitTopFrom sep q depth cs ≠ [] := by
  cases cs with
  | nil => simp [splitTopFrom]
  | cons c cs =>
      unfold splitTopFrom
      split
      · exact growFirst_ne_nil _ _
      · split
        · exact growFirst_ne_nil _ _
        · split
          · simp
          · exact growFirst_ne_nil _ _

/-- Joining the pieces gives the text back. -/
theorem join_splitTopFrom (sep : Char) (q : Quoting) (depth : Int) (cs : List Char) :
    join [sep] (splitTopFrom sep q depth cs) = cs := by
  induction cs generalizing q depth with
  | nil => simp [splitTopFrom, join]
  | cons c cs ih =>
      unfold splitTopFrom
      split
      · rw [join_growFirst _ _ (splitTopFrom_ne_nil _ _ _ _), ih]
      · split
        · rw [join_growFirst _ _ (splitTopFrom_ne_nil _ _ _ _), ih]
        · split
          · rename_i h
            simp only [Bool.and_eq_true, decide_eq_true_eq] at h
            rw [join_cons_of_ne_nil _ _ (splitTopFrom_ne_nil _ _ _ _), ih]
            simp [h.2]
          · rw [join_growFirst _ _ (splitTopFrom_ne_nil _ _ _ _), ih]

end ApiDoc.Text
