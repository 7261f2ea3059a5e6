/-!
# Text as a list of characters

The readers of this library scan text from the left, so they work on lists of
characters and meet `String` only at their borders.  This module holds the
cutting and trimming they share.  Two laws are used throughout: joining the
pieces of `splitOn` gives the text back, and no piece contains the separator.
-/

namespace ApiDoc.Text

/-- White space, as the Unicode standard lists it. -/
def isBlank (c : Char) : Bool :=
  let n := c.toNat
  (9 ≤ n && n ≤ 13) || n == 32 || n == 0x85 || n == 0xA0 || n == 0x1680 ||
    (0x2000 ≤ n && n ≤ 0x200A) || n == 0x2028 || n == 0x2029 || n == 0x202F ||
    n == 0x205F || n == 0x3000

/-- Drop the longest tail whose characters all satisfy `p`. -/
def dropEndWhile (p : Char → Bool) (cs : List Char) : List Char :=
  (cs.reverse.dropWhile p).reverse

def trimStart (cs : List Char) : List Char :=
  cs.dropWhile isBlank

def trimEnd (cs : List Char) : List Char :=
  dropEndWhile isBlank cs

/-- Remove the white space at both ends. -/
def trim (cs : List Char) : List Char :=
  trimEnd (trimStart cs)

/-- Only white space, or nothing. -/
def allBlank (cs : List Char) : Bool :=
  cs.all isBlank

/-- Put one more character in front of the first piece. -/
def growFirst (c : Char) : List (List Char) → List (List Char)
  | [] => [[c]]
  | piece :: pieces => (c :: piece) :: pieces

/-- Cut at every occurrence of `sep`; always at least one piece. -/
def splitOn (sep : Char) : List Char → List (List Char)
  | [] => [[]]
  | c :: cs => if c = sep then [] :: splitOn sep cs else growFirst c (splitOn sep cs)

/-- The text before and after the first `sep`. -/
def cutFirst? (sep : Char) : List Char → Option (List Char × List Char)
  | [] => none
  | c :: cs =>
      if c = sep then some ([], cs)
      else (cutFirst? sep cs).map fun (before, after) => (c :: before, after)

/-- The rest of the text when it starts with `head`. -/
def dropHead? : (head text : List Char) → Option (List Char)
  | [], cs => some cs
  | _ :: _, [] => none
  | h :: hs, c :: cs => if h = c then dropHead? hs cs else none

/-- The rest of the text when it ends with `tail`. -/
def dropTail? (tail text : List Char) : Option (List Char) :=
  (dropHead? tail.reverse text.reverse).map List.reverse

def startsWith (head text : List Char) : Bool :=
  (dropHead? head text).isSome

/-- The text before and after the last occurrence of `mark`. -/
def cutLast? (mark : List Char) : List Char → Option (List Char × List Char)
  | [] => none
  | c :: cs =>
      match cutLast? mark cs with
      | some (before, after) => some (c :: before, after)
      | none => (dropHead? mark (c :: cs)).map fun after => ([], after)

/-- The text after the last character that satisfies `p`, all of it without one. -/
def afterLast (p : Char → Bool) (cs : List Char) : List Char :=
  (cs.reverse.takeWhile (!p ·)).reverse

/-- Pieces written one after another with `sep` between neighbours. -/
def join (sep : List Char) : List (List Char) → List Char
  | [] => []
  | [piece] => piece
  | piece :: pieces => piece ++ sep ++ join sep pieces

/-- Replace every occurrence of `mark`, taken from the left without overlap. -/
def replace (mark by_ : List Char) : Nat → List Char → List Char
  | 0, cs => cs
  | _ + 1, [] => []
  | fuel + 1, c :: cs =>
      match dropHead? mark (c :: cs) with
      | some rest => by_ ++ replace mark by_ fuel rest
      | none => c :: replace mark by_ fuel cs

/-- `replace` with enough fuel for the whole text. -/
def replaceAll (mark by_ text : List Char) : List Char :=
  replace mark by_ text.length text

/-- Remove a pair of equal quotes, or any run of quotes, from both ends. -/
def unquote (cs : List Char) : List Char :=
  let isQuote := fun c : Char => c = '"' || c = '\''
  dropEndWhile isQuote (cs.dropWhile isQuote)

/-- Lines of a text: cut at line feeds, each without one carriage return before
the cut, and without an empty last line. -/
def lines (cs : List Char) : List (List Char) :=
  let pieces := splitOn '\n' cs
  let stripped := pieces.dropLast.map fun line => (dropTail? ['\r'] line).getD line
  match pieces.getLast? with
  | some [] | none => stripped
  | some last => stripped ++ [last]

/-- A function on lists of characters, on strings. -/
def onString (f : List Char → List Char) (s : String) : String :=
  String.ofList (f s.toList)

theorem growFirst_ne_nil (c : Char) (pieces : List (List Char)) :
    growFirst c pieces ≠ [] := by
  cases pieces <;> simp [growFirst]

theorem splitOn_ne_nil (sep : Char) (cs : List Char) : splitOn sep cs ≠ [] := by
  cases cs with
  | nil => simp [splitOn]
  | cons c cs =>
      by_cases h : c = sep
      · simp [splitOn, h]
      · simp [splitOn, h, growFirst_ne_nil]

theorem join_growFirst (sep : List Char) (c : Char) {pieces : List (List Char)}
    (h : pieces ≠ []) : join sep (growFirst c pieces) = c :: join sep pieces := by
  match pieces, h with
  | [piece], _ => simp [growFirst, join]
  | piece :: next :: rest, _ => simp [growFirst, join]

theorem join_cons_of_ne_nil (sep piece : List Char) {pieces : List (List Char)}
    (h : pieces ≠ []) : join sep (piece :: pieces) = piece ++ sep ++ join sep pieces := by
  match pieces, h with
  | next :: rest, _ => simp [join]

/-- Joining what `splitOn` cuts gives the text back. -/
theorem join_splitOn (sep : Char) (cs : List Char) : join [sep] (splitOn sep cs) = cs := by
  induction cs with
  | nil => rfl
  | cons c cs ih =>
      by_cases h : c = sep
      · simp [splitOn, h, join_cons_of_ne_nil _ _ (splitOn_ne_nil sep cs), ih]
      · simp [splitOn, h, join_growFirst _ _ (splitOn_ne_nil sep cs), ih]

theorem mem_growFirst {c : Char} {pieces : List (List Char)} {piece : List Char}
    (h : piece ∈ growFirst c pieces) :
    piece ∈ pieces ∨ ∃ old, (old ∈ pieces ∨ old = []) ∧ piece = c :: old := by
  cases pieces with
  | nil => simp [growFirst] at h; exact .inr ⟨[], .inr rfl, h⟩
  | cons first rest =>
      rcases List.mem_cons.mp h with h | h
      · exact .inr ⟨first, .inl (List.mem_cons_self ..), h⟩
      · exact .inl (List.mem_cons_of_mem _ h)

/-- No piece contains the separator. -/
theorem not_mem_of_mem_splitOn {sep : Char} {cs piece : List Char}
    (h : piece ∈ splitOn sep cs) : sep ∉ piece := by
  induction cs generalizing piece with
  | nil => simp [splitOn] at h; simp [h]
  | cons c cs ih =>
      by_cases hc : c = sep
      · simp only [splitOn, hc, ↓reduceIte, List.mem_cons] at h
        rcases h with h | h
        · simp [h]
        · exact ih h
      · simp only [splitOn, hc, ↓reduceIte] at h
        rcases mem_growFirst h with h | ⟨old, hold, rfl⟩
        · exact ih h
        · have hrest : sep ∉ old := by
            rcases hold with hold | rfl
            · exact ih hold
            · simp
          simp [Ne.symm hc, hrest]

end ApiDoc.Text
