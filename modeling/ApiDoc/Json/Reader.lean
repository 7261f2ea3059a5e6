import ApiDoc.Json.Numeral

/-!
# Reading JSON

The reader goes down at most 127 levels.  `readMembers?` keeps repeated keys, as
a reader of records must see them; `read?` merges them.
-/

namespace ApiDoc.Json

/-- The white space of JSON. -/
def isSpace (c : Char) : Bool :=
  c = ' ' || c = '\n' || c = '\t' || c = '\r'

def skipSpace (cs : List Char) : List Char :=
  cs.dropWhile isSpace

/-- Levels of lists and objects that a text may have. -/
def maxDepth : Nat := 127

/-- The value of four hexadecimal digits. -/
def hexValue? (cs : List Char) : Option Nat :=
  cs.foldl (fun acc c => acc.bind fun n =>
    if c.isDigit then some (16 * n + (c.toNat - '0'.toNat))
    else if 'a' ≤ c && c ≤ 'f' then some (16 * n + (c.toNat - 'a'.toNat + 10))
    else if 'A' ≤ c && c ≤ 'F' then some (16 * n + (c.toNat - 'A'.toNat + 10))
    else none) (some 0)

/-- The character that a letter after a backslash stands for. -/
def escaped? : Char → Option Char
  | '"' => some '"'
  | '\\' => some '\\'
  | '/' => some '/'
  | 'b' => some '\x08'
  | 'f' => some '\x0c'
  | 'n' => some '\n'
  | 'r' => some '\r'
  | 't' => some '\t'
  | _ => none

/-- Whether a code unit opens a pair of surrogates. -/
def isLeading (n : Nat) : Bool :=
  0xD800 ≤ n && n ≤ 0xDBFF

/-- Whether a code unit closes a pair of surrogates. -/
def isTrailing (n : Nat) : Bool :=
  0xDC00 ≤ n && n ≤ 0xDFFF

/-- The characters of a string after its opening quote, and the text after the
closing one. -/
def string? (acc : List Char) : List Char → Option (String × List Char)
  | [] => none
  | '"' :: rest => some (String.ofList acc.reverse, rest)
  | '\\' :: 'u' :: a :: b :: c :: d :: rest =>
      match hexValue? [a, b, c, d] with
      | none => none
      | some n =>
          if isLeading n then
            match rest with
            | '\\' :: 'u' :: e :: f :: g :: h :: rest =>
                match hexValue? [e, f, g, h] with
                | none => none
                | some m =>
                    if isTrailing m then
                      let code := 0x10000 + (n - 0xD800) * 0x400 + (m - 0xDC00)
                      string? (Char.ofNat code :: acc) rest
                    else none
            | _ => none
          else if isTrailing n then none
          else string? (Char.ofNat n :: acc) rest
  | '\\' :: c :: rest =>
      match escaped? c with
      | some e => string? (e :: acc) rest
      | none => none
  | c :: rest => if c.toNat < 0x20 then none else string? (c :: acc) rest

mutual

/-- One value at the start of a text without leading space. -/
def value? : (fuel depth : Nat) → List Char → Option (Json × List Char)
  | 0, _, _ => none
  | fuel + 1, depth, cs =>
      match cs with
      | 'n' :: 'u' :: 'l' :: 'l' :: rest => some (.null, rest)
      | 't' :: 'r' :: 'u' :: 'e' :: rest => some (.bool true, rest)
      | 'f' :: 'a' :: 'l' :: 's' :: 'e' :: rest => some (.bool false, rest)
      | '"' :: rest => (string? [] rest).map fun (s, rest) => (.str s, rest)
      | '[' :: rest =>
          match depth with
          | 0 => none
          | depth + 1 =>
              match skipSpace rest with
              | ']' :: rest => some (.arr [], rest)
              | rest => (items? fuel depth [] rest).map fun (xs, rest) => (.arr xs, rest)
      | '\x7b' :: rest =>
          match depth with
          | 0 => none
          | depth + 1 =>
              match skipSpace rest with
              | '\x7d' :: rest => some (.obj [], rest)
              | rest => (members? fuel depth [] rest).map fun (ms, rest) => (.obj ms, rest)
      | _ => (Numeral.read? cs).map fun (n, rest) => (.num n, rest)

/-- The values of a list up to its closing bracket. -/
def items? : (fuel depth : Nat) → List Json → List Char → Option (List Json × List Char)
  | 0, _, _, _ => none
  | fuel + 1, depth, acc, cs =>
      match value? fuel depth (skipSpace cs) with
      | none => none
      | some (j, rest) =>
          match skipSpace rest with
          | ',' :: rest => items? fuel depth (j :: acc) rest
          | ']' :: rest => some ((j :: acc).reverse, rest)
          | _ => none

/-- The members of an object up to its closing brace. -/
def members? : (fuel depth : Nat) → List (String × Json) → List Char →
    Option (List (String × Json) × List Char)
  | 0, _, _, _ => none
  | fuel + 1, depth, acc, cs =>
      match skipSpace cs with
      | '"' :: rest =>
          match string? [] rest with
          | none => none
          | some (key, rest) =>
              match skipSpace rest with
              | ':' :: rest =>
                  match value? fuel depth (skipSpace rest) with
                  | none => none
                  | some (j, rest) =>
                      match skipSpace rest with
                      | ',' :: rest => members? fuel depth ((key, j) :: acc) rest
                      | '\x7d' :: rest => some (((key, j) :: acc).reverse, rest)
                      | _ => none
              | _ => none
      | _ => none

end

/-- Read a whole text, keeping repeated keys. -/
def readMembers? (cs : List Char) : Option Json :=
  match value? (2 * cs.length + 2) maxDepth (skipSpace cs) with
  | some (j, rest) => if (skipSpace rest).isEmpty then some j else none
  | none => none

/-- Read a whole text. -/
def read? (cs : List Char) : Option Json :=
  (readMembers? cs).map merged

end ApiDoc.Json
