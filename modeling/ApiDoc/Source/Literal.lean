import ApiDoc.Source.Lexeme

/-!
# Literals

Texts, characters, bytes and numbers.  A text is read with its value; of a number
only its kind is kept.  Each reader takes the text at the start of the literal, or
after the mark that opens it, and gives nothing for a malformed one.
-/

namespace ApiDoc.Source

/-- What a kind of quoted literal may hold. -/
structure Quoting where
  /-- Characters outside ASCII, also by their number. -/
  unicode : Bool := true
  /-- Two-digit numbers above 127. -/
  highBytes : Bool := false
  /-- The character zero. -/
  zero : Bool := true

def Quoting.text : Quoting := {}

def Quoting.bytes : Quoting := { unicode := false, highBytes := true }

/-- A text with an end mark. -/
def Quoting.terminated : Quoting := { highBytes := true, zero := false }

def hexValue? (c : Char) : Option Nat :=
  if '0' ≤ c && c ≤ '9' then some (c.toNat - '0'.toNat)
  else if 'a' ≤ c && c ≤ 'f' then some (c.toNat - 'a'.toNat + 10)
  else if 'A' ≤ c && c ≤ 'F' then some (c.toNat - 'A'.toNat + 10)
  else none

/-- One to six hexadecimal digits up to the closing brace, with underscores after the
first one. -/
def scalarNumber? : (count value : Nat) → List Char → Option (Nat × List Char)
  | _, _, [] => none
  | count, value, c :: cs =>
      if c = '_' && count > 0 then scalarNumber? count value cs
      else if c = '\x7d' && count > 0 then some (value, cs)
      else match hexValue? c with
        | some digit =>
            if count = 6 then none else scalarNumber? (count + 1) (value * 16 + digit) cs
        | none => none

/-- The character after a backslash. -/
def escaped? (q : Quoting) (cs : List Char) : Option (Char × List Char) :=
  let allowed := fun (c : Char) (rest : List Char) =>
    if c.toNat = 0 && !q.zero then none else some (c, rest)
  match cs with
  | 'n' :: rest => some ('\n', rest)
  | 'r' :: rest => some ('\r', rest)
  | 't' :: rest => some ('\t', rest)
  | '\\' :: rest => some ('\\', rest)
  | '\'' :: rest => some ('\'', rest)
  | '"' :: rest => some ('"', rest)
  | '0' :: rest => allowed (Char.ofNat 0) rest
  | 'x' :: a :: b :: rest =>
      match hexValue? a, hexValue? b with
      | some high, some low =>
          if high < 8 || q.highBytes then allowed (Char.ofNat (high * 16 + low)) rest else none
      | _, _ => none
  | 'u' :: '\x7b' :: rest =>
      match scalarNumber? 0 0 rest with
      | some (n, rest) =>
          if q.unicode && n.isValidChar then allowed (Char.ofNat n) rest else none
      | none => none
  | _ => none

/-- The text after the white space that follows an escaped line break. -/
def continuation? : List Char → Option (List Char)
  | '\r' :: '\n' :: cs => continuation? cs
  | '\r' :: _ => none
  | ' ' :: cs | '\t' :: cs | '\n' :: cs => continuation? cs
  | [] => none
  | cs => some cs

/-- The value of a quoted text, from after its quote. -/
def quoted? (q : Quoting) : (fuel : Nat) → List Char → Option (List Char × List Char)
  | 0, _ => none
  | fuel + 1, cs =>
      let more := fun (c : Char) (rest : List Char) =>
        (quoted? q fuel rest).map fun (value, rest) => (c :: value, rest)
      match cs with
      | [] => none
      | '"' :: rest => some ([], rest)
      | '\r' :: '\n' :: rest => more '\n' rest
      | '\r' :: _ => none
      | '\\' :: '\n' :: rest => (continuation? rest).bind (quoted? q fuel)
      | '\\' :: '\r' :: rest => (continuation? ('\r' :: rest)).bind (quoted? q fuel)
      | '\\' :: rest => (escaped? q rest).bind fun (c, rest) => more c rest
      | c :: rest =>
          if (q.unicode || c.toNat < 128) && (q.zero || c.toNat ≠ 0) then more c rest else none

/-- The text up to a quote with that many number signs after it. -/
def rawText? (q : Quoting) (signs : List Char) : List Char → Option (List Char × List Char)
  | [] => none
  | '\r' :: '\n' :: cs =>
      (rawText? q signs cs).map fun (value, rest) => ('\r' :: '\n' :: value, rest)
  | '\r' :: _ => none
  | c :: cs =>
      match if c = '"' then Text.dropHead? signs cs else none with
      | some rest => some ([], rest)
      | none =>
          if (q.unicode || c.toNat < 128) && (q.zero || c.toNat ≠ 0) then
            (rawText? q signs cs).map fun (value, rest) => (c :: value, rest)
          else none

/-- A raw text, from the number signs before its quote. -/
def raw? (q : Quoting) (cs : List Char) : Option (List Char × List Char) :=
  let signs := cs.takeWhile (· = '#')
  match cs.dropWhile (· = '#') with
  | '"' :: rest => if signs.length > 255 then none else rawText? q signs rest
  | _ => none

/-- A text literal with the mark of its kind, raw or not. -/
def markedText? (q : Quoting) (kind cs : List Char) : Option (List Char × List Char) :=
  (Text.dropHead? kind cs).bind fun rest =>
    match rest with
    | '"' :: inside => quoted? q (inside.length + 1) inside
    | 'r' :: inside => raw? q inside
    | _ => none

/-- A single character between apostrophes, from after the first one. -/
def quotedChar? (q : Quoting) (cs : List Char) : Option (List Char) :=
  let inside := match cs with
    | '\\' :: rest => (escaped? q rest).map (·.2)
    | c :: rest => if q.unicode || c.toNat < 128 then some rest else none
    | [] => none
  match inside with
  | some ('\'' :: rest) => some rest
  | _ => none

def isDigit (c : Char) : Bool := '0' ≤ c && c ≤ '9'

/-- The digits of an exponent, with a sign before the first one: nothing for a second
sign or without a digit. -/
def exponent? : (sign digit : Bool) → List Char → Option (List Char)
  | sign, digit, c :: cs =>
      if c = '+' || c = '-' then
        if digit then some (c :: cs) else if sign then none else exponent? true false cs
      else if isDigit c then exponent? sign true cs
      else if c = '_' then exponent? sign digit cs
      else if digit then some (c :: cs) else none
  | _, digit, [] => if digit then some [] else none

/-- The digits and the fraction of a number, up to its exponent. -/
structure Mantissa where
  hasPoint : Bool
  hasExponent : Bool
  /-- The text from the exponent mark on, or after the mantissa. -/
  rest : List Char

/-- Read a mantissa.  A point that another point or a name follows does not belong to
a number. -/
def mantissa? : (hasPoint : Bool) → List Char → Option Mantissa
  | hasPoint, c :: cs =>
      if isDigit c || c = '_' then mantissa? hasPoint cs
      else if c = '.' && !hasPoint then
        if cs.head?.any fun d => d = '.' || startsName d then none else mantissa? true cs
      else if c = 'e' || c = 'E' then some ⟨hasPoint, true, c :: cs⟩
      else some ⟨hasPoint, false, c :: cs⟩
  | hasPoint, [] => some ⟨hasPoint, false, []⟩

/-- A word does not go on here. -/
def wordEnds? (cs : List Char) : Option (List Char) :=
  if cs.head?.any continuesName then none else some cs

/-- The text after a number with a fraction or an exponent. -/
def fraction? (cs : List Char) : Option (List Char) :=
  if !cs.head?.any isDigit then none
  else (mantissa? false cs).bind fun m =>
    let rest :=
      if m.hasExponent then
        (exponent? false false (m.rest.drop 1)).or (if m.hasPoint then some m.rest else none)
      else if m.hasPoint then some m.rest else none
    rest.bind fun rest => wordEnds? (dropSuffix rest)

/-- The text after the digits of a number in some base. -/
def baseDigits? (base : Nat) : (empty : Bool) → List Char → Option (List Char)
  | empty, c :: cs =>
      let ends := if empty then none else some (c :: cs)
      if c = '_' then if empty && base = 10 then none else baseDigits? base empty cs
      else match hexValue? c with
        | some digit =>
            if digit < base then baseDigits? base false cs
            else if isDigit c then none else ends
        | none => ends
  | empty, [] => if empty then none else some []

/-- The text after the digits of a whole number. -/
def wholeDigits? : List Char → Option (List Char)
  | '0' :: 'x' :: cs => baseDigits? 16 true cs
  | '0' :: 'o' :: cs => baseDigits? 8 true cs
  | '0' :: 'b' :: cs => baseDigits? 2 true cs
  | cs => if cs.head?.any isDigit then baseDigits? 10 true cs else none

/-- A whole number: whether it has a suffix, and the text after it. -/
def whole? (cs : List Char) : Option (Bool × List Char) :=
  (wholeDigits? cs).bind fun digits =>
    let rest := dropSuffix digits
    (wordEnds? rest).map fun rest => (rest.length < digits.length, rest)

/-- The value of the literal at the start of the text. -/
def literalValue? (cs : List Char) : Option (Literal × List Char) :=
  let text := fun (found : List Char × List Char) =>
    (Literal.text (String.ofList found.1), dropSuffix found.2)
  let other := fun rest => (Literal.other, dropSuffix rest)
  ((markedText? .text [] cs).map text).or <|
  ((markedText? .bytes ['b'] cs).map fun found => other found.2).or <|
  ((markedText? .terminated ['c'] cs).map fun found => other found.2).or <|
  (((Text.dropHead? ['b', '\''] cs).bind (quotedChar? .bytes)).map other).or <|
  (((Text.dropHead? ['\''] cs).bind (quotedChar? .text)).map other).or <|
  ((fraction? cs).map fun rest => (.fraction, rest)).or <|
  (whole? cs).map fun (suffixed, rest) => (.whole suffixed, rest)

/-- The literal at the start of the text. -/
def literal? (cs : List Char) : Option (Tree × List Char) :=
  (literalValue? cs).map fun (value, rest) =>
    (.literal (String.ofList (cs.take (cs.length - rest.length))) value, rest)

end ApiDoc.Source
