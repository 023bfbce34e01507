/-
# Text in settings documents

Text stands between quotes in four forms. Double quotes allow escapes, single
quotes do not; three quotes of either kind allow line breaks. A line break
directly behind three opening quotes does not count, and inside three double
quotes a backslash at the end of a line joins the line with the next text,
without the blanks between them.
-/

namespace ClaimLedger

namespace Toml

/-- A character that may stand in a comment or between quotes: no control
character but the tabulator. -/
def isPlain (c : Char) : Bool :=
  c == '\t' || (' ' ≤ c && c != '\x7f')

/-- A blank within a line. -/
def isBlank (c : Char) : Bool :=
  c == ' ' || c == '\t'

/-- The value of a hexadecimal digit in either case. -/
def hexValue? (c : Char) : Option Nat :=
  if '0' ≤ c ∧ c ≤ '9' then some (c.toNat - 48)
  else if 'a' ≤ c ∧ c ≤ 'f' then some (c.toNat - 87)
  else if 'A' ≤ c ∧ c ≤ 'F' then some (c.toNat - 55)
  else none

/-- The character whose code point the digits spell. -/
def charOfHex? (digits : List Char) : Option Char := do
  let values ← digits.mapM hexValue?
  let code := values.foldl (fun code value => code * 16 + value) 0
  if code < 0x110000 ∧ ¬ (0xd800 ≤ code ∧ code ≤ 0xdfff) then some (Char.ofNat code) else none

/-- The character of an escape with a letter of its own. -/
def letterEscape? : Char → Option Char
  | 'b' => some '\x08'
  | 't' => some '\t'
  | 'n' => some '\n'
  | 'f' => some '\x0c'
  | 'r' => some '\r'
  | '"' => some '"'
  | '\\' => some '\\'
  | _ => none

/-- An escape behind its backslash: the character, and what follows. -/
def escape? : List Char → Option (Char × List Char)
  | 'u' :: a :: b :: c :: d :: rest => (charOfHex? [a, b, c, d]).map (·, rest)
  | 'U' :: a :: b :: c :: d :: e :: f :: g :: h :: rest =>
    (charOfHex? [a, b, c, d, e, f, g, h]).map (·, rest)
  | c :: rest => (letterEscape? c).map (·, rest)
  | [] => none

/-- What remains of the text and what follows it. -/
abbrev Scan := Option (List Char × List Char)

/-- Put a character in front of scanned text. -/
def prepend (c : Char) (scan : Scan) : Scan :=
  scan.map fun (text, rest) => (c :: text, rest)

/-- The text up to the closing double quote. -/
def scanQuoted : Nat → List Char → Scan
  | 0, _ => none
  | _, [] => none
  | fuel + 1, c :: rest =>
    if c = '"' then some ([], rest)
    else if c = '\\' then do
      let (escaped, rest) ← escape? rest
      prepend escaped (scanQuoted fuel rest)
    else if isPlain c then prepend c (scanQuoted fuel rest)
    else none

/-- The text up to the closing single quote. -/
def scanLiteral : List Char → Scan
  | [] => none
  | c :: rest =>
    if c = '\'' then some ([], rest)
    else if isPlain c then prepend c (scanLiteral rest)
    else none

/-- A line break at the front, and what follows it. -/
def lineBreak? : List Char → Option (List Char)
  | '\n' :: rest => some rest
  | '\r' :: '\n' :: rest => some rest
  | _ => none

/-- What follows blanks and line breaks. -/
def skipBreaks : Nat → List Char → List Char
  | 0, chars => chars
  | fuel + 1, chars =>
    match lineBreak? chars with
    | some rest => skipBreaks fuel rest
    | none =>
      match chars with
      | c :: rest => if isBlank c then skipBreaks fuel rest else chars
      | [] => []

/-- What follows a backslash that joins lines: blanks, a line break, and then
any blanks and line breaks. -/
def joinedLine? (chars : List Char) : Option (List Char) :=
  (lineBreak? (chars.dropWhile isBlank)).map fun rest => skipBreaks rest.length rest

/-- Three closing quotes of the given kind, behind up to two more that still
belong to the text. -/
def closing? (mark : Char) (chars : List Char) : Scan :=
  let quotes := (chars.takeWhile (· == mark)).length
  if quotes < 3 then none
  else
    let inside := min (quotes - 3) 2
    some (List.replicate inside mark, chars.drop (inside + 3))

/-- The text up to three closing quotes of the given kind. Escapes count where
they are allowed. -/
def scanLong (mark : Char) (escapes : Bool) : Nat → List Char → Scan
  | 0, _ => none
  | fuel + 1, chars =>
    match closing? mark chars with
    | some ending => some ending
    | none =>
      match lineBreak? chars, chars with
      | some rest, _ => prepend '\n' (scanLong mark escapes fuel rest)
      | none, [] => none
      | none, c :: rest =>
        if c = '\\' ∧ escapes then
          match joinedLine? rest with
          | some rest => scanLong mark escapes fuel rest
          | none => do
            let (escaped, rest) ← escape? rest
            prepend escaped (scanLong mark escapes fuel rest)
        else if isPlain c then prepend c (scanLong mark escapes fuel rest)
        else none

/-- The text between three quotes, behind the opening ones. -/
def longText (mark : Char) (escapes : Bool) (chars : List Char) : Scan :=
  let chars := (lineBreak? chars).getD chars
  scanLong mark escapes (chars.length + 1) chars

/-- A quoted text on one line, with its opening quote. -/
def lineText? : List Char → Scan
  | '"' :: rest => scanQuoted (rest.length + 1) rest
  | '\'' :: rest => scanLiteral rest
  | _ => none

/-- A quoted text in any form, with its opening quotes. -/
def text? : List Char → Scan
  | '"' :: '"' :: '"' :: rest => longText '"' true rest
  | '\'' :: '\'' :: '\'' :: rest => longText '\'' false rest
  | chars => lineText? chars

end Toml

end ClaimLedger
