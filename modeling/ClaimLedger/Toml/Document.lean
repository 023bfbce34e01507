/-
# Reading settings documents

A document is a sequence of lines: blank ones, comments, table headers, and
names with values. A line has to end after its value. Values that no setting
can have, such as dates and fractions, are not read at all: a document with
one is refused where it stands.
-/

import ClaimLedger.Toml.Text
import ClaimLedger.Toml.Value

namespace ClaimLedger

namespace Toml

/-- A reader takes a value off the front of a document, or fails. -/
abbrev Reader (α : Type) := StateT (List Char) Option α

namespace Reader

/-- Drop blanks. -/
def blanks : Reader Unit :=
  modify (·.dropWhile isBlank)

/-- Take a given character, if it comes next. -/
def accept (c : Char) : Reader Bool := fun chars =>
  match chars with
  | d :: rest => if c = d then some (true, rest) else some (false, chars)
  | [] => some (false, [])

/-- Take a given character. -/
def expect (c : Char) : Reader Unit := do
  if !(← accept c) then failure

/-- Drop a comment up to the end of its line, if one comes next. -/
def comment : Reader Unit := do
  if ← accept '#' then
    modify (·.dropWhile isPlain)

/-- The end of a line or of the document, behind blanks and a comment. -/
def lineEnd : Reader Unit := do
  blanks
  comment
  let chars ← get
  unless chars.isEmpty do
    set (← lineBreak? chars)

/-- A part of a key: bare, or quoted on one line. -/
def namePart : Reader String := do
  let chars ← get
  let isBare (c : Char) : Bool := c.isAlphanum || c == '-' || c == '_'
  let bare := chars.takeWhile isBare
  if bare.isEmpty then
    let (text, rest) ← lineText? chars
    set rest
    return String.ofList text
  else
    set (chars.dropWhile isBare)
    return String.ofList bare

/-- The remaining parts of a key behind the given one: the path and the last
name. -/
def moreNames : Nat → String → Reader (List String × String)
  | 0, _ => failure
  | fuel + 1, first => do
    blanks
    if ← accept '.' then
      blanks
      let next ← namePart
      let (path, last) ← moreNames fuel next
      return (first :: path, last)
    else return ([], first)

/-- A key: the path and the last name. -/
def key : Reader (List String × String) := do
  blanks
  let first ← namePart
  moreNames ((← get).length + 1) first

/-- Further digits of a number to a base; an underscore may stand between two
digits. -/
def moreDigits (base : Nat) : Nat → Nat → Reader Nat
  | 0, value => return value
  | fuel + 1, value => do
    let digit? (c : Char) : Option Nat := (hexValue? c).filter (· < base)
    match ← get with
    | c :: rest =>
      match digit? c with
      | some digit =>
        set rest
        moreDigits base fuel (value * base + digit)
      | none =>
        match c, rest with
        | '_', d :: rest =>
          match digit? d with
          | some digit =>
            set rest
            moreDigits base fuel (value * base + digit)
          | none => return value
        | _, _ => return value
    | [] => return value

/-- A number to a base without a sign, at least one digit long. -/
def number (base : Nat) : Reader Nat := do
  match ← get with
  | c :: rest =>
    let digit ← (hexValue? c).filter (· < base)
    set rest
    moreDigits base rest.length digit
  | [] => failure

/-- A decimal number without a sign; only zero itself starts with zero. -/
def decimal : Reader Nat := do
  match ← get with
  | '0' :: rest =>
    set rest
    return 0
  | _ => number 10

/-- One more than the largest whole number that a document may hold. -/
def integerBound : Int := 0x8000000000000000

/-- A whole number that fits into 64 bits with a sign. -/
def integer : Reader Int := do
  let value : Int ← match ← get with
    | '0' :: 'x' :: rest => do set rest; pure (← number 16)
    | '0' :: 'o' :: rest => do set rest; pure (← number 8)
    | '0' :: 'b' :: rest => do set rest; pure (← number 2)
    | '+' :: rest => do set rest; pure (← decimal)
    | '-' :: rest => do set rest; pure (-(← decimal : Int))
    | _ => do pure (← decimal)
  if value < -integerBound ∨ integerBound ≤ value then failure
  return value

/-- Drop blanks, line breaks and comments. -/
def breaks : Nat → Reader Unit
  | 0 => return ()
  | fuel + 1 => do
    modify fun chars => skipBreaks chars.length chars
    if (← get).head? == some '#' then
      comment
      set (← lineBreak? (← get))
      breaks fuel

mutual

/-- A value. -/
def value : Nat → Reader Value
  | 0 => failure
  | fuel + 1 => do
    let chars ← get
    match chars.head? with
    | some '"' | some '\'' =>
      let (text, rest) ← text? chars
      set rest
      return .text (String.ofList text)
    | some '[' =>
      expect '['
      breaks chars.length
      expect ']'
      return .emptyList
    | some '\x7b' =>
      expect '\x7b'
      blanks
      if ← accept '\x7d' then return .table .inline []
      return .table .inline (← inlineEntries fuel [])
    | _ => return .integer (← integer)

/-- The entries of an inline table up to its closing brace. -/
def inlineEntries : Nat → Entries → Reader Entries
  | 0, _ => failure
  | fuel + 1, entries => do
    let (path, name) ← key
    expect '='
    blanks
    let given ← value fuel
    let entries ← assign path name given entries
    blanks
    if ← accept ',' then inlineEntries fuel entries
    else
      expect '\x7d'
      return entries

end

/-- The lines of a document, `current` being the path of the last header. -/
def lines : Nat → List String → Entries → Reader Entries
  | 0, _, _ => failure
  | fuel + 1, current, entries => do
    blanks
    let chars ← get
    match chars with
    | [] => return entries
    | c :: _ =>
      if c = '#' ∨ (lineBreak? chars).isSome then
        lineEnd
        lines fuel current entries
      else if c = '[' then
        expect '['
        let (path, name) ← key
        expect ']'
        lineEnd
        lines fuel (path ++ [name]) (← openTable path name entries)
      else
        let (path, name) ← key
        expect '='
        blanks
        let given ← value chars.length
        lineEnd
        lines fuel current (← descend .implied current (assign path name given) entries)

end Reader

/-- The entries of a document. A byte order mark in front of it does not
count. -/
def parse? (document : List Char) : Option Entries :=
  let chars := if document.head? = some '\ufeff' then document.tail else document
  (Reader.lines (chars.length + 1) [] []).run' chars

end Toml

end ClaimLedger
