/-
# Quoted text

Messages show names and characters between quotes. Inside, a backslash starts
an escape: five of them have a letter of their own, and every character that
would not print by itself is written as its code point in braces. Only the
quote mark in use is escaped, so an apostrophe stands bare inside a quoted
name.
-/

import ClaimLedger.Bytes.Hex
import ClaimLedger.Text.Combining
import ClaimLedger.Text.Unprintable
import ClaimLedger.Text.Utf8

namespace ClaimLedger

namespace Quoted

/-- How one character is written between quotes of the given kind. -/
def escape (mark c : Char) : List Char :=
  if c = '\x00' then ['\\', '0']
  else if c = '\t' then ['\\', 't']
  else if c = '\r' then ['\\', 'r']
  else if c = '\n' then ['\\', 'n']
  else if c = '\\' then ['\\', '\\']
  else if c = mark then ['\\', mark]
  else if isCombining c || isUnprintable c then
    "\\u\x7b".toList ++ (Hex.ofNat c.toNat).toList ++ ['\x7d']
  else [c]

/-- A text between quotes of the given kind. -/
def enclose (mark : Char) (text : List Char) : String :=
  String.ofList (mark :: text.flatMap (escape mark) ++ [mark])

/-- A single character between apostrophes. -/
def char (c : Char) : String :=
  enclose '\'' [c]

/-- The text of a byte string between double quotes. -/
def bytes (raw : Bytes) : String :=
  enclose '"' (Utf8.lossy raw)

end Quoted

end ClaimLedger
