/-
# Settings values and tables

A settings document in TOML is a table of named values. Tables come into being
in four ways, and how a table came into being decides what may still be added
to it: a header opens a table once, a header also opens the tables on the way
to it, a dotted key opens tables that only dotted keys may extend, and a table
written inline is complete.

Only the kinds of values that a setting can have are kept apart here: text,
whole numbers, tables, and lists without elements.
-/

namespace ClaimLedger

namespace Toml

/-- How a table came into being. -/
inductive TableKind where
  /-- It was opened by its own header, or is the whole document. -/
  | headed
  /-- It lies on the way to a table that was opened by a header. -/
  | implied
  /-- It was opened by a dotted key. -/
  | dotted
  /-- It was written as a value. -/
  | inline
  deriving DecidableEq

/-- A value in a settings document. -/
inductive Value where
  | text (text : String)
  | integer (value : Int)
  | emptyList
  | table (kind : TableKind) (entries : List (String × Value))

/-- The named values of a table, in the order of their first mention. -/
abbrev Entries := List (String × Value)

/-- The entries with another value for a name that is there. -/
def replace (entries : Entries) (name : String) (value : Value) : Entries :=
  entries.map fun entry => if entry.1 = name then (name, value) else entry

/-- Change the table at the end of a path of names, opening tables of the given
kind on the way. Fails where the path leads through something that may not be
extended in this way. -/
def descend (kind : TableKind) : List String → (Entries → Option Entries) → Entries → Option Entries
  | [], change, entries => change entries
  | name :: path, change, entries =>
    match entries.lookup name with
    | none => do
      let inner ← descend kind path change []
      return entries ++ [(name, .table kind inner)]
    | some (.table found inner) =>
      if found = .inline ∨ (kind = .dotted ∧ found ≠ .dotted) then none
      else do
        let inner ← descend kind path change inner
        return replace entries name (.table found inner)
    | some _ => none

/-- Add a value under a name that is not there yet. -/
def add (name : String) (value : Value) (entries : Entries) : Option Entries :=
  if (entries.lookup name).isSome then none else some (entries ++ [(name, value)])

/-- Add a value under a key, given as a path and a last name. -/
def assign (path : List String) (name : String) (value : Value) (entries : Entries) :
    Option Entries :=
  descend .dotted path (add name value) entries

/-- Open the table of a header, given as a path and a last name. A table on the
way to an earlier one may still be opened; any other must be new. -/
def openTable (path : List String) (name : String) (entries : Entries) : Option Entries :=
  descend .implied path (fun entries =>
    match entries.lookup name with
    | none => some (entries ++ [(name, .table .headed [])])
    | some (.table .implied inner) => some (replace entries name (.table .headed inner))
    | some _ => none) entries

end Toml

end ClaimLedger
