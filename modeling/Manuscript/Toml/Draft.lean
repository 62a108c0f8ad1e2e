/-
# Drafts of TOML values

A draft is a value as the lines of a text build it. A table in a draft remembers
how it came to be, since that decides what may still be added to it:

* a table named by a header is not opened by a second header nor by dotted keys;
* a table that a longer header only passed through may still get its own header;
* a table made by dotted keys is extended by dotted keys alone;
* an inline table is complete as it stands.

When all lines are read, the draft is finished: its numbers have to have values,
and a table whose first name in order is `Draft.momentMark` becomes the moment
that stands under that name, whatever else the table holds.

Key definitions: `Draft`, `Draft.descend`, `Draft.addEntry`, `Draft.openTable`,
`Draft.openRow`, `Draft.finish?`.
-/
import Manuscript.Toml.Basic

namespace Manuscript.Toml

/-- How a table came to be. -/
inductive Origin where
  /-- A header names it. -/
  | header
  /-- A longer header passes through it. -/
  | implied
  /-- The front part of a dotted key. -/
  | dotted
  | inline
deriving Repr, DecidableEq

/-- A value that is being built. -/
inductive Draft where
  /-- A text, a truth value, a number or a moment. -/
  | scalar (value : Toml)
  /-- A text of the form of a number that has no value. -/
  | valueless
  | array (items : List Draft)
  | table (origin : Origin) (entries : List (String × Draft))
  /-- The rows that headers in double brackets open. -/
  | tables (rows : List (List (String × Draft)))
deriving Repr, Inhabited

namespace Draft

/-- The names and drafts of a table. -/
abbrev Entries := List (String × Draft)

/-- The draft under a name. -/
def Entries.get? (es : Entries) (key : String) : Option Draft := es.lookup key

/-- Replaces the draft under a name. -/
def Entries.set (es : Entries) (key : String) (value : Draft) : Entries :=
  es.map fun e => if e.1 == key then (key, value) else e

/-! ### Building -/

/-- Changes the table that a path leads to from a given one, making the tables that are missing
on the way. Dotted keys make tables of their own kind and do not pass a table with a header. -/
def descend (dotted : Bool) (f : Origin → Entries → Option Entries) :
    List String → Origin → Entries → Option Entries
  | [], origin, es => f origin es
  | key :: path, _, es =>
    match es.get? key with
    | none =>
      let origin := if dotted then Origin.dotted else Origin.implied
      (descend dotted f path origin []).map fun t => es ++ [(key, table origin t)]
    | some (table origin t) =>
      if origin = .inline ∨ (dotted ∧ origin = .header) then none
      else (descend dotted f path origin t).map fun t => es.set key (table origin t)
    | some (tables rows) =>
      match rows.getLast? with
      | none => none
      | some row =>
        (descend dotted f path .header row).map fun row => es.set key (tables (rows.dropLast ++ [row]))
    | some _ => none

/-- Adds a value under a new name. A table of dotted keys takes entries of dotted keys only, and
all others take entries of plain keys only. -/
def insertNew (dotted : Bool) (key : String) (value : Draft) (origin : Origin) (es : Entries) :
    Option Entries :=
  if decide (origin = .dotted) != dotted then none
  else if (es.get? key).isSome then none
  else some (es ++ [(key, value)])

/-- Adds the entry of a key, given by its front part and its last name, to a table. -/
def addEntry (front : List String) (key : String) (value : Draft) (origin : Origin) (es : Entries) :
    Option Entries :=
  descend true (insertNew (!front.isEmpty) key value) front origin es

/-- Opens the table of a header, given by its front part and its last name. -/
def openTable (front : List String) (key : String) (root : Entries) : Option Entries :=
  descend false (fun _ es =>
    match es.get? key with
    | none => some (es ++ [(key, table .header [])])
    | some (table .implied t) => some (es.set key (table .header t))
    | some _ => none) front .header root

/-- Opens one more row of a header in double brackets. -/
def openRow (front : List String) (key : String) (root : Entries) : Option Entries :=
  descend false (fun _ es =>
    match es.get? key with
    | none => some (es ++ [(key, tables [[]])])
    | some (tables rows) => some (es.set key (tables (rows ++ [[]])))
    | some _ => none) front .header root

/-! ### Finishing -/

/-- The reserved name under which a table holds the moment it stands for. -/
def momentMark : String := "$__toml_private_datetime"

/-- The draft under the mark of a moment, if no name of the table comes before the mark. -/
def marked? (es : Entries) : Option Draft :=
  if es.all fun e => decide (momentMark ≤ e.1) then es.get? momentMark else none

/-- The moment whose text a draft is. -/
def moment? : Draft → Option Moment
  | scalar (.string s) => Moment.parse? s.toList
  | _ => none

/-- The value of a table, given its finished entries: a moment if it is marked as one. -/
def tableValue? (es : Entries) (finished : Option Toml.Entries) : Option Toml :=
  match marked? es with
  | some d => d.moment?.map .moment
  | none => finished.map .table

mutual

/-- The value of a draft. -/
def finish? : Draft → Option Toml
  | scalar value => some value
  | valueless => none
  | array items => (finishItems? items).map .array
  | table _ es => tableValue? es (finishEntries? es)
  | tables rows => (finishRows? rows).map .array

/-- The values of drafts in a row. -/
def finishItems? : List Draft → Option (List Toml)
  | [] => some []
  | d :: ds => do some ((← finish? d) :: (← finishItems? ds))

/-- The entries of a table with their values. -/
def finishEntries? : List (String × Draft) → Option Toml.Entries
  | [] => some []
  | (key, d) :: es => do some ((key, ← finish? d) :: (← finishEntries? es))

/-- The values of rows. -/
def finishRows? : List (List (String × Draft)) → Option (List Toml)
  | [] => some []
  | es :: rows => do some ((← tableValue? es (finishEntries? es)) :: (← finishRows? rows))

end

end Draft

end Manuscript.Toml
