/-
# Reading TOML

A text is a run of lines: entries, headers, comments and blank lines. An entry
belongs to the table of the last header before it. Inline tables and arrays may
spread over lines, end with a comma and hold comments; they nest up to a bound,
and the names of a key have a bound of their own. The reader is given a bound on
its own steps, for which the length of the text is enough.

Key definitions: `Toml.parse?`, `Toml.readValue`, `Toml.readKey`.
-/
import Manuscript.Toml.Quoted
import Manuscript.Toml.Scalar

namespace Manuscript.Toml

open Draft (addEntry descend openRow openTable)

/-- How deep inline tables and arrays may nest. -/
def nestingLimit : Nat := 80

/-- How many names a key may have. -/
def keyLimit : Nat := 80

/-- The text without the white space at its front. -/
def skipGap (cs : List Char) : List Char := cs.dropWhile isGap

/-- The text without the white space, line ends and comments at its front. -/
def skipFiller (inComment : Bool) : List Char → List Char
  | [] => []
  | '\n' :: rest => skipFiller false rest
  | '\r' :: '\n' :: rest => skipFiller false rest
  | c :: rest =>
    if inComment then (if isPlain c then skipFiller true rest else c :: rest)
    else if isGap c then skipFiller false rest
    else if c == '#' then skipFiller true rest
    else c :: rest

/-- The text behind the end of a line that holds no more than a comment. -/
def endLine? (cs : List Char) : Option (List Char) :=
  let rest := match skipGap cs with
    | '#' :: comment => comment.dropWhile isPlain
    | rest => rest
  if rest.isEmpty || startsLine rest then some (dropLineEnd rest) else none

/-- A character of a key without quotes. -/
def isBareKey (c : Char) : Bool := c.isAlphanum || c == '_' || c == '-'

/-- A character of an unquoted value: any that neither ends a line nor has a meaning of its own
between values. -/
def isAtom (c : Char) : Bool :=
  !(isGap c || ['\n', '\r', '#', ',', '=', '[', ']', '\x7b', '\x7d'].contains c)

/-- Reads one name of a key. -/
def readName (cs : List Char) : Taken :=
  match cs with
  | '"' :: rest => readBasic rest
  | '\x27' :: rest => readLiteral rest
  | cs =>
    match cs.span isBareKey with
    | ([], _) => none
    | r => some r

/-- Reads a key of at most so many names: those before its dots, its last one, and what follows. -/
def readKey : Nat → List Char → Option (List String × String × List Char)
  | 0, _ => none
  | limit + 1, cs => do
    let (name, rest) ← readName cs
    match skipGap rest with
    | '.' :: rest =>
      let (front, last, rest) ← readKey limit (skipGap rest)
      some (String.ofList name :: front, last, rest)
    | rest => some ([], String.ofList name, rest)

/-- Splits off an unquoted value. A blank may stand between a date and a time. -/
def takeAtom (cs : List Char) : List Char × List Char :=
  let (atom, rest) := cs.span isAtom
  match rest with
  | ' ' :: d :: after =>
    if isDate atom && d.isDigit then
      let (time, after) := (d :: after).span isAtom
      (atom ++ ' ' :: time, after)
    else (atom, rest)
  | _ => (atom, rest)

/-- A text as a value. -/
def ofTaken (t : Taken) : Option (Draft × List Char) :=
  t.map fun (read, rest) => (.scalar (string (String.ofList read)), rest)

mutual

/-- Reads a value; `depth` more brackets may be opened in it. -/
def readValue : Nat → Nat → List Char → Option (Draft × List Char)
  | 0, _, _ => none
  | steps + 1, depth, cs =>
    match cs with
    | '"' :: '"' :: '"' :: rest => ofTaken (readBasicLines (dropLineEnd rest))
    | '"' :: rest => ofTaken (readBasic rest)
    | '\x27' :: '\x27' :: '\x27' :: rest => ofTaken (readLiteralLines (dropLineEnd rest))
    | '\x27' :: rest => ofTaken (readLiteral rest)
    | '[' :: rest =>
      match depth with
      | 0 => none
      | depth + 1 => (readItems steps depth rest).map fun (items, rest) => (.array items, rest)
    | '\x7b' :: rest =>
      match depth with
      | 0 => none
      | depth + 1 =>
        (readEntries steps depth [] rest).map fun (entries, rest) => (.table .inline entries, rest)
    | cs =>
      let (atom, rest) := takeAtom cs
      (scalar? atom).map (·, rest)

/-- Reads the items of an array up to its closing bracket. -/
def readItems : Nat → Nat → List Char → Option (List Draft × List Char)
  | 0, _, _ => none
  | steps + 1, depth, cs =>
    match skipFiller false cs with
    | ']' :: rest => some ([], rest)
    | cs =>
      match readValue steps depth cs with
      | none => none
      | some (item, rest) =>
        match skipFiller false rest with
        | ']' :: rest => some ([item], rest)
        | ',' :: rest => (readItems steps depth rest).map fun (items, rest) => (item :: items, rest)
        | _ => none

/-- Reads the entries of an inline table, behind those read before, up to its closing brace. -/
def readEntries : Nat → Nat → Draft.Entries → List Char → Option (Draft.Entries × List Char)
  | 0, _, _, _ => none
  | steps + 1, depth, es, cs =>
    match skipFiller false cs with
    | '\x7d' :: rest => some (es, rest)
    | cs =>
      match readPair (skipFiller false) steps depth cs with
      | none => none
      | some (front, key, value, rest) =>
        match addEntry front key value .inline es with
        | none => none
        | some es =>
          match skipFiller false rest with
          | '\x7d' :: rest => some (es, rest)
          | ',' :: rest => readEntries steps depth es rest
          | _ => none

/-- Reads a key and its value; `skip` passes over what may stand around the sign between them. -/
def readPair (skip : List Char → List Char) :
    Nat → Nat → List Char → Option (List String × String × Draft × List Char)
  | 0, _, _ => none
  | steps + 1, depth, cs =>
    match readKey keyLimit cs with
    | none => none
    | some (front, key, rest) =>
      match skip rest with
      | '=' :: rest =>
        (readValue steps depth (skip rest)).map fun (value, rest) => (front, key, value, rest)
      | _ => none

end

/-- Reads the header behind its opening brackets: the path of a table. -/
def readHeader (closer : List Char) (cs : List Char) : Option (List String × String × List Char) := do
  let (front, key, rest) ← readKey keyLimit (skipGap cs)
  if closer.isPrefixOf rest then some (front, key, ← endLine? (rest.drop closer.length)) else none

/-- Reads the line of an entry into the table at a path. -/
def readEntryAt (path : List String) (root : Draft.Entries) (cs : List Char) :
    Option (Draft.Entries × List Char) := do
  let (front, key, value, rest) ← readPair skipGap (4 * cs.length + 4) nestingLimit cs
  let root ← descend false (addEntry front key value) path .header root
  some (root, ← endLine? rest)

/-- Reads lines into the tables that are there, of which the one at a path is open. -/
def readLines : Nat → List String → Draft.Entries → List Char → Option Draft.Entries
  | 0, _, _, _ => none
  | steps + 1, path, root, cs =>
    match skipFiller false cs with
    | [] => some root
    | '[' :: '[' :: rest => do
      let (front, key, rest) ← readHeader [']', ']'] rest
      readLines steps (front ++ [key]) (← openRow front key root) rest
    | '[' :: rest => do
      let (front, key, rest) ← readHeader [']'] rest
      readLines steps (front ++ [key]) (← openTable front key root) rest
    | cs => do
      let (root, rest) ← readEntryAt path root cs
      readLines steps path root rest

/-- The text without the mark of its byte order. -/
def dropOrderMark : List Char → List Char
  | '\ufeff' :: rest => rest
  | cs => cs

/-- Reads a whole text as a table. -/
def parse? (s : String) : Option Entries :=
  let cs := dropOrderMark s.toList
  (readLines (cs.length + 1) [] [] cs).bind Draft.finishEntries?

end Manuscript.Toml
