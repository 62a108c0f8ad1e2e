/-
# Writing JSON

Two layouts: `render` without any white space, and `pretty` with every item and
entry on a line of its own, two spaces deeper than what holds it. In a string,
quotes, backslashes and control characters are escaped and nothing else.

Key definitions: `Json.render`, `Json.pretty`, `Json.quote`.
-/
import Manuscript.Document.Color
import Manuscript.Json.Basic
import Manuscript.Text.Split

namespace Manuscript.Json

/-- A character as it stands in a string. -/
def escapeChar (c : Char) : List Char :=
  if c = '"' then ['\\', '"']
  else if c = '\\' then ['\\', '\\']
  else if c = '\x08' then ['\\', 'b']
  else if c = '\x0c' then ['\\', 'f']
  else if c = '\n' then ['\\', 'n']
  else if c = '\r' then ['\\', 'r']
  else if c = '\t' then ['\\', 't']
  else if c.toNat < 0x20 then
    ['\\', 'u', '0', '0', Text.hexDigit (c.toNat / 16), Text.hexDigit (c.toNat % 16)]
  else [c]

/-- A string in quotes. -/
def quote (s : String) : String :=
  String.ofList ('"' :: (s.toList.flatMap escapeChar ++ ['"']))

mutual

/-- Writes a value without white space. -/
def render : Json → String
  | null => "null"
  | bool true => "true"
  | bool false => "false"
  | number lexeme => lexeme
  | string s => quote (s.getD "")
  | array items => "[" ++ Text.join "," (renderItems items) ++ "]"
  | object entries => "\x7b" ++ Text.join "," (renderEntries entries) ++ "\x7d"

/-- Writes the items of an array. -/
def renderItems : List Json → List String
  | [] => []
  | j :: rest => render j :: renderItems rest

/-- Writes the entries of an object. -/
def renderEntries : List (Option String × Json) → List String
  | [] => []
  | (name, j) :: rest => (quote (name.getD "") ++ ":" ++ render j) :: renderEntries rest

end

/-- The start of a line at a depth. -/
def margin (depth : Nat) : String := String.ofList (List.replicate (2 * depth) ' ')

/-- What stands between two brackets, one part a line. -/
def layOut (opener closer : String) (depth : Nat) (parts : List String) : String :=
  if parts.isEmpty then opener ++ closer
  else
    opener ++ "\n" ++ Text.join ",\n" (parts.map (margin (depth + 1) ++ ·)) ++ "\n" ++ margin depth
      ++ closer

mutual

/-- Writes a value that stands at a depth, its parts on lines of their own. -/
def prettyAt (depth : Nat) : Json → String
  | array items => layOut "[" "]" depth (prettyItems (depth + 1) items)
  | object entries => layOut "\x7b" "\x7d" depth (prettyEntries (depth + 1) entries)
  | null => "null"
  | bool true => "true"
  | bool false => "false"
  | number lexeme => lexeme
  | string s => quote (s.getD "")

/-- Writes the items of an array at their depth. -/
def prettyItems (depth : Nat) : List Json → List String
  | [] => []
  | j :: rest => prettyAt depth j :: prettyItems depth rest

/-- Writes the entries of an object at their depth. -/
def prettyEntries (depth : Nat) : List (Option String × Json) → List String
  | [] => []
  | (name, j) :: rest => (quote (name.getD "") ++ ": " ++ prettyAt depth j) :: prettyEntries depth rest

end

/-- Writes a value with every part on a line of its own. -/
def pretty (j : Json) : String := prettyAt 0 j

end Manuscript.Json
