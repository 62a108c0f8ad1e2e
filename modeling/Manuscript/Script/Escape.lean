/-
# Escaping

Text inside a double-quoted string of the script. The engine gives a meaning to
backslashes, quotes, percent signs, brackets and braces, and it collapses runs of
spaces; escaping keeps all of them literal. Medium marks are dropped.

Key definitions: `Script.escape`, `Script.markup`.
-/
import Manuscript.Document.Basic

namespace Manuscript.Script

/-- A character as it stands in a string of the script. -/
def escapeChar (c : Char) : List Char :=
  if c = '\\' then ['\\', '\\']
  else if c = '"' then ['\\', '"']
  else if c = '\'' then ['\\', '\'']
  else if c = '\n' then ['\\', 'n']
  else if c = '%' then ['\\', '%']
  else if c = '[' then ['[', '[']
  else if c = '\x7b' then ['\x7b', '\x7b']
  else if c = elementMark then []
  else [c]

/-- Puts a backslash before every space that follows a space; `behindSpace` says that one
stands right before the text. -/
def protectSpaces (behindSpace : Bool) : List Char → List Char
  | [] => []
  | c :: cs =>
    if c = ' ' then
      if behindSpace then '\\' :: ' ' :: protectSpaces true cs else ' ' :: protectSpaces true cs
    else c :: protectSpaces false cs

/-- The characters of a text as they stand in a string of the script. -/
def escapeChars (cs : List Char) : List Char := protectSpaces false (cs.flatMap escapeChar)

/-- A text as it stands in a string of the script. -/
def escape (s : String) : String := String.ofList (escapeChars s.toList)

/-- The tags that open a style. -/
def openTags (s : Style) : String :=
  (match s.color with
    | some c => "\x7bcolor=" ++ c.render ++ "\x7d"
    | none => "")
  ++ (if s.bold then "\x7bb\x7d" else "") ++ (if s.italic then "\x7bi\x7d" else "")

/-- The tags that close a style, innermost first. -/
def closeTags (s : Style) : String :=
  (if s.italic then "\x7b/i\x7d" else "") ++ (if s.bold then "\x7b/b\x7d" else "")
  ++ (if s.color.isSome then "\x7b/color\x7d" else "")

/-- A run between the tags of its style; nothing if nothing of its text is left. -/
def markupRun (r : Run) : String :=
  let body := escape r.text
  if body.isEmpty then "" else openTags r.style ++ body ++ closeTags r.style

/-- A styled text as it stands in a string of the script. -/
def markup (t : StyledText) : String := String.join (t.runs.map markupRun)

end Manuscript.Script
