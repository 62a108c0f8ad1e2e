/-
# Splitting, joining and replacing

The pieces of a text between separators, its words, its lines, and the
replacement of one text by another.

Key definitions: `Text.splitBy`, `Text.words`, `Text.lines`, `Text.replaceAll`,
`Text.splitLast?`, `Text.join`.
-/
import Manuscript.Text.Blank

namespace Manuscript.Text

/-- The pieces between the characters of a class, empty ones included. -/
def splitBy (p : Char → Bool) : List Char → List (List Char)
  | [] => [[]]
  | c :: cs =>
    if p c then [] :: splitBy p cs
    else match splitBy p cs with
      | [] => [[c]]
      | piece :: rest => (c :: piece) :: rest

/-- The words of a text: its longest pieces without a blank. -/
def words (s : String) : List String :=
  ((splitBy isBlank s.toList).filter (!·.isEmpty)).map String.ofList

/-- Drops one carriage return at the end of a line. -/
def dropReturn (line : List Char) : List Char :=
  match line.reverse with
  | '\r' :: rest => rest.reverse
  | _ => line

/-- The lines of a text without their line ends; a line end that closes the text opens no
further line. -/
def lines (s : String) : List String :=
  let pieces := splitBy (· == '\n') s.toList
  let pieces := if pieces.getLast? = some [] then
      pieces.dropLast.map dropReturn
    else pieces.dropLast.map dropReturn ++ pieces.getLast?.toList
  pieces.map String.ofList

/-- Replaces `old` by `new` from left to right, after leaving out `skip` characters that
belong to a replaced piece. -/
def replaceFrom (old new : List Char) : Nat → List Char → List Char
  | _, [] => []
  | skip + 1, _ :: cs => replaceFrom old new skip cs
  | 0, c :: cs =>
    if old.isPrefixOf (c :: cs) then new ++ replaceFrom old new (old.length - 1) cs
    else c :: replaceFrom old new 0 cs

/-- Replaces every piece equal to the non-empty text `old` by `new`; what a replacement
brings in is not looked at again. -/
def replaceAll (old new s : String) : String :=
  String.ofList (replaceFrom old.toList new.toList 0 s.toList)

/-- What stands before and after the last character of a class. -/
def splitLast? (p : Char → Bool) : List Char → Option (List Char × List Char)
  | [] => none
  | c :: cs =>
    match splitLast? p cs with
    | some (a, b) => some (c :: a, b)
    | none => if p c then some ([], cs) else none

/-- The texts one after the other with `sep` between them. -/
def join (sep : String) : List String → String
  | [] => ""
  | [s] => s
  | s :: t :: rest => s ++ sep ++ join sep (t :: rest)

end Manuscript.Text
