/-
# Command lines

A line of bracketed segments is read segment by segment. A comment mark at the
front of a segment disables its command. If a segment has no name, the line is no
command line after all, and the segment is reported.

Key definitions: `Bracketed`, `Bracketed.ofLine`.
-/
import Manuscript.Command.Basic
import Manuscript.Line.Segment

namespace Manuscript

/-- What a line is, taken as a command line. -/
inductive Bracketed where
  /-- Not a line of bracketed segments. -/
  | absent
  /-- The commands in the order written, and what was odd about their arguments. -/
  | commands (commands : List Command) (diags : List Diagnostic)
  /-- Bracketed segments, one of which has no name. -/
  | nameless (diag : Diagnostic)
deriving Repr

namespace Segment

/-- The text of a command without the mark that disables it, and whether it was there. -/
def enabling (interior : List Char) : List Char × Bool :=
  match Text.trimStart interior with
  | c :: rest => if Mark.isCommentStart c then (rest, true) else (interior, false)
  | [] => (interior, false)

/-- The number of medium marks of the line before the segment's text. -/
def firstElement (line : List Char) (s : Segment) : Nat :=
  (Text.takeBytes s.start line).countP Mark.isElement

/-- The place of a segment of the block. -/
def loc (block : Nat) (s : Segment) : Loc := ⟨block, s.outer.start, s.outer.stop⟩

/-- The command of a segment. -/
def command? (line : List Char) (block : Nat) (s : Segment) :
    Option (Command × List Diagnostic) :=
  let (interior, disabled) := enabling s.interior
  (Command.parse? (String.ofList interior) (s.loc block) (s.firstElement line)).map
    fun (command, diags) => ({ command with disabled }, diags)

/-- The report of a segment without a name. -/
def namelessDiag (block : Nat) (s : Segment) : Diagnostic :=
  .make .unrecognizedCommand
    [("name", String.ofList (Text.trim s.interior)), ("reason", "no command name")]
    (some (s.loc block))

end Segment

namespace Bracketed

/-- Reads the segments of a line in order, up to the first without a name. -/
def ofSegments (line : List Char) (block : Nat) : List Segment → Bracketed
  | [] => commands [] []
  | s :: rest =>
    match s.command? line block with
    | none => nameless (s.namelessDiag block)
    | some (c, ds) =>
      match ofSegments line block rest with
      | commands cs es => commands (c :: cs) (ds ++ es)
      | other => other

/-- Reads the text of a block as a command line. -/
def ofLine (text : String) (block : Nat) : Bracketed :=
  match Segment.ofLine? text.toList with
  | none => absent
  | some segments => ofSegments text.toList block segments

end Bracketed
end Manuscript
