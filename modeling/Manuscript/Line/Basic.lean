/-
# Lines

The text of a paragraph is a command line, a spoken line, narration, or blank.
Commands are tried first; a line of brackets that holds up to no commands may
still be spoken, and what is neither is narration. Reading a line never fails.

Key definitions: `Line`, `Line.read`.
-/
import Manuscript.Line.Bracketed
import Manuscript.Line.Say

namespace Manuscript

/-- What the text of a paragraph is. -/
inductive Line where
  | commands (commands : List Command)
  | say (say : SayLine)
  | narration
  | blank
deriving Repr

namespace Line

/-- Reads a text as a spoken line or narration. -/
def readProse (text : String) (limit : Nat) : Line :=
  match SayLine.ofLine? text limit with
  | some s => say s
  | none => narration

/-- Reads the text of a block, with the diagnostics that reading gives. Names have at most
`limit` characters. -/
def read (text : String) (block limit : Nat) : Line × List Diagnostic :=
  if Text.allBlank text then (blank, [])
  else match Bracketed.ofLine text block with
    | .commands cs ds => (commands cs, ds)
    | .nameless d => (readProse text limit, [d])
    | .absent => (readProse text limit, [])

end Line
end Manuscript
