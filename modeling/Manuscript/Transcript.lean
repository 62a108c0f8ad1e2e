/-
# Transcripts

The spoken lines of a program one after the other: who says what, in which
function and under which label. Lines without a speaker are the narrator's.

Key definitions: `Transcript`, `Transcript.of`, `Transcript.toJson`,
`Transcript.toText`.
-/
import Manuscript.Json.Printer
import Manuscript.Program.Basic

namespace Manuscript

/-- A spoken line of a program. -/
structure SpokenLine where
  function : String
  block : Option String
  speaker : String
  status : List String
  content : String
deriving Repr, DecidableEq

/-- The spoken lines of a program. -/
structure Transcript where
  lines : List SpokenLine
deriving Repr, DecidableEq

namespace Transcript

/-- The line of an instruction, if it is spoken. -/
def lineOf (p : Program) (narrator : String) (f : FlowGraph) (b : BasicBlock) (i : Inst) :
    Except Fault (Option SpokenLine) :=
  match i.action with
  | .say none status content => .ok (some ⟨f.name, b.label, narrator, status, content.plain⟩)
  | .say (some id) status content => do
    let c ← p.character id
    return some ⟨f.name, b.label, c.name, status, content.plain⟩
  | _ => .ok none

/-- The spoken lines of a block. -/
def blockLines (p : Program) (narrator : String) (f : FlowGraph) (b : BasicBlock) :
    Except Fault (List SpokenLine) := do
  return (← b.insts.mapM (lineOf p narrator f b)).filterMap id

/-- The transcript of a program. -/
def of (p : Program) (narrator : String) : Except Fault Transcript := do
  let lines ← p.functions.mapM fun f => f.blocks.mapM (blockLines p narrator f)
  return ⟨lines.flatten.flatten⟩

/-- A line as a JSON value; an empty status is left out. -/
def lineJson (l : SpokenLine) : Json :=
  let str (s : String) : Json := .string (some s)
  .object <|
    [(some "function", str l.function), (some "block", (l.block.map str).getD .null),
      (some "speaker", str l.speaker)]
    ++ (if l.status.isEmpty then [] else [(some "status", .array (l.status.map str))])
    ++ [(some "content", str l.content)]

/-- The transcript as JSON text. -/
def toJson (t : Transcript) : String := (Json.array (t.lines.map lineJson)).pretty

/-- A line as plain text. -/
def lineText (l : SpokenLine) : String :=
  if l.status.isEmpty then l.speaker ++ ": " ++ l.content ++ "\n"
  else l.speaker ++ " (" ++ Text.join ", " l.status ++ "): " ++ l.content ++ "\n"

/-- The transcript as plain text. -/
def toText (t : Transcript) : String := String.join (t.lines.map lineText)

end Transcript
end Manuscript
