/-
# Compiling documents

From a document to its program, script, transcript and diagnostics.

Key definitions: `lower`, `compile`, `compileText`, `compileAll`.
-/
import Manuscript.Assembly.Code
import Manuscript.Document.Json
import Manuscript.Flow.Graph
import Manuscript.Script.Emit
import Manuscript.Transcript

namespace Manuscript

/-- What a document compiles to. -/
structure Compiled where
  program : Program
  script : String
  transcript : Transcript
  diags : List Diagnostic
deriving Repr, DecidableEq

/-- The program of a document, with the reports of making it. -/
def lower (d : Document) (s : Settings) : Except Fault (Program × List Diagnostic) := do
  let a ← Assembly.ofDocument s.frontend d
  let (functions, ds) := FlowGraph.build a.procedures
  return ({ a.program with functions }, a.diags ++ ds)

/-- The script of a program, with the reports of generating it. -/
def Program.script (p : Program) (s : Settings) : Except Fault (String × List Diagnostic) := do
  let g ← generate p s.codegen
  return (← Script.emit p g s.codegen, g.diags)

/-- Compiles a document. -/
def compile (d : Document) (s : Settings) : Except Fault Compiled := do
  let (program, lowering) ← lower d s
  let (script, generation) ← program.script s
  let transcript ← Transcript.of program s.frontend.narratorName
  return ⟨program, script, transcript, lowering ++ generation⟩

/-- Compiles documents one by one. -/
def compileAll (ds : List Document) (s : Settings) : Except Fault (List Compiled) :=
  ds.mapM (compile · s)

/-- Why a text was not compiled. -/
inductive CompileError where
  /-- The text is not a document. -/
  | notADocument
  | fault (f : Fault)
deriving Repr, DecidableEq

/-- Compiles a document from its JSON text. -/
def compileText (src : String) (s : Settings) : Except CompileError Compiled :=
  match Document.parse? src with
  | none => .error .notADocument
  | some d =>
    match compile d s with
    | .ok c => .ok c
    | .error f => .error (.fault f)

end Manuscript
