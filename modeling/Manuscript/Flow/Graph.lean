/-
# Flow graphs

The parts of a function become its blocks, with labels replaced by the blocks
that carry them. A graph is then checked again: it has a first block, no label
stands twice, every branch has an arm, every call a block to continue in, and
every jump leads to a label.

Key definitions: `FlowGraph.ofParts`, `FlowGraph.problems`, `FlowGraph.build`.
-/
import Manuscript.Flow.Cut

namespace Manuscript.FlowGraph

/-- The block that carries a label. -/
def blockOf (parts : List Part) (label : String) : BlockId :=
  (parts.findIdx? (·.label == some label)).getD 0

/-- The target that a goal is. -/
def targetOf (parts : List Part) : Goal → Target
  | .label name => .block (blockOf parts name)
  | .function id => .function id

/-- The terminator that an exit is. -/
def terminatorOf (parts : List Part) : Exit → Terminator
  | .jump (.label name) => .jump (blockOf parts name)
  | .jump (.function id) => .jumpFunction id
  | .call id => .call id
  | .branch arms => .branch (arms.map fun (text, goal) => ⟨text, targetOf parts goal⟩)
  | .ret => .ret

/-- The graph of a function that was cut into parts. -/
def ofParts (p : Procedure) (parts : List Part) : FlowGraph :=
  ⟨p.name, parts.map fun q => ⟨q.label, q.insts, terminatorOf parts q.exit⟩, p.loc⟩

/-- What can be wrong with a graph. -/
inductive Problem where
  | noEntry
  | sharedLabel (label : String)
  | noArms (block : BlockId)
  | noContinuation (block : BlockId)
  | notALabel (block target : BlockId)
deriving Repr, DecidableEq

/-- What is said about a problem. -/
def Problem.message : Problem → String
  | noEntry => "function has no entry block"
  | sharedLabel label => "label '" ++ label ++ "' names more than one block"
  | noArms b => s!"block {b} branches with no arms"
  | noContinuation b => s!"block {b} calls without a continuation block"
  | notALabel b t => s!"block {b} targets block {t} which is not a local label"

/-- The block exists and carries a label. -/
def isLabelled (f : FlowGraph) (b : BlockId) : Bool :=
  match f.blocks[b]? with
  | some block => block.label.isSome
  | none => false

/-- The problem of a label that an earlier block carries. -/
def labelProblems (f : FlowGraph) (i : BlockId) (b : BasicBlock) : List Problem :=
  match b.label with
  | some label =>
    if (f.blocks.take i).any (·.label == some label) then [.sharedLabel label] else []
  | none => []

/-- The problems of the targets of a block. -/
def targetProblems (f : FlowGraph) (i : BlockId) (targets : List BlockId) : List Problem :=
  (targets.filter (!f.isLabelled ·)).map (.notALabel i ·)

/-- The problems of a terminator. -/
def terminatorProblems (f : FlowGraph) (i : BlockId) : Terminator → List Problem
  | .jump b => f.targetProblems i [b]
  | .branch arms =>
    (if arms.isEmpty then [.noArms i] else [])
      ++ f.targetProblems i ((Terminator.branch arms).successors (i + 1))
  | .call _ => if i + 1 ≥ f.blocks.length then [.noContinuation i] else []
  | .jumpFunction _ | .ret => []

/-- The problems of a graph, block by block. -/
def problems (f : FlowGraph) : List Problem :=
  (if f.blocks.isEmpty then [.noEntry] else [])
    ++ f.blocks.zipIdx.flatMap fun (b, i) => f.labelProblems i b ++ f.terminatorProblems i b.terminator

/-- The reports of the problems of a graph. -/
def validate (f : FlowGraph) : List Diagnostic :=
  f.problems.map fun p =>
    .make .flowInvalid [("function", f.name), ("reason", p.message)] (some f.loc)

/-- The graph of one function, with the reports of cutting and checking it. -/
def ofProcedure (table : SymbolTable) (p : Procedure) : FlowGraph × List Diagnostic :=
  let o := Flow.cut table p
  let f := ofParts p o.parts
  (f, o.diags ++ f.validate)

/-- The graphs of all functions, with the reports in their order. -/
def build (all : List Procedure) : List FlowGraph × List Diagnostic :=
  let built := all.map (ofProcedure (.of all))
  (built.map (·.1), built.flatMap (·.2))

end Manuscript.FlowGraph
