/-
# Generated code

The blocks of a function are walked once, in order. A block is entered with the
stage that its first predecessor among the blocks before it leaves behind; a block
without one is entered with the stage of the block before it. Every other edge
into the block may arrive with a different stage, so it gets a patch: the
instructions that bring the stage at its source to the stage at the entry of its
target. A patch stands before the exit of a block with one successor, and in the
arm of a branch.

Key definitions: `GeneratedBlock`, `Generated`, `Generate.entryOf`,
`Generate.function`, `generate`.
-/
import Manuscript.Stage.Walk

namespace Manuscript

/-- A block of generated code. -/
structure GeneratedBlock where
  label : Option String
  body : List Inst
  /-- The patch of the edge to the only successor. -/
  patch : List Inst
  terminator : Terminator
  /-- The patches of the arms of a branch, arm by arm. -/
  armPatches : List (List Inst)
deriving Repr, DecidableEq

/-- A function of generated code. -/
structure GeneratedFunction where
  name : String
  blocks : List GeneratedBlock
deriving Repr, DecidableEq

/-- The generated code of a program. -/
structure Generated where
  functions : List GeneratedFunction
  /-- The scenes declared, then those that were added. -/
  scenes : List Scene
  /-- The states shown without art, in order. -/
  placeholders : List Placeholder
  diags : List Diagnostic
deriving Repr, DecidableEq

namespace Generate

/-- The stage at the entry and at the exit of a block, and what the block emits. -/
structure Visit where
  entry : Snapshot
  exit : Snapshot
  body : List Inst
deriving Repr

/-- The stage with which block `i` is entered, after the blocks before it were visited. -/
def entryOf (f : FlowGraph) (initial : Snapshot) (visits : List Visit) (i : BlockId) : Snapshot :=
  match (f.edgesInto i).find? (·.source < i) with
  | some e => (visits[e.source]?.map (·.exit)).getD initial
  | none => (visits.getLast?.map (·.exit)).getD initial

/-- Visits the blocks that remain, after those before them were visited. -/
def visitFrom (p : Program) (policy : ReentrantShow) (f : FlowGraph) :
    Walk → List Visit → List BasicBlock → Except Fault (List Visit × Walk)
  | w, visits, [] => .ok (visits, w)
  | w, visits, b :: rest => do
    let entry := entryOf f (.initial p) visits visits.length
    let (body, exit, w) ← Walk.insts p policy w entry b.insts
    visitFrom p policy f w (visits ++ [⟨entry, exit, body⟩]) rest

/-- Visits all blocks of a function. -/
def visit (p : Program) (policy : ReentrantShow) (w : Walk) (f : FlowGraph) :
    Except Fault (List Visit × Walk) :=
  visitFrom p policy f w [] f.blocks

/-- The patch of an edge: what brings the stage at the exit of its source to the stage at
the entry of its target. An edge to a block that does not exist has none. -/
def patchOf (visits : List Visit) (source target : BlockId) : List Inst :=
  match visits[source]?, visits[target]? with
  | some s, some t => Snapshot.diff t.entry s.exit
  | _, _ => []

/-- The patch before the exit of a block that does not branch. -/
def exitPatch (visits : List Visit) (i : BlockId) : Terminator → List Inst
  | .branch _ => []
  | t => (t.successors (i + 1)).flatMap (patchOf visits i)

/-- The patch of an arm; one that leaves the function has none. -/
def armPatch (visits : List Visit) (i : BlockId) (a : Arm) : List Inst :=
  match a.target with
  | .block b => patchOf visits i b
  | .function _ => []

/-- The patches of the arms of a block. -/
def armPatches (visits : List Visit) (i : BlockId) : Terminator → List (List Inst)
  | .branch arms => arms.map (armPatch visits i)
  | _ => []

/-- The name of a block in a report: by its label, or else by its number. -/
def blockName (f : FlowGraph) (i : BlockId) : String :=
  match f.blocks[i]? >>= (·.label) with
  | some label => f.name ++ "." ++ label
  | none => f.name ++ "#" ++ toString i

/-- The report of a patch on an edge, if it has one. -/
def patchReport (f : FlowGraph) (visits : List Visit) (target : BlockId) (e : Edge) :
    Option Diagnostic :=
  match (patchOf visits e.source target).length with
  | 0 => none
  | n => some <| .make .stateMergeCompensated
    [("count", toString n), ("from", blockName f e.source), ("to", blockName f target)]
    (some f.loc)

/-- The reports of all patches, by target and then by edge. -/
def patchReports (f : FlowGraph) (visits : List Visit) : List Diagnostic :=
  (List.range f.blocks.length).flatMap fun b =>
    (f.edgesInto b).filterMap (patchReport f visits b)

/-- The generated code of a visited block. -/
def block (visits : List Visit) (b : BasicBlock) (i : BlockId) : GeneratedBlock :=
  { label := b.label
    body := (visits[i]?.map (·.body)).getD []
    patch := exitPatch visits i b.terminator
    terminator := b.terminator
    armPatches := armPatches visits i b.terminator }

/-- The generated code of a function. -/
def function (p : Program) (policy : ReentrantShow) (w : Walk) (f : FlowGraph) :
    Except Fault (GeneratedFunction × Walk) := do
  let (visits, w) ← visit p policy { w with unknown := [] } f
  let blocks := f.blocks.zipIdx.map fun (b, i) => block visits b i
  return (⟨f.name, blocks⟩, { w with diags := w.diags ++ patchReports f visits })

/-- The generated code of several functions in turn. -/
def functions (p : Program) (policy : ReentrantShow) :
    Walk → List FlowGraph → Except Fault (List GeneratedFunction × Walk)
  | w, [] => .ok ([], w)
  | w, f :: rest => do
    let (g, w) ← function p policy w f
    let (gs, w) ← functions p policy w rest
    return (g :: gs, w)

end Generate

/-- The generated code of a program. -/
def generate (p : Program) (s : CodegenSettings) : Except Fault Generated := do
  let (functions, w) ← Generate.functions p s.reentrantShow ⟨p.scenes, [], [], []⟩ p.functions
  return ⟨functions, w.scenes, w.placeholders, w.diags⟩

end Manuscript
