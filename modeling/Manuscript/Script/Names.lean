/-
# The names of a script

Characters, scenes, functions and labels get identifiers. Characters share one
space with the words for backgrounds and displayed images; scenes have one of
their own, functions another, and the labels of each function one more, since a
label is written behind the name of its function.

Key definitions: `Script.Names`, `Script.Names.of`, `Script.imageName`.
-/
import Manuscript.Identifier
import Manuscript.Script.Statement
import Manuscript.Stage.Generate

namespace Manuscript.Script

/-- The identifiers of what a script refers to. -/
structure Names where
  characters : List String
  /-- Every scene with its identifier. -/
  scenes : List (String × String)
  functions : List String
  /-- For every function, every label with its identifier. -/
  labels : List (List (String × String))
deriving Repr, DecidableEq

/-- Names with the identifiers that a fresh namer hands out for them in turn. -/
def pairUp (names : List String) : List (String × String) :=
  names.zip (Namer.fresh.claimAll names).1

/-- The identifier of a name; of a name that stands twice, the last. -/
def identifierOf (pairs : List (String × String)) (name : String) : String :=
  (pairs.reverse.lookup name).getD (Identifier.sanitize name)

namespace Names

/-- The identifiers of a program and its generated code. -/
def of (p : Program) (g : Generated) : Names :=
  { characters :=
      (((Namer.fresh.reserve "bg").reserve "cg").claimAll (p.characters.map (·.name))).1
    scenes := pairUp (g.scenes.map (·.name))
    functions := (Namer.fresh.claimAll (g.functions.map (·.name))).1
    labels := g.functions.map fun f => pairUp (f.blocks.filterMap (·.label)) }

/-- The identifier of a character. -/
def character (n : Names) (id : CharacterId) : Except Fault String :=
  (Fault.noCharacter id).unless n.characters[id]?

/-- The identifier of a scene. -/
def scene (n : Names) (name : String) : String := identifierOf n.scenes name

/-- The identifier of a function. -/
def function (n : Names) (id : FunctionId) : Except Fault String :=
  (Fault.noFunction id).unless n.functions[id]?

/-- The label of a block of a function, if it carries one. -/
def label? (n : Names) (f : FunctionId) (b : GeneratedBlock) : Option String :=
  b.label.map fun l =>
    n.functions[f]?.getD "" ++ "." ++ identifierOf (n.labels[f]?.getD []) l

end Names

/-- The tags of a state as identifiers. -/
def imageTags (path : List String) : String := Text.join " " (path.map Identifier.sanitize)

/-- The name of the image of a state. -/
def imageName (base : String) (path : List String) : String :=
  if path.isEmpty then base else base ++ " " ++ imageTags path

end Manuscript.Script
