/-
# Op streams

What a document says about one function, in the order of the document: actions,
labels, and transfers of control by name.

Key definitions: `Step`, `Op`, `Procedure`, `SymbolTable`.
-/
import Manuscript.Program.Basic

namespace Manuscript

/-- One step of a function as written. -/
inductive Step where
  | act (action : Action)
  /-- A place that jumps can name. -/
  | label (name : String)
  | jump (target : String)
  | call (target : String)
  /-- A choice between texts, each with the name it leads to. -/
  | branch (arms : List (String × String))
  | ret
deriving Repr, DecidableEq

/-- A step and the place in the document it comes from. -/
structure Op where
  step : Step
  loc : Loc
deriving Repr, DecidableEq

/-- What a step is called in a diagnostic. -/
def Op.describe (op : Op) : String :=
  match op.step with
  | .act a => a.describe
  | .label name => "label " ++ name
  | .jump target => "jump " ++ target
  | .call target => "call " ++ target
  | .branch _ => "branch"
  | .ret => "return"

/-- A function as written: its name and its steps. -/
structure Procedure where
  name : String
  ops : List Op
  loc : Loc
deriving Repr, DecidableEq

namespace Procedure

/-- The steps declare the label. -/
def declares (label : String) (ops : List Op) : Bool := ops.any (·.step == .label label)

/-- The first function with a name. -/
def find? (ps : List Procedure) (name : String) : Option FunctionId :=
  ps.findIdx? (·.name == name)

/-- The name of the first function that declares a label. -/
def owner? (ps : List Procedure) (label : String) : Option String :=
  (ps.find? fun p => declares label p.ops).map (·.name)

end Procedure

/-- What names stand for across functions. -/
structure SymbolTable where
  /-- The function with a name. -/
  function? : String → Option FunctionId
  /-- The name of the function that declares a label. -/
  owner? : String → Option String

/-- The table of functions, where the first with a name or a label counts. -/
def SymbolTable.of (ps : List Procedure) : SymbolTable where
  function? := Procedure.find? ps
  owner? := Procedure.owner? ps

end Manuscript
