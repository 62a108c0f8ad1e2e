/-
# Cutting a stream into parts

The steps of a function are cut at every label and behind every transfer of
control. Of several declarations of a label the last one counts. A target is a
label of the function or else a function; what can be neither is reported and the
transfer dropped, and so is what stands behind a transfer that never falls
through.

Key definitions: `Part`, `Flow.Outcome`, `Flow.cut`.
-/
import Manuscript.Flow.Op

namespace Manuscript

/-- A target that was found: a label of the function, or a function. -/
inductive Goal where
  | label (name : String)
  | function (id : FunctionId)
deriving Repr, DecidableEq

/-- How a part ends. -/
inductive Exit where
  | jump (goal : Goal)
  | call (id : FunctionId)
  | branch (arms : List (String × Goal))
  | ret
deriving Repr, DecidableEq

/-- A stretch of a function that control enters only at its start. -/
structure Part where
  label : Option String
  insts : List Inst
  exit : Exit
deriving Repr, DecidableEq

namespace Flow

/-- Parts, and what was reported on the way. -/
structure Outcome where
  parts : List Part
  diags : List Diagnostic
deriving Repr, DecidableEq

/-- The outcome with a part in front. -/
def Outcome.part (p : Part) (o : Outcome) : Outcome := { o with parts := p :: o.parts }

/-- The outcome with reports in front. -/
def Outcome.report (ds : List Diagnostic) (o : Outcome) : Outcome := { o with diags := ds ++ o.diags }

/-- The report of a target that names neither a label of the function nor a function. -/
def unresolved (table : SymbolTable) (p : Procedure) (target : String) (loc : Loc) : Diagnostic :=
  match table.owner? target with
  | some owner =>
    .make .labelCrossFunction [("owner", owner), ("name", target), ("function", p.name)] (some loc)
  | none => .make .labelNotFound [("name", target), ("function", p.name)] (some loc)

/-- Finds a target: a label of the function comes before a function. -/
def resolve (table : SymbolTable) (p : Procedure) (target : String) (loc : Loc) :
    Except Diagnostic Goal :=
  if Procedure.declares target p.ops then .ok (.label target)
  else match table.function? target with
    | some id => .ok (.function id)
    | none => .error (unresolved table p target loc)

/-- The arms whose targets are found, and the reports of the others. -/
def resolveArms (table : SymbolTable) (p : Procedure) (loc : Loc) :
    List (String × String) → List (String × Goal) × List Diagnostic
  | [] => ([], [])
  | (text, target) :: rest =>
    let (arms, ds) := resolveArms table p loc rest
    match resolve table p target loc with
    | .ok goal => ((text, goal) :: arms, ds)
    | .error d => (arms, d :: ds)

/-- How a branch ends a part: without an arm it returns. -/
def branchExit : List (String × Goal) → Exit
  | [] => .ret
  | arms => .branch arms

/-- The part that is being filled: its label and its instructions so far. -/
structure Filling where
  label : Option String
  insts : List Inst
deriving Repr, DecidableEq

/-- The filled part with its exit. -/
def Filling.close (f : Filling) (exit : Exit) : Part := ⟨f.label, f.insts, exit⟩

/-- Cuts the steps that remain, with the part that is being filled; none if control does not
get here. -/
def cutFrom (table : SymbolTable) (p : Procedure) : Option Filling → List Op → Outcome
  | none, [] => ⟨[], []⟩
  | some f, [] => ⟨[f.close .ret], []⟩
  | current, op :: rest =>
    match op.step with
    | .label name =>
      if Procedure.declares name rest then
        (cutFrom table p current rest).report
          [.make .labelDuplicate [("name", name), ("function", p.name)] (some op.loc)]
      else
        let next := cutFrom table p (some ⟨some name, []⟩) rest
        match current with
        | some f => next.part (f.close (.jump (.label name)))
        | none => next
    | step =>
      match current with
      | none =>
        (cutFrom table p none rest).report
          [.make .unhandledNode [("node", op.describe)] (some op.loc)]
      | some f =>
        match step with
        | .act a => cutFrom table p (some { f with insts := f.insts ++ [⟨a, op.loc⟩] }) rest
        | .jump target =>
          match resolve table p target op.loc with
          | .ok goal => (cutFrom table p none rest).part (f.close (.jump goal))
          | .error d => ((cutFrom table p none rest).part (f.close .ret)).report [d]
        | .call target =>
          match table.function? target with
          | some id => (cutFrom table p (some ⟨none, []⟩) rest).part (f.close (.call id))
          | none =>
            (cutFrom table p (some f) rest).report
              [.make .functionNotFound [("name", target)] (some op.loc)]
        | .branch arms =>
          let (arms, ds) := resolveArms table p op.loc arms
          ((cutFrom table p none rest).part (f.close (branchExit arms))).report ds
        | .ret | .label _ => (cutFrom table p none rest).part (f.close .ret)

/-- Cuts a function into parts. -/
def cut (table : SymbolTable) (p : Procedure) : Outcome := cutFrom table p (some ⟨none, []⟩) p.ops

end Flow
end Manuscript
