/-
# Styles do not reach the flow

Erasing the styles of a program keeps every line and its plain text
(`Program.unstyled`). Labels, targets and reports are about names and places only,
so a stream is cut in the same way with its styles and without: cutting commutes
with erasing, and the reports are the same (`FlowGraph.build_unstyled`).

Key definitions: `StyledText.unstyled`, `Action.unstyled`, `Procedure.unstyled`,
`FlowGraph.unstyled`, `Program.unstyled`.
Key theorems: `Flow.cutFrom_unstyled`, `FlowGraph.validate_unstyled`,
`FlowGraph.build_unstyled`.
-/
import Manuscript.Flow.Graph

namespace Manuscript

/-! ### Erasing styles -/

/-- The text as one run without a style. -/
def StyledText.unstyled (t : StyledText) : StyledText := .ofString t.plain

/-- The action with its content, if it has one, replaced by the plain text. -/
def Action.unstyled : Action → Action
  | .say speaker status content => .say speaker status content.unstyled
  | action => action

/-- The instruction without styles. -/
def Inst.unstyled (i : Inst) : Inst := { i with action := i.action.unstyled }

/-- The step without styles. -/
def Step.unstyled : Step → Step
  | .act action => .act action.unstyled
  | step => step

/-- The step without styles, where it comes from. -/
def Op.unstyled (op : Op) : Op := { op with step := op.step.unstyled }

/-- The function as written, without styles. -/
def Procedure.unstyled (p : Procedure) : Procedure := { p with ops := p.ops.map Op.unstyled }

/-- The block without styles. -/
def BasicBlock.unstyled (b : BasicBlock) : BasicBlock := { b with insts := b.insts.map Inst.unstyled }

/-- The function without styles. -/
def FlowGraph.unstyled (f : FlowGraph) : FlowGraph := { f with blocks := f.blocks.map BasicBlock.unstyled }

/-- The program without styles. -/
def Program.unstyled (p : Program) : Program :=
  { p with functions := p.functions.map FlowGraph.unstyled }

/-- The part without styles. -/
def Part.unstyled (q : Part) : Part := { q with insts := q.insts.map Inst.unstyled }

namespace Flow

/-- The part that is being filled, without styles. -/
def Filling.unstyled (f : Filling) : Filling := { f with insts := f.insts.map Inst.unstyled }

/-- The outcome without styles. -/
def Outcome.unstyled (o : Outcome) : Outcome := { o with parts := o.parts.map Part.unstyled }

end Flow

/-! ### Names and places -/

theorem Op.describe_unstyled (op : Op) : op.unstyled.describe = op.describe := by
  rcases op with ⟨step, loc⟩
  cases step with
  | act action => cases action <;> rfl
  | _ => rfl

theorem Step.unstyled_beq_label (step : Step) (name : String) :
    (step.unstyled == .label name) = (step == .label name) := by
  cases step <;> rfl

namespace Procedure

@[simp] theorem declares_unstyled (name : String) (ops : List Op) :
    declares name (ops.map Op.unstyled) = declares name ops := by
  unfold declares
  rw [List.any_map]
  exact congrArg ops.any (funext fun op => op.step.unstyled_beq_label name)

theorem find?_unstyled (ps : List Procedure) (name : String) :
    find? (ps.map unstyled) name = find? ps name := by
  unfold find?
  rw [List.findIdx?_map]
  rfl

theorem owner?_unstyled (ps : List Procedure) (label : String) :
    owner? (ps.map unstyled) label = owner? ps label := by
  have hdeclares : (fun p => declares label p.ops) ∘ unstyled = fun p => declares label p.ops :=
    funext fun p => declares_unstyled label p.ops
  unfold owner?
  rw [List.find?_map, Option.map_map, hdeclares]
  rfl

end Procedure

/-- Names stand for the same without the styles. -/
theorem SymbolTable.of_unstyled (ps : List Procedure) :
    SymbolTable.of (ps.map Procedure.unstyled) = SymbolTable.of ps := by
  unfold SymbolTable.of
  congr 1
  · exact funext (Procedure.find?_unstyled ps)
  · exact funext (Procedure.owner?_unstyled ps)

namespace Flow

variable (table : SymbolTable) (p : Procedure)

theorem resolve_unstyled (target : String) (loc : Loc) :
    resolve table p.unstyled target loc = resolve table p target loc := by
  unfold resolve unresolved
  rw [Procedure.unstyled, Procedure.declares_unstyled]

theorem resolveArms_unstyled (loc : Loc) : ∀ arms : List (String × String),
    resolveArms table p.unstyled loc arms = resolveArms table p loc arms
  | [] => rfl
  | (text, target) :: rest => by
    rw [resolveArms, resolveArms, resolve_unstyled, resolveArms_unstyled loc rest]

/-- An instruction more goes to the part without styles as it goes to the part. -/
theorem Filling.unstyled_snoc (f : Filling) (action : Action) (loc : Loc) :
    Filling.unstyled { f with insts := f.insts ++ [⟨action, loc⟩] } =
      { f.unstyled with insts := f.unstyled.insts ++ [⟨action.unstyled, loc⟩] } := by
  simp [Filling.unstyled, Inst.unstyled]

/-- What control does not get to is reported, unless it is a label. -/
theorem cutFrom_none_cons {op : Op} (hlabel : ∀ name, op.step ≠ .label name) (rest : List Op) :
    cutFrom table p none (op :: rest) = (cutFrom table p none rest).report
      [.make .unhandledNode [("node", op.describe)] (some op.loc)] := by
  rcases op with ⟨step, loc⟩
  cases step with
  | label name => exact absurd rfl (hlabel name)
  | _ => rfl

/-- **A stream is cut in the same way without its styles.** -/
theorem cutFrom_unstyled : ∀ (ops : List Op) (current : Option Filling),
    cutFrom table p.unstyled (current.map Filling.unstyled)
      (ops.map Op.unstyled) = (cutFrom table p current ops).unstyled
  | [], none => rfl
  | [], some f => rfl
  | ⟨step, loc⟩ :: rest, current => by
    have ih := cutFrom_unstyled rest
    have hnone := ih none
    have hopen : ∀ label, cutFrom table p.unstyled (some ⟨label, []⟩)
        (rest.map Op.unstyled) = (cutFrom table p (some ⟨label, []⟩) rest).unstyled :=
      fun label => ih (some ⟨label, []⟩)
    rw [Option.map_none] at hnone
    rw [List.map_cons]
    by_cases hlabel : ∃ name, step = .label name
    · obtain ⟨name, rfl⟩ := hlabel
      simp only [cutFrom, Op.unstyled, Step.unstyled, Procedure.declares_unstyled]
      split
      · rw [ih]
        rfl
      · rw [hopen]
        cases current <;> rfl
    · rw [not_exists] at hlabel
      cases current with
      | none =>
        have hunstyled : ∀ name, (Op.unstyled ⟨step, loc⟩).step ≠ .label name := by
          intro name
          cases step <;> simp_all [Op.unstyled, Step.unstyled]
        rw [Option.map_none, cutFrom_none_cons _ _ hunstyled, cutFrom_none_cons _ _ hlabel, hnone,
          Op.describe_unstyled]
        rfl
      | some f =>
        cases step with
        | label name => exact absurd rfl (hlabel name)
        | act action =>
          simp only [cutFrom, Op.unstyled, Step.unstyled, Option.map_some]
          rw [← Filling.unstyled_snoc]
          exact ih (some _)
        | jump target =>
          simp only [cutFrom, Op.unstyled, Step.unstyled, Option.map_some, resolve_unstyled]
          split <;> (rw [hnone]; rfl)
        | call target =>
          simp only [cutFrom, Op.unstyled, Step.unstyled, Option.map_some]
          split
          · rw [hopen]
            rfl
          · exact congrArg (Outcome.report _) (ih (some f))
        | branch arms =>
          simp only [cutFrom, Op.unstyled, Step.unstyled, Option.map_some, resolveArms_unstyled]
          rw [hnone]
          rfl
        | ret =>
          simp only [cutFrom, Op.unstyled, Step.unstyled, Option.map_some]
          rw [hnone]
          rfl

theorem cut_unstyled : cut table p.unstyled = (cut table p).unstyled :=
  cutFrom_unstyled table p p.ops (some ⟨none, []⟩)

end Flow

/-! ### Graphs -/

namespace FlowGraph

theorem blockOf_unstyled (parts : List Part) (label : String) :
    blockOf (parts.map Part.unstyled) label = blockOf parts label := by
  unfold blockOf
  rw [List.findIdx?_map]
  rfl

theorem terminatorOf_unstyled (parts : List Part) (exit : Exit) :
    terminatorOf (parts.map Part.unstyled) exit = terminatorOf parts exit := by
  have htarget : ∀ goal, targetOf (parts.map Part.unstyled) goal = targetOf parts goal := by
    intro goal
    cases goal with
    | label name => exact congrArg Target.block (blockOf_unstyled parts name)
    | function id => rfl
  unfold terminatorOf
  split
  · rw [blockOf_unstyled]
  · rfl
  · rfl
  · simp only [htarget]
  · rfl

theorem ofParts_unstyled (p : Procedure) (parts : List Part) :
    ofParts p.unstyled (parts.map Part.unstyled) = (ofParts p parts).unstyled := by
  unfold ofParts unstyled
  simp only [List.map_map, Function.comp_def, terminatorOf_unstyled]
  rfl

variable (f : FlowGraph)

theorem isLabelled_unstyled (b : BlockId) : f.unstyled.isLabelled b = f.isLabelled b := by
  unfold isLabelled unstyled
  rw [List.getElem?_map]
  cases f.blocks[b]? <;> rfl

theorem terminatorProblems_unstyled (i : BlockId) (t : Terminator) :
    f.unstyled.terminatorProblems i t = f.terminatorProblems i t := by
  have htargets : ∀ targets, f.unstyled.targetProblems i targets = f.targetProblems i targets := by
    intro targets
    simp only [targetProblems, isLabelled_unstyled]
  cases t with
  | jump b => exact htargets [b]
  | branch arms => exact congrArg (_ ++ ·) (htargets _)
  | call id => simp [terminatorProblems, unstyled]
  | jumpFunction id => rfl
  | ret => rfl

theorem labelProblems_unstyled (i : BlockId) (b : BasicBlock) :
    f.unstyled.labelProblems i b.unstyled = f.labelProblems i b := by
  unfold labelProblems unstyled
  simp only [← List.map_take, List.any_map]
  rfl

/-- **A graph has the same problems without its styles.** -/
theorem validate_unstyled : f.unstyled.validate = f.validate := by
  have hzip : f.unstyled.blocks.zipIdx = f.blocks.zipIdx.map (Prod.map BasicBlock.unstyled id) :=
    List.zipIdx_map ..
  have hproblems : f.unstyled.problems = f.problems := by
    have hempty : f.unstyled.blocks.isEmpty = f.blocks.isEmpty := List.isEmpty_map ..
    unfold problems
    rw [hempty, hzip, List.flatMap_map]
    refine congrArg (_ ++ f.blocks.zipIdx.flatMap ·) (funext fun e => ?_)
    show f.unstyled.labelProblems e.2 e.1.unstyled ++
      f.unstyled.terminatorProblems e.2 e.1.terminator = _
    rw [labelProblems_unstyled, terminatorProblems_unstyled]
  unfold validate
  rw [hproblems]
  rfl

theorem ofProcedure_unstyled (table : SymbolTable) (p : Procedure) :
    ofProcedure table p.unstyled =
      ((ofProcedure table p).1.unstyled, (ofProcedure table p).2) := by
  unfold ofProcedure
  dsimp only
  rw [Flow.cut_unstyled, Flow.Outcome.unstyled, ofParts_unstyled, validate_unstyled]

/-- **The graphs are built in the same way without styles**, with the same reports. -/
theorem build_unstyled (all : List Procedure) : build (all.map Procedure.unstyled) =
    ((build all).1.map unstyled, (build all).2) := by
  unfold build
  simp only [List.map_map, List.flatMap_map, Function.comp_def, SymbolTable.of_unstyled,
    ofProcedure_unstyled]

end FlowGraph
end Manuscript
