/-
# How a stream is cut

What one step does to the cutting is said once: it may close the part that is
open (`Flow.exitAt`), and it decides what is filled next (`Flow.refill`). The
parts of a stream are then the part closed by its first step, if there is one,
and the parts of the rest (`Flow.parts_cutFrom_cons`); everything else about the
parts follows by going along the stream. The reports are likewise those of the first
step, which depend on what becomes of it (`Flow.fateOf`), and those of the rest
(`Flow.diags_cutFrom_cons`).

The labels of the parts are the labels of the stream, each once, in the order of
their last declarations (`Flow.filterMap_label_parts`).

Key definitions: `Flow.goal?`, `Flow.exitAt`, `Flow.refill`, `Flow.Fate`, `Flow.fateOf`,
`Flow.lastLabels`.
Key theorems: `Flow.parts_cutFrom_cons`, `Flow.parts_cutFrom_some`,
`Flow.diags_cutFrom_cons`, `Flow.filterMap_label_parts`, `FlowGraph.blockOf_of_eq_append`.
-/
import Mathlib.Tactic.Common
import Manuscript.Flow.Graph

namespace Manuscript

namespace Procedure

theorem declares_iff {name : String} {ops : List Op} :
    declares name ops = true ↔ ∃ op ∈ ops, op.step = .label name := by
  simp [declares]

theorem declares_cons (name : String) (op : Op) (rest : List Op) :
    declares name (op :: rest) = (op.step == .label name || declares name rest) := by
  simp [declares]

end Procedure

namespace Flow

open Procedure (declares)

variable {table : SymbolTable} {p : Procedure}

/-! ### Targets -/

/-- What a name leads to: a label of the function, or else a function. -/
def goal? (table : SymbolTable) (p : Procedure) (target : String) : Option Goal :=
  if declares target p.ops then some (.label target) else (table.function? target).map .function

theorem resolve_eq (target : String) (loc : Loc) : resolve table p target loc =
    match goal? table p target with
    | some goal => .ok goal
    | none => .error (unresolved table p target loc) := by
  unfold resolve goal?
  split
  · rfl
  · cases table.function? target <;> rfl

theorem resolveArms_fst (loc : Loc) : ∀ arms : List (String × String),
    (resolveArms table p loc arms).1 =
      arms.filterMap fun a => (goal? table p a.2).map (a.1, ·)
  | [] => rfl
  | (text, target) :: rest => by
    have ih := resolveArms_fst loc rest
    rw [resolveArms, resolve_eq]
    cases h : goal? table p target <;> simp [h, ih]

/-! ### One step -/

@[simp] theorem Outcome.parts_part (q : Part) (o : Outcome) : (o.part q).parts = q :: o.parts := rfl

@[simp] theorem Outcome.parts_report (ds : List Diagnostic) (o : Outcome) :
    (o.report ds).parts = o.parts := rfl

/-- How a jump to a goal ends a part; without a goal it returns. -/
def jumpExit : Option Goal → Exit
  | some goal => .jump goal
  | none => .ret

/-- How a step ends the part that is open; none if the part goes on. -/
def exitAt (table : SymbolTable) (p : Procedure) (op : Op) (rest : List Op) : Option Exit :=
  match op.step with
  | .act _ => none
  | .label name => if declares name rest then none else some (.jump (.label name))
  | .jump target => some (jumpExit (goal? table p target))
  | .call target => (table.function? target).map .call
  | .branch arms => some (branchExit (arms.filterMap fun a => (goal? table p a.2).map (a.1, ·)))
  | .ret => some .ret

/-- What is filled after a step. -/
def refill (table : SymbolTable) (op : Op) (rest : List Op) (current : Option Filling) :
    Option Filling :=
  match op.step with
  | .act a => current.map fun f => { f with insts := f.insts ++ [⟨a, op.loc⟩] }
  | .label name => if declares name rest then current else some ⟨some name, []⟩
  | .call target =>
    if (table.function? target).isSome then current.map fun _ => ⟨none, []⟩ else current
  | .jump _ | .branch _ | .ret => none

/-- The part that a step closes. -/
def closeAt (table : SymbolTable) (p : Procedure) (op : Op) (rest : List Op)
    (current : Option Filling) : Option Part :=
  current.bind fun f => (exitAt table p op rest).map f.close

theorem parts_cutFrom_nil (current : Option Filling) :
    (cutFrom table p current []).parts = (current.map (·.close .ret)).toList := by
  cases current <;> simp [cutFrom]

/-- The parts of a stream: the one that its first step closes, and those of the rest. -/
theorem parts_cutFrom_cons (current : Option Filling) (op : Op) (rest : List Op) :
    (cutFrom table p current (op :: rest)).parts =
      (closeAt table p op rest current).toList ++
        (cutFrom table p (refill table op rest current) rest).parts := by
  rcases op with ⟨step, loc⟩
  cases step with
  | label name =>
    by_cases h : declares name rest <;> cases current <;>
      simp [cutFrom, closeAt, exitAt, refill, h]
  | act a => cases current <;> simp [cutFrom, closeAt, exitAt, refill]
  | ret => cases current <;> simp [cutFrom, closeAt, exitAt, refill]
  | jump target =>
    cases current with
    | none => simp [cutFrom, closeAt, refill]
    | some f =>
      cases h : goal? table p target <;>
        simp [cutFrom, closeAt, exitAt, refill, resolve_eq, h, jumpExit]
  | call target =>
    cases current with
    | none => simp [cutFrom, closeAt, refill]
    | some f => cases h : table.function? target <;> simp [cutFrom, closeAt, exitAt, refill, h]
  | branch arms =>
    cases current with
    | none => simp [cutFrom, closeAt, refill]
    | some f => simp [cutFrom, closeAt, exitAt, refill, resolveArms_fst]

/-- A part that is open is closed in the end, with its label and what was filled before. -/
theorem parts_cutFrom_some : ∀ (ops : List Op) (f : Filling),
    ∃ more exit tail, (cutFrom table p (some f) ops).parts =
      ⟨f.label, f.insts ++ more, exit⟩ :: tail
  | [], f => ⟨[], .ret, [], by simp [parts_cutFrom_nil, Filling.close]⟩
  | op :: rest, f => by
    cases he : exitAt table p op rest with
    | some exit =>
      refine ⟨[], exit, (cutFrom table p (refill table op rest (some f)) rest).parts, ?_⟩
      simp [parts_cutFrom_cons, closeAt, he, Filling.close]
    | none =>
      -- the step goes on with the same part, longer by at most one instruction
      obtain ⟨g, hg, hlabel, hinsts⟩ : ∃ g, refill table op rest (some f) = some g ∧
          g.label = f.label ∧ ∃ is, g.insts = f.insts ++ is := by
        unfold exitAt at he
        unfold refill
        split at he <;> simp_all
      obtain ⟨is, his⟩ := hinsts
      obtain ⟨more, exit, tail, htail⟩ := parts_cutFrom_some rest g
      refine ⟨is ++ more, exit, tail, ?_⟩
      simp [parts_cutFrom_cons, closeAt, he, hg, htail, hlabel, his]

/-! ### What becomes of a step -/

/-- What becomes of a step when its stream is cut. -/
inductive Fate where
  /-- An action stands in a part. -/
  | kept (inst : Inst)
  /-- A label opens a part. -/
  | opens (label : String)
  /-- A transfer of control ends a part. -/
  | ends (exit : Exit)
  /-- A label does not count, as it is declared again later. -/
  | shadowed (label : String)
  /-- A call finds no function. -/
  | unknown (target : String)
  /-- Control never gets to the step. -/
  | dropped
deriving Repr, DecidableEq

/-- What becomes of a step that control gets to or not, with `rest` behind it. -/
def fateOf (table : SymbolTable) (p : Procedure) (op : Op) (rest : List Op) (reached : Bool) :
    Fate :=
  match op.step with
  | .label name => if declares name rest then .shadowed name else .opens name
  | .act a => if reached then .kept ⟨a, op.loc⟩ else .dropped
  | .jump target => if reached then .ends (jumpExit (goal? table p target)) else .dropped
  | .call target =>
    if reached then
      match table.function? target with
      | some id => .ends (.call id)
      | none => .unknown target
    else .dropped
  | .branch arms =>
    if reached then .ends (branchExit (arms.filterMap fun a => (goal? table p a.2).map (a.1, ·)))
    else .dropped
  | .ret => if reached then .ends .ret else .dropped

/-- The names that a transfer looks for among the labels and the functions. -/
def targetsOf : Step → List String
  | .jump target => [target]
  | .branch arms => arms.map (·.2)
  | _ => []

/-- What is reported of a step by its fate. -/
def Fate.reports (table : SymbolTable) (p : Procedure) (op : Op) : Fate → List Diagnostic
  | .kept _ | .opens _ => []
  | .ends _ => ((targetsOf op.step).filter fun target => (goal? table p target).isNone).map
    fun target => unresolved table p target op.loc
  | .shadowed name => [.make .labelDuplicate [("name", name), ("function", p.name)] (some op.loc)]
  | .unknown target => [.make .functionNotFound [("name", target)] (some op.loc)]
  | .dropped => [.make .unhandledNode [("node", op.describe)] (some op.loc)]

@[simp] theorem Outcome.diags_part (q : Part) (o : Outcome) : (o.part q).diags = o.diags := rfl

@[simp] theorem Outcome.diags_report (ds : List Diagnostic) (o : Outcome) :
    (o.report ds).diags = ds ++ o.diags := rfl

theorem resolveArms_snd (loc : Loc) : ∀ arms : List (String × String),
    (resolveArms table p loc arms).2 =
      ((arms.map (·.2)).filter fun target => (goal? table p target).isNone).map
        fun target => unresolved table p target loc
  | [] => rfl
  | (text, target) :: rest => by
    have ih := resolveArms_snd loc rest
    rw [resolveArms, resolve_eq]
    cases h : goal? table p target <;> simp [h, ih]

theorem diags_cutFrom_nil (current : Option Filling) : (cutFrom table p current []).diags = [] := by
  cases current <;> rfl

/-- The reports on a stream: those of its first step by its fate, and those of the rest. -/
theorem diags_cutFrom_cons (current : Option Filling) (op : Op) (rest : List Op) :
    (cutFrom table p current (op :: rest)).diags =
      (fateOf table p op rest current.isSome).reports table p op ++
        (cutFrom table p (refill table op rest current) rest).diags := by
  rcases op with ⟨step, loc⟩
  cases step with
  | label name =>
    by_cases h : declares name rest <;> cases current <;>
      simp [cutFrom, fateOf, Fate.reports, refill, h]
  | act a => cases current <;> simp [cutFrom, fateOf, Fate.reports, refill]
  | ret => cases current <;> simp [cutFrom, fateOf, Fate.reports, refill, targetsOf]
  | jump target =>
    cases current with
    | none => simp [cutFrom, fateOf, Fate.reports, refill]
    | some f =>
      cases h : goal? table p target <;>
        simp [cutFrom, fateOf, Fate.reports, refill, targetsOf, resolve_eq, h]
  | call target =>
    cases current with
    | none => simp [cutFrom, fateOf, Fate.reports, refill]
    | some f =>
      cases h : table.function? target <;>
        simp [cutFrom, fateOf, Fate.reports, refill, targetsOf, h]
  | branch arms =>
    cases current with
    | none => simp [cutFrom, fateOf, Fate.reports, refill]
    | some f => simp [cutFrom, fateOf, Fate.reports, refill, targetsOf, resolveArms_snd]

/-! ### Labels -/

/-- The labels of a stream, each at its last declaration. -/
def lastLabels : List Op → List String
  | [] => []
  | op :: rest =>
    match op.step with
    | .label name => if declares name rest then lastLabels rest else name :: lastLabels rest
    | _ => lastLabels rest

theorem mem_lastLabels {name : String} : ∀ {ops : List Op},
    name ∈ lastLabels ops ↔ declares name ops = true
  | [] => by simp [lastLabels, declares]
  | ⟨step, loc⟩ :: rest => by
    have ih := @mem_lastLabels name rest
    rw [Procedure.declares_cons]
    cases step with
    | label other =>
      by_cases hdup : declares other rest
      · by_cases heq : other = name
        · subst heq
          simp [lastLabels, hdup, ih]
        · simp [lastLabels, hdup, ih, heq]
      · have heq : name = other ↔ other = name := eq_comm
        simp [lastLabels, hdup, ih, heq]
    | act a => simpa [lastLabels] using ih
    | jump target => simpa [lastLabels] using ih
    | call target => simpa [lastLabels] using ih
    | branch arms => simpa [lastLabels] using ih
    | ret => simpa [lastLabels] using ih

theorem nodup_lastLabels : ∀ ops : List Op, (lastLabels ops).Nodup
  | [] => List.nodup_nil
  | op :: rest => by
    have ih := nodup_lastLabels rest
    unfold lastLabels
    split
    · split
      · exact ih
      · rename_i h
        exact List.nodup_cons.2 ⟨fun hmem => h (mem_lastLabels.1 hmem), ih⟩
    · exact ih

theorem filterMap_label_close (f : Filling) (exit : Exit) :
    [f.close exit].filterMap (·.label) = f.label.toList := by
  cases h : f.label <;> simp [Filling.close, h]

/-- The labels of the parts: that of the open part, and those of the stream. -/
theorem filterMap_label_parts : ∀ (ops : List Op) (current : Option Filling),
    (cutFrom table p current ops).parts.filterMap (·.label) =
      (current.bind (·.label)).toList ++ lastLabels ops
  | [], current => by
    cases current <;> simp [parts_cutFrom_nil, lastLabels, filterMap_label_close]
  | op :: rest, current => by
    rw [parts_cutFrom_cons, List.filterMap_append, filterMap_label_parts rest]
    rcases op with ⟨step, loc⟩
    cases step with
    | label name =>
      by_cases h : declares name rest <;> cases current <;>
        simp [closeAt, exitAt, refill, lastLabels, h, filterMap_label_close]
    | act a => cases current <;> simp [closeAt, exitAt, refill, lastLabels]
    | call target =>
      cases current <;> cases h : table.function? target <;>
        simp [closeAt, exitAt, refill, lastLabels, h, filterMap_label_close]
    | jump target =>
      cases current <;> simp [closeAt, exitAt, refill, lastLabels, filterMap_label_close]
    | branch arms =>
      cases current <;> simp [closeAt, exitAt, refill, lastLabels, filterMap_label_close]
    | ret => cases current <;> simp [closeAt, exitAt, refill, lastLabels, filterMap_label_close]

/-- The labels of the parts of a function are the labels of its stream. -/
theorem filterMap_label_cut : (cut table p).parts.filterMap (·.label) = lastLabels p.ops := by
  simp [cut, filterMap_label_parts]

end Flow

/-! ### Blocks by label -/

namespace FlowGraph

theorem mem_labels {parts : List Part} {name : String} :
    name ∈ parts.filterMap (·.label) ↔ ∃ q ∈ parts, q.label = some name :=
  List.mem_filterMap

/-- A label that a part carries leads to a part that carries it. -/
theorem getElem?_blockOf {parts : List Part} {name : String}
    (h : name ∈ parts.filterMap (·.label)) :
    ∃ q, parts[blockOf parts name]? = some q ∧ q.label = some name := by
  obtain ⟨q, hq, hlabel⟩ := mem_labels.1 h
  cases hidx : parts.findIdx? (·.label == some name) with
  | none =>
    have := List.findIdx?_eq_none_iff.1 hidx q hq
    simp [hlabel] at this
  | some i =>
    obtain ⟨hi, hp, -⟩ := List.findIdx?_eq_some_iff_getElem.1 hidx
    rw [blockOf, hidx, Option.getD_some]
    exact ⟨parts[i], List.getElem?_eq_getElem hi, by simpa using hp⟩

/-- Where labels stand once, a label leads to the part that carries it. -/
theorem blockOf_of_eq_append {parts done tail : List Part} {q : Part} {name : String}
    (hparts : parts = done ++ q :: tail) (hlabel : q.label = some name)
    (hnd : (parts.filterMap (·.label)).Nodup) : blockOf parts name = done.length := by
  have hdone : done.findIdx? (·.label == some name) = none := by
    rw [List.findIdx?_eq_none_iff]
    intro d hd
    simp only [beq_eq_false_iff_ne]
    intro hdl
    rw [hparts, List.filterMap_append, List.nodup_append] at hnd
    exact hnd.2.2 name (mem_labels.2 ⟨d, hd, hdl⟩) name
      (mem_labels.2 ⟨q, List.mem_cons_self, hlabel⟩) rfl
  simp [blockOf, hparts, List.findIdx?_append, hdone, List.findIdx?_cons, hlabel]

end FlowGraph
end Manuscript
