/-
# Every step has one fate

Cutting a stream loses nothing without a word. Of each step it can be told from the
stream and the table of names what becomes of it. A label opens a block, unless it is declared again
later. A step behind a transfer of control is dropped until the last declaration of a
label is met. Of the steps that are left, a call of an unknown function goes, other
transfers end a block, and actions stand in a block. Whatever goes is reported.

To say where a step went, the blocks are laid out again as a sequence of events: a
block is opened, has its instructions, and is closed (`BasicBlock.events`). The events
of all blocks, one block behind the other, are the events of all steps, one step behind
the other, each by its fate, and the same holds of the reports. So a step that ends a
block ends one, and what stands in the blocks are the actions that were kept, in order.

Whether control gets to a step is what the cutting keeps track of with the part that is
open. Along the stream this is carried by `Flow.reachedAt_succ`.

Key definitions: `Flow.Unreachable`, `Flow.fateAt`, `BlockEvent`, `Flow.Fate.events`,
`FlowGraph.Accounted`.
Key theorems: `Flow.reachedAt_succ`, `Flow.events_closeAt`, `Flow.accounts_cutFrom`,
`FlowGraph.ofProcedure_accounted`.
-/
import Manuscript.Proofs.Flow.WellFormed

namespace Manuscript

/-- Control never goes on behind the step. -/
def Step.leaves : Step → Bool
  | .jump _ | .branch _ | .ret => true
  | .act _ | .label _ | .call _ => false

namespace Flow

open Procedure (declares)

variable {table : SymbolTable} {p : Procedure}

/-! ### Where control gets -/

/-- The step at a position is a jump, a branch or a return. -/
def leavesAt (ops : List Op) (i : Nat) : Bool :=
  match ops[i]? with
  | some op => op.step.leaves
  | none => false

/-- The step at a position is the last declaration of a label. -/
def opensAt (ops : List Op) (i : Nat) : Bool :=
  match ops[i]? with
  | some ⟨.label name, _⟩ => !declares name (ops.drop (i + 1))
  | _ => false

/-- Control does not get to a position: a jump, a branch or a return stands before it, with no last
declaration of a label in between. -/
def Unreachable (ops : List Op) (i : Nat) : Prop :=
  ∃ j < i, leavesAt ops j = true ∧ ∀ k < i, j < k → opensAt ops k = false

instance (ops : List Op) (i : Nat) : Decidable (Unreachable ops i) :=
  inferInstanceAs (Decidable
    (∃ j, j < i ∧ leavesAt ops j = true ∧ ∀ k < i, j < k → opensAt ops k = false))

theorem unreachable_succ {ops : List Op} {i : Nat} : Unreachable ops (i + 1) ↔
    leavesAt ops i = true ∨ Unreachable ops i ∧ opensAt ops i = false := by
  constructor
  · rintro ⟨j, hj, hleaves, hbetween⟩
    rcases Nat.lt_succ_iff_lt_or_eq.1 hj with hj | rfl
    · exact .inr ⟨⟨j, hj, hleaves, fun k hk => hbetween k (by omega)⟩, hbetween i (by omega) hj⟩
    · exact .inl hleaves
  · rintro (hleaves | ⟨⟨j, hj, hleaves, hbetween⟩, hopens⟩)
    · exact ⟨i, by omega, hleaves, fun k hk hik => by omega⟩
    · refine ⟨j, by omega, hleaves, fun k hk hjk => ?_⟩
      rcases Nat.lt_succ_iff_lt_or_eq.1 hk with hk | rfl
      · exact hbetween k hk hjk
      · exact hopens

/-- Control gets to a position. -/
def reachedAt (ops : List Op) (i : Nat) : Bool := !decide (Unreachable ops i)

theorem reachedAt_zero (ops : List Op) : reachedAt ops 0 = true := by
  simp [reachedAt, Unreachable]

/-- Control gets behind a step that does not leave, if it gets to the step or the step opens a
block. -/
theorem reachedAt_succ (ops : List Op) (i : Nat) :
    reachedAt ops (i + 1) = (!leavesAt ops i && (reachedAt ops i || opensAt ops i)) := by
  rw [Bool.eq_iff_iff]
  simp only [reachedAt, Bool.not_eq_true', decide_eq_false_iff_not, unreachable_succ,
    Bool.and_eq_true, Bool.or_eq_true]
  cases leavesAt ops i <;> cases opensAt ops i <;> simp

/-- A part is open behind a step just if control gets there. -/
theorem isSome_refill_eq (table : SymbolTable) {op : Op} {rest : List Op} {i : Nat}
    {current : Option Filling} (hop : p.ops[i]? = some op) (hrest : p.ops.drop (i + 1) = rest)
    (hcurrent : current.isSome = reachedAt p.ops i) :
    (refill table op rest current).isSome = reachedAt p.ops (i + 1) := by
  rw [reachedAt_succ, ← hcurrent]
  rcases op with ⟨step, loc⟩
  cases step with
  | label name =>
    cases h : declares name rest <;>
      simp [refill, leavesAt, opensAt, hop, hrest, h, Step.leaves]
  | call target =>
    cases h : table.function? target <;> simp [refill, leavesAt, opensAt, hop, h, Step.leaves]
  | act a => simp [refill, leavesAt, opensAt, hop, Step.leaves]
  | jump target => simp [refill, leavesAt, hop, Step.leaves]
  | branch arms => simp [refill, leavesAt, hop, Step.leaves]
  | ret => simp [refill, leavesAt, hop, Step.leaves]

/-- What becomes of the step at a position of a function. -/
def fateAt (table : SymbolTable) (p : Procedure) (i : Nat) (op : Op) : Fate :=
  fateOf table p op (p.ops.drop (i + 1)) (reachedAt p.ops i)

/-- **A step is dropped just if it is no label and control does not get to it.** -/
theorem fateAt_eq_dropped_iff {i : Nat} {op : Op} : fateAt table p i op = .dropped ↔
    (∀ name, op.step ≠ .label name) ∧ Unreachable p.ops i := by
  have hreached : reachedAt p.ops i = false ↔ Unreachable p.ops i := by simp [reachedAt]
  rw [← hreached, fateAt]
  rcases op with ⟨step, loc⟩
  cases step with
  | label name =>
    cases h : declares name (p.ops.drop (i + 1)) <;> simp [fateOf, h]
  | call target =>
    cases h : table.function? target <;> cases reachedAt p.ops i <;> simp [fateOf, h]
  | act _ | jump _ | branch _ | ret => cases reachedAt p.ops i <;> simp [fateOf]

end Flow

/-! ### Blocks as events -/

/-- What happens when blocks are laid out one behind the other. -/
inductive BlockEvent where
  | opened (label : Option String)
  | inst (inst : Inst)
  | closed (terminator : Terminator)
deriving Repr, DecidableEq

/-- A block is opened, has its instructions, and is closed. -/
def BasicBlock.events (b : BasicBlock) : List BlockEvent :=
  .opened b.label :: (b.insts.map .inst ++ [.closed b.terminator])

/-- The instruction of an event. -/
def BlockEvent.inst? : BlockEvent → Option Inst
  | inst i => some i
  | opened _ | closed _ => none

theorem BasicBlock.filterMap_inst?_events (b : BasicBlock) :
    b.events.filterMap BlockEvent.inst? = b.insts := by
  have hinsts : (b.insts.map .inst).filterMap BlockEvent.inst? = b.insts := by
    rw [List.filterMap_map]
    exact List.filterMap_some
  rw [events, List.filterMap_cons_none rfl, List.filterMap_append, hinsts]
  exact List.append_nil _

namespace Flow

open Procedure (declares)

variable {table : SymbolTable} {p : Procedure}

/-- The events that a step brings about by its fate. Where control gets to a label, the block before
it goes on with the block of the label. Behind a call the next block is opened. -/
def Fate.events (parts : List Part) (reached : Bool) : Fate → List BlockEvent
  | .kept i => [.inst i]
  | .opens name =>
    (if reached then [.closed (.jump (FlowGraph.blockOf parts name))] else [])
      ++ [.opened (some name)]
  | .ends (.call id) => [.closed (.call id), .opened none]
  | .ends exit => [.closed (FlowGraph.terminatorOf parts exit)]
  | .shadowed _ | .unknown _ | .dropped => []

/-- The instruction that a step leaves in a block. -/
def Fate.inst? : Fate → Option Inst
  | .kept i => some i
  | _ => none

theorem Fate.filterMap_inst?_events (parts : List Part) (reached : Bool) (fate : Fate) :
    (fate.events parts reached).filterMap BlockEvent.inst? = fate.inst?.toList := by
  cases fate with
  | ends exit => cases exit <;> rfl
  | opens name => cases reached <;> rfl
  | _ => rfl

/-- The events that the step at a position brings about. -/
def eventsAt (table : SymbolTable) (p : Procedure) (i : Nat) (op : Op) : List BlockEvent :=
  (fateAt table p i op).events (cut table p).parts (reachedAt p.ops i)

/-- The block that a part becomes. -/
def blockOfPart (parts : List Part) (q : Part) : BasicBlock :=
  ⟨q.label, q.insts, FlowGraph.terminatorOf parts q.exit⟩

/-- The events of the part that is open. -/
def openEvents : Option Filling → List BlockEvent
  | none => []
  | some f => .opened f.label :: f.insts.map .inst

/-- **A step moves on by its events**: those of the part that was open, and then those of the step,
are those of the part that it closes, and then those of the part that is open behind it. -/
theorem events_closeAt (parts : List Part) (op : Op) (rest : List Op) (current : Option Filling) :
    (closeAt table p op rest current).toList.flatMap (fun q => (blockOfPart parts q).events) ++
        openEvents (refill table op rest current) =
      openEvents current ++
        (fateOf table p op rest current.isSome).events parts current.isSome := by
  rcases op with ⟨step, loc⟩
  cases step with
  | label name =>
    by_cases h : declares name rest <;> cases current <;>
      simp [closeAt, exitAt, refill, fateOf, Fate.events, openEvents, blockOfPart, Filling.close,
        BasicBlock.events, FlowGraph.terminatorOf, h]
  | act a =>
    cases current <;> simp [closeAt, exitAt, refill, fateOf, Fate.events, openEvents]
  | ret =>
    cases current <;> simp [closeAt, exitAt, refill, fateOf, Fate.events, openEvents, blockOfPart,
      Filling.close, BasicBlock.events]
  | jump target =>
    cases current with
    | none => simp [closeAt, refill, fateOf, Fate.events, openEvents]
    | some f =>
      cases h : goal? table p target <;>
        simp [closeAt, exitAt, refill, fateOf, Fate.events, openEvents, blockOfPart, Filling.close,
          BasicBlock.events, jumpExit, h]
  | call target =>
    cases current with
    | none => simp [closeAt, refill, fateOf, Fate.events, openEvents]
    | some f =>
      cases h : table.function? target <;>
        simp [closeAt, exitAt, refill, fateOf, Fate.events, openEvents, blockOfPart, Filling.close,
          BasicBlock.events, FlowGraph.terminatorOf, h]
  | branch arms =>
    cases current with
    | none => simp [closeAt, refill, fateOf, Fate.events, openEvents]
    | some f =>
      cases h : arms.filterMap fun a => (goal? table p a.2).map (a.1, ·) <;>
        simp [closeAt, exitAt, refill, fateOf, Fate.events, openEvents, blockOfPart, Filling.close,
          BasicBlock.events, branchExit, h]

/-- The last block is closed at the end of a stream, if control gets there. -/
def endEvents (p : Procedure) : List BlockEvent :=
  if Unreachable p.ops p.ops.length then [] else [.closed .ret]

theorem filterMap_inst?_endEvents (p : Procedure) :
    (endEvents p).filterMap BlockEvent.inst? = [] := by
  unfold endEvents
  split <;> rfl

/-- **A stream is cut by the fates of its steps.** From any position on, the events of the parts are
those of the part that is open, of the steps that remain and of the end, and the reports are those
of the steps that remain. -/
theorem accounts_cutFrom : ∀ (rest before : List Op) (current : Option Filling),
    p.ops = before ++ rest → current.isSome = reachedAt p.ops before.length →
      (cutFrom table p current rest).parts.flatMap
          (fun q => (blockOfPart (cut table p).parts q).events) =
        openEvents current ++
          ((rest.zipIdx before.length).flatMap fun e => eventsAt table p e.2 e.1) ++ endEvents p ∧
      (cutFrom table p current rest).diags =
        (rest.zipIdx before.length).flatMap fun e => (fateAt table p e.2 e.1).reports table p e.1
  | [], before, current, hops, hcurrent => by
    rw [List.append_nil] at hops
    rw [diags_cutFrom_nil, parts_cutFrom_nil, endEvents, hops]
    rw [hops, reachedAt] at hcurrent
    by_cases hreach : Unreachable before before.length
    · cases current with
      | none => simp [hreach, openEvents]
      | some f => simp [hreach] at hcurrent
    · cases current with
      | none => simp [hreach] at hcurrent
      | some f =>
        simp [hreach, openEvents, blockOfPart, Filling.close, BasicBlock.events,
          FlowGraph.terminatorOf]
  | op :: rest, before, current, hops, hcurrent => by
    have hop : p.ops[before.length]? = some op := by simp [hops]
    have hrest : p.ops.drop (before.length + 1) = rest := by simp [hops]
    have hfate : fateOf table p op rest current.isSome = fateAt table p before.length op := by
      rw [fateAt, hrest, hcurrent]
    have hnext := isSome_refill_eq table hop hrest hcurrent
    have hlength : (before ++ [op]).length = before.length + 1 := by simp
    obtain ⟨hevents, hdiags⟩ := accounts_cutFrom rest (before ++ [op])
      (refill table op rest current) (by simp [hops]) (by rw [hlength, hnext])
    rw [hlength] at hevents hdiags
    rw [parts_cutFrom_cons, diags_cutFrom_cons, List.zipIdx_cons, List.flatMap_cons,
      List.flatMap_cons, List.flatMap_append, hevents, hdiags, hfate]
    refine ⟨?_, rfl⟩
    rw [← List.append_assoc, ← List.append_assoc, events_closeAt, hfate, eventsAt, hcurrent]
    simp only [List.append_assoc]

end Flow

/-! ### Whole functions -/

namespace FlowGraph

/-- The graph and the reports account for every step of the function, by its fate.

* A step is dropped just if it is no label and control does not get to it.
* The events of the blocks, one behind the other, are those of the steps, one behind the other,
  between the opening of the first block and the end of the stream. So a label opens one block
  unless it is declared again, and each other step that control gets to ends one block or stands in
  one; only a call of an unknown function does neither.
* The instructions of the blocks are the actions that were kept.
* The reports are those of the steps, in order: one for each step that is dropped, for each label
  that is declared again and for each call of an unknown function; and for a step that ends a
  block one for each of its targets that leads nowhere. -/
structure Accounted (table : SymbolTable) (p : Procedure) (f : FlowGraph)
    (diags : List Diagnostic) : Prop where
  dropped : ∀ i op, p.ops[i]? = some op → (Flow.fateAt table p i op = .dropped ↔
    (∀ name, op.step ≠ .label name) ∧ Flow.Unreachable p.ops i)
  events : f.blocks.flatMap (·.events) = .opened none ::
    ((p.ops.zipIdx.flatMap fun e => Flow.eventsAt table p e.2 e.1) ++ Flow.endEvents p)
  insts : f.blocks.flatMap (·.insts) =
    p.ops.zipIdx.filterMap fun e => (Flow.fateAt table p e.2 e.1).inst?
  reports : diags = p.ops.zipIdx.flatMap fun e => (Flow.fateAt table p e.2 e.1).reports table p e.1

/-- **Every step has one fate.** Whatever names stand for, the graph of a function and its reports
account for every step. -/
theorem ofProcedure_accounted (table : SymbolTable) (p : Procedure) :
    Accounted table p (ofProcedure table p).1 (ofProcedure table p).2 := by
  obtain ⟨hevents, hdiags⟩ := @Flow.accounts_cutFrom table p p.ops [] (some ⟨none, []⟩) rfl
    (Flow.reachedAt_zero p.ops).symm
  have hblocks : (ofProcedure table p).1.blocks.flatMap (·.events) = .opened none ::
      ((p.ops.zipIdx.flatMap fun e => Flow.eventsAt table p e.2 e.1) ++ Flow.endEvents p) := by
    rw [ofProcedure, ofParts, List.flatMap_map]
    exact hevents
  refine ⟨fun i op _ => Flow.fateAt_eq_dropped_iff, hblocks, ?_, ?_⟩
  · have hinsts := congrArg (List.filterMap BlockEvent.inst?) hblocks
    rw [List.filterMap_cons_none rfl, List.filterMap_append, List.filterMap_flatMap,
      List.filterMap_flatMap] at hinsts
    simp only [BasicBlock.filterMap_inst?_events, Flow.eventsAt, Flow.Fate.filterMap_inst?_events,
      Flow.filterMap_inst?_endEvents, List.append_nil] at hinsts
    rw [hinsts, List.filterMap_eq_flatMap_toList]
  · rw [ofProcedure, (wellFormed_cut table p).validate_eq_nil, List.append_nil]
    exact hdiags

end FlowGraph
end Manuscript
