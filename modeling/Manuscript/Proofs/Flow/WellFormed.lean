/-
# Well-formed graphs

The graph of every function is well formed, whatever its steps are, with labels
declared twice and functions of one name among them. It has a first block, which
no label names and no block leads to. Its labels are those of the function, each
on one block. Each block ends as the step says at which it was closed: at the
block that carries the label named there, or at the function that the table of names
has for it; building takes the first function of each name (`SymbolTable.Lists`).

The steps that close blocks are listed by `Flow.closers`, which knows nothing of
blocks, and `FlowGraph.Ends` says how a block ends at each of them. A graph that
is well formed has no problem to report (`FlowGraph.WellFormed.problems_eq_nil`),
so building never reports an invalid graph.

Key definitions: `SymbolTable.Lists`, `Flow.closers`, `FlowGraph.Ends`,
`FlowGraph.WellFormed`.
Key theorems: `FlowGraph.ends_cutFrom`, `FlowGraph.wellFormed_cut`,
`FlowGraph.WellFormed.problems_eq_nil`, `FlowGraph.build_wellFormed`.
-/
import Mathlib.Data.List.Forall2
import Manuscript.Proofs.Flow.Cutting

namespace Manuscript

/-! ### Functions by name -/

namespace Procedure

/-- The function is the first with a name. -/
def IsFirst (all : List Procedure) (name : String) (id : FunctionId) : Prop :=
  ∃ q, all[id]? = some q ∧ q.name = name ∧ ∀ j < id, ∀ r, all[j]? = some r → r.name ≠ name

theorem find?_eq_some_iff {all : List Procedure} {name : String} {id : FunctionId} :
    find? all name = some id ↔ IsFirst all name id := by
  rw [find?, List.findIdx?_eq_some_iff_getElem]
  constructor
  · rintro ⟨hid, hname, hbefore⟩
    refine ⟨all[id], List.getElem?_eq_getElem hid, by simpa using hname, fun j hj r hr => ?_⟩
    obtain ⟨hjlt, rfl⟩ := List.getElem?_eq_some_iff.1 hr
    simpa using hbefore j hj
  · rintro ⟨q, hq, hname, hbefore⟩
    obtain ⟨hid, rfl⟩ := List.getElem?_eq_some_iff.1 hq
    refine ⟨hid, by simpa using hname, fun j hj => ?_⟩
    simpa using hbefore j hj _ (List.getElem?_eq_getElem (Nat.lt_trans hj hid))

theorem find?_eq_none_iff {all : List Procedure} {name : String} :
    find? all name = none ↔ ∀ q ∈ all, q.name ≠ name := by
  simp [find?]

end Procedure

namespace SymbolTable

/-- A name stands for the first function of a list that has it, and for none if no function has
it. -/
structure Lists (table : SymbolTable) (all : List Procedure) : Prop where
  found : ∀ name id, table.function? name = some id ↔ Procedure.IsFirst all name id
  missing : ∀ name, table.function? name = none ↔ ∀ q ∈ all, q.name ≠ name

theorem lists_of (all : List Procedure) : (SymbolTable.of all).Lists all :=
  ⟨fun _ _ => Procedure.find?_eq_some_iff, fun _ => Procedure.find?_eq_none_iff⟩

theorem Lists.lt {table : SymbolTable} {all : List Procedure} (h : table.Lists all) {name : String}
    {id : FunctionId} (hid : table.function? name = some id) : id < all.length := by
  obtain ⟨q, hq, -⟩ := (h.found name id).1 hid
  exact (List.getElem?_eq_some_iff.1 hq).1

end SymbolTable

/-! ### Steps that close blocks -/

namespace Flow

open Procedure (declares)

/-- A step ends the block that control is in: a transfer that can be made, or the last
declaration of a label. -/
def closes (table : SymbolTable) (op : Op) (rest : List Op) : Bool :=
  match op.step with
  | .act _ => false
  | .label name => !declares name rest
  | .call target => (table.function? target).isSome
  | .jump _ | .branch _ | .ret => true

/-- Control gets behind a step that ends a block: always behind a label, behind a call if it
got there, and else never. -/
def passes (op : Op) (reached : Bool) : Bool :=
  match op.step with
  | .label _ => true
  | .call _ => reached
  | _ => false

/-- The steps at which the blocks of a stream end, in order; the last block may end with the
stream. -/
def closers (table : SymbolTable) : Bool → List Op → List (Option Op)
  | reached, [] => if reached then [none] else []
  | reached, op :: rest =>
    if closes table op rest then
      (if reached then [some op] else []) ++ closers table (passes op reached) rest
    else closers table reached rest

end Flow

/-! ### How blocks end -/

namespace FlowGraph

open Procedure (declares)

/-- The label that a block carries. -/
def labelAt? (f : FlowGraph) (b : BlockId) : Option String := f.blocks[b]?.bind (·.label)

section Ends

variable (table : SymbolTable) (p : Procedure) (f : FlowGraph)

/-- What a name leads to: the block that carries it as a label, or the function that the table has
for it where the function declares no such label. -/
inductive Leads (name : String) : Target → Prop where
  | block {b : BlockId} : f.labelAt? b = some name → Leads name (.block b)
  | function {id : FunctionId} :
    declares name p.ops = false → table.function? name = some id → Leads name (.function id)

/-- A name that is neither a label of the function nor a function of the table. -/
def Lost (name : String) : Prop := declares name p.ops = false ∧ table.function? name = none

/-- The arms of a branch are those of the step, less those that lead nowhere. -/
inductive Offers : List (String × String) → List Arm → Prop where
  | nil : Offers [] []
  | kept {text name : String} {t : Target} {rest : List (String × String)} {arms : List Arm} :
    Leads table p f name t → Offers rest arms → Offers ((text, name) :: rest) (⟨text, t⟩ :: arms)
  | lost {text name : String} {rest : List (String × String)} {arms : List Arm} :
    Lost table p name → Offers rest arms → Offers ((text, name) :: rest) arms

/-- How a block ends at the step that closes it, or at the end of the stream. -/
inductive Ends : Option Op → Terminator → Prop where
  | stop : Ends none .ret
  | fall {op : Op} {name : String} {b : BlockId} :
    op.step = .label name → f.labelAt? b = some name → Ends (some op) (.jump b)
  | jump {op : Op} {name : String} {b : BlockId} :
    op.step = .jump name → Leads table p f name (.block b) → Ends (some op) (.jump b)
  | jumpFunction {op : Op} {name : String} {id : FunctionId} :
    op.step = .jump name → Leads table p f name (.function id) → Ends (some op) (.jumpFunction id)
  | jumpLost {op : Op} {name : String} :
    op.step = .jump name → Lost table p name → Ends (some op) .ret
  | call {op : Op} {name : String} {id : FunctionId} :
    op.step = .call name → table.function? name = some id → Ends (some op) (.call id)
  | branch {op : Op} {choices : List (String × String)} {arms : List Arm} :
    op.step = .branch choices → Offers table p f choices arms → arms ≠ [] →
    Ends (some op) (.branch arms)
  | branchLost {op : Op} {choices : List (String × String)} :
    op.step = .branch choices → Offers table p f choices [] → Ends (some op) .ret
  | ret {op : Op} : op.step = .ret → Ends (some op) .ret

/-- A graph is well formed for the function it is the graph of, with the names of a table. -/
structure WellFormed : Prop where
  nonempty : f.blocks ≠ []
  entry_label : f.labelAt? 0 = none
  entry_edges : f.edgesInto 0 = []
  labels_nodup : (f.blocks.filterMap (·.label)).Nodup
  labels_iff : ∀ name, (∃ b ∈ f.blocks, b.label = some name) ↔ ∃ op ∈ p.ops, op.step = .label name
  ends : List.Forall₂ (Ends table p f) (Flow.closers table true p.ops) (f.blocks.map (·.terminator))
  continues : ∀ (i : BlockId) b id, f.blocks[i]? = some b → b.terminator = .call id →
    i + 1 < f.blocks.length

end Ends

variable {table : SymbolTable} {p : Procedure}

/-! ### The graph of a cut function -/

theorem labelAt?_ofParts (parts : List Part) (b : BlockId) :
    (ofParts p parts).labelAt? b = parts[b]?.bind (·.label) := by
  simp only [labelAt?, ofParts, List.getElem?_map]
  cases parts[b]? <;> rfl

theorem labels_ofParts (parts : List Part) :
    (ofParts p parts).blocks.filterMap (·.label) = parts.filterMap (·.label) := by
  simp [ofParts, List.filterMap_map]

theorem terminators_ofParts (parts : List Part) :
    (ofParts p parts).blocks.map (·.terminator) = parts.map fun q => terminatorOf parts q.exit := by
  simp [ofParts]

theorem labelAt?_blockOf {name : String} (h : declares name p.ops = true) :
    (ofParts p (Flow.cut table p).parts).labelAt? (blockOf (Flow.cut table p).parts name) =
      some name := by
  have hmem : name ∈ (Flow.cut table p).parts.filterMap (·.label) := by
    rw [Flow.filterMap_label_cut]
    exact Flow.mem_lastLabels.2 h
  obtain ⟨q, hq, hlabel⟩ := getElem?_blockOf hmem
  rw [labelAt?_ofParts, hq, Option.bind_some, hlabel]

/-- A name is lost, or leads to the target that its goal becomes. -/
theorem leads_goal? (name : String) :
    (Flow.goal? table p name = none ∧ Lost table p name) ∨
    ∃ g, Flow.goal? table p name = some g ∧ Leads table p (ofParts p (Flow.cut table p).parts) name
      (targetOf (Flow.cut table p).parts g) := by
  unfold Flow.goal?
  cases hd : declares name p.ops with
  | true => exact .inr ⟨.label name, rfl, .block (labelAt?_blockOf hd)⟩
  | false =>
    cases hf : table.function? name with
    | none => exact .inl ⟨rfl, hd, hf⟩
    | some id => exact .inr ⟨.function id, rfl, .function hd hf⟩

theorem offers_goals : ∀ choices : List (String × String),
    Offers table p (ofParts p (Flow.cut table p).parts) choices
      ((choices.filterMap fun a => (Flow.goal? table p a.2).map (a.1, ·)).map
        fun a => ⟨a.1, targetOf (Flow.cut table p).parts a.2⟩)
  | [] => .nil
  | (text, name) :: rest => by
    have ih := offers_goals rest
    rcases @leads_goal? table p name with ⟨hg, hlost⟩ | ⟨g, hg, hleads⟩
    · simp only [List.filterMap_cons, hg, Option.map_none]
      exact .lost hlost ih
    · simp only [List.filterMap_cons, hg, Option.map_some, List.map_cons]
      exact .kept hleads ih

/-- A block ends as the step says that closes it. -/
theorem ends_exitAt {op : Op} {rest : List Op} {exit : Exit} (hop : op ∈ p.ops)
    (h : Flow.exitAt table p op rest = some exit) :
    Ends table p (ofParts p (Flow.cut table p).parts) (some op)
      (terminatorOf (Flow.cut table p).parts exit) := by
  unfold Flow.exitAt at h
  cases hstep : op.step with
  | act a => simp [hstep] at h
  | label name =>
    obtain ⟨-, rfl⟩ : _ ∧ Exit.jump (.label name) = exit := by simpa [hstep] using h
    exact .fall hstep (labelAt?_blockOf (Procedure.declares_iff.2 ⟨op, hop, hstep⟩))
  | jump target =>
    obtain rfl : Flow.jumpExit (Flow.goal? table p target) = exit := by simpa [hstep] using h
    rcases @leads_goal? table p target with ⟨hg, hlost⟩ | ⟨g, hg, hleads⟩
    · rw [hg]
      exact .jumpLost hstep hlost
    · rw [hg]
      cases g with
      | label name => exact .jump hstep hleads
      | function id => exact .jumpFunction hstep hleads
  | call target =>
    obtain ⟨id, hf, rfl⟩ : ∃ id, table.function? target = some id ∧ Exit.call id = exit := by
      simpa [hstep] using h
    exact .call hstep hf
  | branch choices =>
    have hoffers := @offers_goals table p choices
    simp only [hstep, Option.some.injEq] at h
    subst h
    generalize (choices.filterMap fun a => (Flow.goal? table p a.2).map (a.1, ·)) = goals at *
    cases goals with
    | nil => exact .branchLost hstep hoffers
    | cons g gs => exact .branch hstep hoffers (List.cons_ne_nil _ _)
  | ret =>
    obtain rfl : Exit.ret = exit := by simpa [hstep] using h
    exact .ret hstep

theorem exitAt_eq_none_iff {op : Op} {rest : List Op} :
    Flow.exitAt table p op rest = none ↔ Flow.closes table op rest = false := by
  rcases op with ⟨step, loc⟩
  cases step <;> simp [Flow.exitAt, Flow.closes]

/-- Where a step ends a part, the next is filled where control gets behind the step. -/
theorem isSome_refill {op : Op} {rest : List Op} {current : Option Flow.Filling} :
    (Flow.refill table op rest current).isSome =
      if Flow.closes table op rest then Flow.passes op current.isSome else current.isSome := by
  rcases op with ⟨step, loc⟩
  cases step with
  | label name => cases h : declares name rest <;> simp [Flow.refill, Flow.closes, Flow.passes, h]
  | call target =>
    cases h : table.function? target <;> simp [Flow.refill, Flow.closes, Flow.passes, h]
  | act a => simp [Flow.refill, Flow.closes]
  | jump target => simp [Flow.refill, Flow.closes, Flow.passes]
  | branch arms => simp [Flow.refill, Flow.closes, Flow.passes]
  | ret => simp [Flow.refill, Flow.closes, Flow.passes]

/-- **Blocks end as they are closed.** The parts of a stream end one after the other at the
steps that close blocks. -/
theorem ends_cutFrom : ∀ (ops : List Op) (current : Option Flow.Filling), ops ⊆ p.ops →
    List.Forall₂ (Ends table p (ofParts p (Flow.cut table p).parts))
      (Flow.closers table current.isSome ops)
      ((Flow.cutFrom table p current ops).parts.map
        fun q => terminatorOf (Flow.cut table p).parts q.exit)
  | [], none, _ => .nil
  | [], some f, _ => .cons .stop .nil
  | op :: rest, current, hsub => by
    have hop : op ∈ p.ops := hsub List.mem_cons_self
    have ih := ends_cutFrom rest (Flow.refill table op rest current)
      fun x hx => hsub (List.mem_cons_of_mem _ hx)
    rw [isSome_refill] at ih
    rw [Flow.parts_cutFrom_cons, List.map_append, Flow.closers, Flow.closeAt]
    cases he : Flow.exitAt table p op rest with
    | none =>
      rw [exitAt_eq_none_iff.1 he] at ih ⊢
      cases current <;> exact ih
    | some exit =>
      have hcloses : Flow.closes table op rest = true := by
        cases hc : Flow.closes table op rest with
        | true => rfl
        | false => simp [exitAt_eq_none_iff.2 hc] at he
      rw [hcloses] at ih ⊢
      cases current with
      | none => exact ih
      | some f => exact .cons (ends_exitAt hop he) ih

theorem exit_of_terminatorOf {parts : List Part} {exit : Exit} {id : FunctionId}
    (h : terminatorOf parts exit = .call id) : exit = .call id := by
  unfold terminatorOf at h
  split at h <;> simp_all

/-- Behind a call that can be made a part is open. -/
theorem refill_of_call {op : Op} {rest : List Op} {id : FunctionId} (f : Flow.Filling)
    (h : Flow.exitAt table p op rest = some (.call id)) :
    Flow.refill table op rest (some f) = some ⟨none, []⟩ := by
  rcases op with ⟨step, loc⟩
  cases step with
  | act a => simp [Flow.exitAt] at h
  | label name => simp [Flow.exitAt] at h
  | jump target =>
    cases hg : Flow.goal? table p target <;> simp [Flow.exitAt, Flow.jumpExit, hg] at h
  | call target =>
    obtain ⟨hf, -⟩ : table.function? target = some id ∧ True := by simpa [Flow.exitAt] using h
    simp [Flow.refill, hf]
  | branch arms =>
    simp only [Flow.exitAt, Option.some.injEq] at h
    unfold Flow.branchExit at h
    split at h <;> cases h
  | ret => simp [Flow.exitAt] at h

theorem continues_cutFrom : ∀ (ops : List Op) (current : Option Flow.Filling) (i : Nat) (q : Part)
    (id : FunctionId), (Flow.cutFrom table p current ops).parts[i]? = some q → q.exit = .call id →
    i + 1 < (Flow.cutFrom table p current ops).parts.length
  | [], none, i, q, id => by simp [Flow.parts_cutFrom_nil]
  | [], some f, i, q, id => by
    rintro hq hexit
    obtain ⟨rfl, rfl⟩ : i = 0 ∧ f.close .ret = q := by
      simpa [Flow.parts_cutFrom_nil, List.getElem?_singleton] using hq
    cases hexit
  | op :: rest, current, i, q, id => by
    intro hq hexit
    have ih := continues_cutFrom rest (Flow.refill table op rest current)
    rw [Flow.parts_cutFrom_cons] at hq ⊢
    cases hclose : Flow.closeAt table p op rest current with
    | none =>
      rw [hclose] at hq
      exact ih i q id hq hexit
    | some c =>
      rw [hclose] at hq
      cases i with
      | succ i => simpa using ih i q id hq hexit
      | zero =>
        obtain rfl : c = q := by simpa using hq
        obtain ⟨f, rfl, exit, he, rfl⟩ :
            ∃ f, current = some f ∧ ∃ exit, Flow.exitAt table p op rest = some exit ∧
              f.close exit = c := by
          simpa [Flow.closeAt, Option.bind_eq_some_iff] using hclose
        obtain rfl : exit = .call id := hexit
        obtain ⟨more, exit, tail, htail⟩ := @Flow.parts_cutFrom_some table p rest ⟨none, []⟩
        simp [refill_of_call f he, htail]

/-! ### Where blocks lead -/

section Leading

variable {f : FlowGraph} {c : Option Op} {t : Terminator}

theorem Offers.leads {choices : List (String × String)} {arms : List Arm}
    (h : Offers table p f choices arms) : ∀ a ∈ arms, ∃ name, Leads table p f name a.target := by
  induction h with
  | nil => simp
  | kept hleads _ ih =>
    intro a ha
    rcases List.mem_cons.1 ha with rfl | ha
    · exact ⟨_, hleads⟩
    · exact ih a ha
  | lost _ _ ih => exact ih

/-- The blocks that control may go to: the next behind a call, and blocks that carry a label. -/
theorem Ends.successors (h : Ends table p f c t) {next b : BlockId} (hb : b ∈ t.successors next) :
    (∃ id, t = .call id) ∧ b = next ∨ ∃ name, f.labelAt? b = some name := by
  cases h with
  | fall _ hlabel =>
    obtain rfl : b = _ := by simpa [Terminator.successors] using hb
    exact .inr ⟨_, hlabel⟩
  | jump _ hleads =>
    obtain rfl : b = _ := by simpa [Terminator.successors] using hb
    cases hleads with | block hlabel => exact .inr ⟨_, hlabel⟩
  | call => exact .inl ⟨⟨_, rfl⟩, by simpa [Terminator.successors] using hb⟩
  | branch _ hoffers =>
    obtain ⟨⟨text, target⟩, ha, hblock⟩ := List.mem_filterMap.1 hb
    obtain ⟨name, hleads⟩ := hoffers.leads _ ha
    cases hleads with
    | block hlabel =>
      obtain rfl : _ = b := by simpa [Terminator.armBlock?] using hblock
      exact .inr ⟨name, hlabel⟩
    | function => simp [Terminator.armBlock?] at hblock
  | _ => simp [Terminator.successors] at hb

/-- Edges into a block come from the blocks that may go there. -/
theorem edgesFrom_eq_nil {target i : BlockId} (h : target ∉ t.successors (i + 1)) :
    edgesFrom target i t = [] := by
  cases t with
  | branch arms =>
    rw [edgesFrom, List.filterMap_eq_nil_iff]
    rintro ⟨arm, k⟩ hk
    have harm : arm ∈ arms := List.mem_of_getElem? (List.mem_zipIdx_iff_getElem?.1 hk)
    have hne : arm.target ≠ .block target := fun heq =>
      h (List.mem_filterMap.2 ⟨arm, harm, by simp [Terminator.armBlock?, heq]⟩)
    simp [hne]
  | jump b =>
    have hne : b ≠ target := fun heq => h (by simp [Terminator.successors, heq])
    simp [edgesFrom, Terminator.successors, hne]
  | call id =>
    have hne : i + 1 ≠ target := fun heq => h (by simp [Terminator.successors, heq])
    simp [edgesFrom, Terminator.successors, hne]
  | jumpFunction id => rfl
  | ret => rfl

end Leading

theorem exists_ends {f : FlowGraph} {closers : List (Option Op)} {ts : List Terminator}
    (h : List.Forall₂ (Ends table p f) closers ts) : ∀ t ∈ ts, ∃ c, Ends table p f c t := by
  induction h with
  | nil => simp
  | cons hends _ ih =>
    intro t ht
    rcases List.mem_cons.1 ht with rfl | ht
    · exact ⟨_, hends⟩
    · exact ih t ht

/-- **The graph of a cut function is well formed.** -/
theorem wellFormed_cut (table : SymbolTable) (p : Procedure) :
    WellFormed table p (ofParts p (Flow.cut table p).parts) := by
  obtain ⟨more, exit, tail, hparts⟩ := @Flow.parts_cutFrom_some table p p.ops ⟨none, []⟩
  have hparts : (Flow.cut table p).parts = ⟨none, more, exit⟩ :: tail := hparts
  have hlabels : (ofParts p (Flow.cut table p).parts).blocks.filterMap (·.label) =
      Flow.lastLabels p.ops := by
    rw [labels_ofParts, Flow.filterMap_label_cut]
  have hends : List.Forall₂ (Ends table p (ofParts p (Flow.cut table p).parts))
      (Flow.closers table true p.ops)
      ((ofParts p (Flow.cut table p).parts).blocks.map (·.terminator)) := by
    rw [terminators_ofParts]
    exact ends_cutFrom p.ops (some ⟨none, []⟩) (List.Subset.refl _)
  have hentry : (ofParts p (Flow.cut table p).parts).labelAt? 0 = none := by
    rw [labelAt?_ofParts, hparts]
    rfl
  refine ⟨?_, hentry, ?_, ?_, fun name => ?_, hends, ?_⟩
  · simp [ofParts, hparts]
  · rw [edgesInto, List.flatMap_eq_nil_iff]
    rintro ⟨b, i⟩ hb
    have hmem := List.mem_of_getElem? (List.mem_zipIdx_iff_getElem?.1 hb)
    obtain ⟨c, hc⟩ := exists_ends hends b.terminator (List.mem_map_of_mem hmem)
    refine edgesFrom_eq_nil fun hzero => ?_
    rcases hc.successors hzero with ⟨-, hnext⟩ | ⟨name, hname⟩
    · exact Nat.succ_ne_zero i hnext.symm
    · simp [hentry] at hname
  · rw [hlabels]
    exact Flow.nodup_lastLabels p.ops
  · rw [← List.mem_filterMap, hlabels, Flow.mem_lastLabels, Procedure.declares_iff]
  · intro i b id hb hcall
    obtain ⟨q, hq, rfl⟩ : ∃ q, (Flow.cut table p).parts[i]? = some q ∧
        BasicBlock.mk q.label q.insts (terminatorOf (Flow.cut table p).parts q.exit) = b := by
      simpa [ofParts] using hb
    have hlt := continues_cutFrom p.ops (some ⟨none, []⟩) i q id hq (exit_of_terminatorOf hcall)
    simpa [ofParts, Flow.cut] using hlt

/-! ### A well-formed graph has no problem -/

namespace WellFormed

variable {f : FlowGraph}

theorem exists_ends_block (h : WellFormed table p f) {b : BasicBlock} (hb : b ∈ f.blocks) :
    ∃ c, Ends table p f c b.terminator :=
  exists_ends h.ends b.terminator (List.mem_map_of_mem hb)

theorem isLabelled_of_labelAt? {b : BlockId} {name : String} (h : f.labelAt? b = some name) :
    f.isLabelled b = true := by
  obtain ⟨block, hblock, hlabel⟩ := Option.bind_eq_some_iff.1 h
  simp [isLabelled, hblock, hlabel]

theorem targetProblems_eq_nil {i : BlockId} {targets : List BlockId}
    (h : ∀ b ∈ targets, ∃ name, f.labelAt? b = some name) : f.targetProblems i targets = [] := by
  rw [targetProblems, List.map_eq_nil_iff, List.filter_eq_nil_iff]
  intro b hb
  obtain ⟨name, hname⟩ := h b hb
  simp [isLabelled_of_labelAt? hname]

theorem labelProblems_eq_nil (h : WellFormed table p f) {i : BlockId} {b : BasicBlock}
    (hb : f.blocks[i]? = some b) : f.labelProblems i b = [] := by
  unfold labelProblems
  cases hlabel : b.label with
  | none => rfl
  | some label =>
    -- the block splits the list, and labels stand once in it
    have hsplit : f.blocks = f.blocks.take i ++ b :: f.blocks.drop (i + 1) := by
      obtain ⟨hi, rfl⟩ := List.getElem?_eq_some_iff.1 hb
      rw [← List.drop_eq_getElem_cons hi, List.take_append_drop]
    have hnd := h.labels_nodup
    rw [hsplit, List.filterMap_append, List.nodup_append] at hnd
    have hfresh : ∀ d ∈ f.blocks.take i, d.label ≠ some label := fun d hd hdl =>
      hnd.2.2 label (List.mem_filterMap.2 ⟨d, hd, hdl⟩) label
        (List.mem_filterMap.2 ⟨b, List.mem_cons_self, hlabel⟩) rfl
    simpa using hfresh

theorem terminatorProblems_eq_nil (h : WellFormed table p f) {i : BlockId} {b : BasicBlock}
    (hb : f.blocks[i]? = some b) : f.terminatorProblems i b.terminator = [] := by
  obtain ⟨c, hc⟩ := h.exists_ends_block (List.mem_of_getElem? hb)
  have hlabelled : (∀ id, b.terminator ≠ .call id) →
      ∀ t ∈ b.terminator.successors (i + 1), ∃ name, f.labelAt? t = some name := by
    intro hne t ht
    rcases hc.successors ht with ⟨⟨id, hid⟩, -⟩ | hlabel
    · exact absurd hid (hne id)
    · exact hlabel
  cases hterm : b.terminator with
  | jump t =>
    rw [hterm] at hlabelled
    exact targetProblems_eq_nil (hlabelled (by simp))
  | call id =>
    have hlt := h.continues i b id hb hterm
    simp [terminatorProblems, hlt]
  | branch arms =>
    rw [hterm] at hlabelled hc
    have harms : arms ≠ [] := by cases hc with | branch _ _ hne => exact hne
    rw [terminatorProblems, targetProblems_eq_nil (hlabelled (by simp))]
    simp [harms]
  | jumpFunction id => rfl
  | ret => rfl

/-- **A well-formed graph has no problem.** -/
theorem problems_eq_nil (h : WellFormed table p f) : f.problems = [] := by
  have hblocks : f.blocks.isEmpty = false := by simpa using h.nonempty
  rw [problems, hblocks, List.append_eq_nil_iff, List.flatMap_eq_nil_iff]
  refine ⟨rfl, ?_⟩
  rintro ⟨b, i⟩ hb
  have hb := List.mem_zipIdx_iff_getElem?.1 hb
  simp only [h.labelProblems_eq_nil hb, h.terminatorProblems_eq_nil hb, List.append_nil]

theorem validate_eq_nil (h : WellFormed table p f) : f.validate = [] := by
  rw [validate, h.problems_eq_nil, List.map_nil]

end WellFormed

end FlowGraph

/-! ### Reports of cutting -/

namespace Flow

variable {table : SymbolTable} {p : Procedure}

theorem code_unresolved (target : String) (loc : Loc) :
    (unresolved table p target loc).code ≠ .flowInvalid := by
  unfold unresolved
  split <;> simp [Diagnostic.make]

/-- What a step reports is never an invalid graph. -/
theorem code_reports (op : Op) (fate : Fate) :
    ∀ d ∈ fate.reports table p op, d.code ≠ .flowInvalid := by
  cases fate with
  | ends exit =>
    intro d hd
    obtain ⟨target, -, rfl⟩ := List.mem_map.1 hd
    exact code_unresolved target op.loc
  | kept _ | opens _ => simp [Fate.reports]
  | shadowed _ | unknown _ | dropped => simp [Fate.reports, Diagnostic.make]

/-- Cutting never reports an invalid graph. -/
theorem code_cutFrom : ∀ (ops : List Op) (current : Option Filling),
    ∀ d ∈ (cutFrom table p current ops).diags, d.code ≠ .flowInvalid
  | [], none => by simp [cutFrom]
  | [], some f => by simp [cutFrom]
  | op :: rest, current => by
    rw [diags_cutFrom_cons]
    exact List.forall_mem_append.2 ⟨code_reports op _, code_cutFrom rest _⟩

end Flow

/-- **Building gives well-formed graphs.** Whatever the functions are, their graphs are well
formed one by one, with each name standing for the first function that has it; checking them finds
nothing, and no graph is reported as invalid. -/
theorem FlowGraph.build_wellFormed (all : List Procedure) :
    (SymbolTable.of all).Lists all ∧
      List.Forall₂ (WellFormed (.of all)) all (build all).1 ∧
      (∀ f ∈ (build all).1, f.validate = []) ∧
      ∀ d ∈ (build all).2, d.code ≠ .flowInvalid := by
  refine ⟨SymbolTable.lists_of all, ?_, fun f hf => ?_, fun d hd => ?_⟩
  · have hgraphs : (build all).1 = all.map fun p => (ofProcedure (.of all) p).1 := by simp [build]
    rw [hgraphs, List.forall₂_map_right_iff, List.forall₂_same]
    exact fun p _ => wellFormed_cut (.of all) p
  · obtain ⟨p, -, rfl⟩ : ∃ p ∈ all, (ofProcedure (.of all) p).1 = f := by simpa [build] using hf
    exact (wellFormed_cut _ p).validate_eq_nil
  · obtain ⟨p, -, hd⟩ : ∃ p ∈ all, d ∈ (ofProcedure (.of all) p).2 := by simpa [build] using hd
    rw [ofProcedure, (wellFormed_cut _ p).validate_eq_nil, List.append_nil] at hd
    exact Flow.code_cutFrom _ _ d hd

end Manuscript
