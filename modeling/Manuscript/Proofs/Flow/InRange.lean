/-
# Graphs name only what there is

The instructions of a graph are the actions of its stream, so they name no other
characters. Its terminators name functions that are there and blocks that it has,
since it is well formed.

Key definitions: `Step.NamesBelow`.
Key theorems: `Flow.mem_ops_of_mem_cutFrom`, `FlowGraph.mem_ops_of_mem_blocks`,
`FlowGraph.WellFormed.lt_of_mem_successors`, `FlowGraph.inRange_of_mem_build`.
-/
import Manuscript.Proofs.Flow.WellFormed
import Manuscript.Proofs.Program.InRange

namespace Manuscript

/-- The step names only the first `n` characters. -/
def Step.NamesBelow (n : Nat) : Step → Prop
  | .act a => a.NamesBelow n
  | _ => True

theorem Step.NamesBelow.mono {s : Step} {m n : Nat} (h : s.NamesBelow m) (hle : m ≤ n) :
    s.NamesBelow n := by
  cases s with
  | act a => exact Action.NamesBelow.mono h hle
  | _ => trivial

namespace Flow

variable {table : SymbolTable} {p : Procedure}

theorem insts_of_closeAt {op : Op} {rest : List Op} {current : Option Filling} {q : Part}
    (h : closeAt table p op rest current = some q) : ∃ f, current = some f ∧ q.insts = f.insts := by
  obtain ⟨f, hf, hexit⟩ := Option.bind_eq_some_iff.1 h
  obtain ⟨exit, -, rfl⟩ := Option.map_eq_some_iff.1 hexit
  exact ⟨f, hf, rfl⟩

/-- What is filled after a step holds what was filled before, and the step's action. -/
theorem mem_insts_refill {op : Op} {rest : List Op} {current : Option Filling} {g : Filling}
    (h : refill table op rest current = some g) {i : Inst} (hi : i ∈ g.insts) :
    (∃ f, current = some f ∧ i ∈ f.insts) ∨ op = ⟨.act i.action, i.loc⟩ := by
  rcases op with ⟨step, loc⟩
  unfold refill at h
  split at h
  · rename_i a hstep
    obtain ⟨f, hf, rfl⟩ := Option.map_eq_some_iff.1 h
    rcases List.mem_append.1 hi with hi | hi
    · exact .inl ⟨f, hf, hi⟩
    · rw [List.mem_singleton.1 hi]
      exact .inr (congrArg (Op.mk · loc) hstep)
  · split at h
    · exact .inl ⟨g, h, hi⟩
    · cases h
      simp at hi
  · split at h
    · obtain ⟨f, -, rfl⟩ := Option.map_eq_some_iff.1 h
      simp at hi
    · exact .inl ⟨g, h, hi⟩
  all_goals cases h

/-- The instructions of the parts are what was filled before, and actions of the stream. -/
theorem mem_ops_of_mem_cutFrom : ∀ (ops : List Op) (current : Option Filling) (q : Part),
    q ∈ (cutFrom table p current ops).parts → ∀ i ∈ q.insts,
      (∃ f, current = some f ∧ i ∈ f.insts) ∨ ⟨.act i.action, i.loc⟩ ∈ ops
  | [], current, q, hq, i, hi => by
    rw [parts_cutFrom_nil] at hq
    obtain ⟨f, hf, rfl⟩ := Option.map_eq_some_iff.1 (Option.mem_toList.1 hq)
    exact .inl ⟨f, hf, hi⟩
  | op :: rest, current, q, hq, i, hi => by
    rw [parts_cutFrom_cons] at hq
    rcases List.mem_append.1 hq with hq | hq
    · obtain ⟨f, hf, hinsts⟩ := insts_of_closeAt (Option.mem_toList.1 hq)
      exact .inl ⟨f, hf, hinsts ▸ hi⟩
    · rcases mem_ops_of_mem_cutFrom rest _ q hq i hi with ⟨g, hg, hmem⟩ | hrest
      · rcases mem_insts_refill hg hmem with hf | rfl
        · exact .inl hf
        · exact .inr List.mem_cons_self
      · exact .inr (List.mem_cons_of_mem _ hrest)

end Flow

namespace FlowGraph

variable {table : SymbolTable} {all : List Procedure} {p : Procedure} {f : FlowGraph}

theorem lt_of_labelAt? {b : BlockId} {name : String} (h : f.labelAt? b = some name) :
    b < f.blocks.length := by
  obtain ⟨block, hblock, -⟩ := Option.bind_eq_some_iff.1 h
  exact (List.getElem?_eq_some_iff.1 hblock).1

theorem WellFormed.lt_of_mem_successors (h : WellFormed table p f) {i t : BlockId} {b : BasicBlock}
    (hb : f.blocks[i]? = some b) (ht : t ∈ b.terminator.successors (i + 1)) :
    t < f.blocks.length := by
  obtain ⟨c, hc⟩ := h.exists_ends_block (List.mem_of_getElem? hb)
  rcases hc.successors ht with ⟨⟨id, hid⟩, rfl⟩ | ⟨name, hname⟩
  · exact h.continues i b id hb hid
  · exact lt_of_labelAt? hname

theorem WellFormed.lt_of_mem_functions (h : WellFormed table p f) (htable : table.Lists all)
    {b : BasicBlock} (hb : b ∈ f.blocks) {id : FunctionId} (hid : id ∈ b.terminator.functions) :
    id < all.length := by
  obtain ⟨c, hc⟩ := h.exists_ends_block hb
  cases hterm : b.terminator with
  | jumpFunction g =>
    rw [hterm] at hc hid
    obtain rfl : id = g := by simpa [Terminator.functions] using hid
    cases hc with
    | jumpFunction _ hleads =>
      cases hleads with | function _ hfound => exact htable.lt hfound
  | call g =>
    rw [hterm] at hc hid
    obtain rfl : id = g := by simpa [Terminator.functions] using hid
    cases hc with | call _ hfound => exact htable.lt hfound
  | branch arms =>
    rw [hterm] at hc hid
    obtain ⟨⟨text, target⟩, ha, hid⟩ := List.mem_filterMap.1 hid
    cases hc with
    | branch _ hoffers =>
      obtain ⟨name, hleads⟩ := hoffers.leads _ ha
      cases hleads with
      | block => simp at hid
      | function _ hfound =>
        obtain rfl : _ = id := by simpa using hid
        exact htable.lt hfound
  | jump t => simp [hterm, Terminator.functions] at hid
  | ret => simp [hterm, Terminator.functions] at hid

/-- The instructions of a graph are actions of the stream that it was built from, each with its
place in the document. -/
theorem mem_ops_of_mem_blocks {b : BasicBlock} (hb : b ∈ (ofProcedure table p).1.blocks) {i : Inst}
    (hi : i ∈ b.insts) : ⟨.act i.action, i.loc⟩ ∈ p.ops := by
  obtain ⟨q, hq, rfl⟩ := List.mem_map.1 hb
  rcases Flow.mem_ops_of_mem_cutFrom p.ops _ q hq i hi with ⟨f, hf, hmem⟩ | hop
  · obtain rfl := Option.some.inj hf
    simp at hmem
  · exact hop

theorem exists_op_of_mem_blocks {b : BasicBlock} (hb : b ∈ (ofProcedure table p).1.blocks)
    {i : Inst} (hi : i ∈ b.insts) : ∃ op ∈ p.ops, op.step = .act i.action :=
  ⟨_, mem_ops_of_mem_blocks hb hi, rfl⟩

theorem exists_of_mem_build (h : f ∈ (build all).1) :
    ∃ p ∈ all, (ofProcedure (.of all) p).1 = f := by
  simpa [build] using h

/-- **The graphs that are built are in range.** -/
theorem inRange_of_mem_build {n : Nat}
    (h : ∀ p ∈ all, ∀ op ∈ p.ops, op.step.NamesBelow n) :
    ∀ f ∈ (build all).1, f.InRange n all.length := by
  intro f hf
  obtain ⟨p, hp, rfl⟩ := exists_of_mem_build hf
  have hwf : WellFormed (.of all) p (ofProcedure (.of all) p).1 := wellFormed_cut _ p
  refine ⟨fun b hb i hi => ?_, fun b hb id => hwf.lt_of_mem_functions (SymbolTable.lists_of all) hb,
    fun i b hb t => hwf.lt_of_mem_successors hb⟩
  obtain ⟨op, hop, hstep⟩ := exists_op_of_mem_blocks hb hi
  have hbelow := h p hp op hop
  rw [hstep] at hbelow
  exact hbelow

end FlowGraph
end Manuscript
