/-
# Predecessors invert the terminators

The edges out of a block, told with their targets, lead to its successors one by one and in
order (`Terminator.map_snd_outgoing`). An arm that leaves the function is no edge but keeps
its number, so the arms of a branch are counted with the ones that are left out. The edges
into a block are the edges of the whole function that lead there.

The lists of predecessors can be filled in one pass over the edges: each is added to the list
of its target, if there is such a block. A step changes the list of the target alone
(`FlowGraph.getElem?_record`), and so a list holds in the end the edges to its block in the
order in which they came (`FlowGraph.getElem?_foldl_record`).

Key definitions: `Terminator.outgoing`, `FlowGraph.edges`, `FlowGraph.collected`,
`FlowGraph.Inverts`.
Key theorems: `FlowGraph.length_edgesFrom`, `FlowGraph.filter_edgesInto`,
`FlowGraph.collected_eq`, `FlowGraph.predecessors_inverts`.
-/
import Manuscript.Proofs.Stage.Edges

namespace Manuscript

/-! ### Edges with their targets -/

namespace Terminator

/-- The edges out of block `i` that stay in the function with their targets, arm by arm. -/
def outgoing (i : BlockId) : Terminator → List (Edge × BlockId)
  | branch arms => arms.zipIdx.filterMap fun x => (armBlock? x.1).map fun b => (⟨i, some x.2⟩, b)
  | t => (t.successors (i + 1)).map fun b => (⟨i, none⟩, b)

/-- **The edges out of a block lead to its successors**, one by one. -/
theorem map_snd_outgoing (i : BlockId) (t : Terminator) :
    (outgoing i t).map Prod.snd = t.successors (i + 1) := by
  cases t with
  | branch arms =>
    have harm : ∀ x : Arm × Nat, ((armBlock? x.1).map fun b => ((⟨i, some x.2⟩ : Edge), b)).map
        Prod.snd = armBlock? x.1 := fun x => by simp [Option.map_map, Function.comp_def]
    calc (outgoing i (branch arms)).map Prod.snd
      _ = arms.zipIdx.filterMap (armBlock? ∘ Prod.fst) := by
        simp only [outgoing, List.map_filterMap, harm, Function.comp_def]
      _ = arms.filterMap armBlock? := by rw [← List.filterMap_map, List.zipIdx_map_fst]
  | _ => simp [outgoing, successors]

theorem leads?_some_iff (next : BlockId) {b : BlockId} {t : Terminator} {k : Nat} :
    t.leads? next (some k) = some b ↔
      ∃ arms arm, t = branch arms ∧ arms[k]? = some arm ∧ arm.target = .block b := by
  cases t with
  | branch arms =>
    rw [leads?, Option.bind_eq_bind, Option.bind_eq_some_iff]
    simp [armBlock?_eq_some]
  | _ => simp [leads?]

theorem leads?_none_iff (next : BlockId) {b : BlockId} {t : Terminator} :
    t.leads? next none = some b ↔ (∀ arms, t ≠ branch arms) ∧ b ∈ t.successors next := by
  cases t <;> simp [leads?, successors, eq_comm]

end Terminator

namespace FlowGraph

variable {f : FlowGraph}

theorem edgesFrom_eq (target i : BlockId) (t : Terminator) :
    edgesFrom target i t = ((t.outgoing i).filter (·.2 == target)).map Prod.fst := by
  cases t with
  | branch arms =>
    rw [edgesFrom, Terminator.outgoing, List.filter_filterMap, List.map_filterMap]
    refine List.filterMap_congr fun x _ => ?_
    rcases x with ⟨⟨text, aim⟩, k⟩
    cases aim with
    | block b => by_cases hb : b = target <;> simp [Terminator.armBlock?, Option.filter, hb]
    | function g => simp [Terminator.armBlock?]
  | call g =>
    by_cases h : i + 1 = target <;>
      simp [edgesFrom, Terminator.outgoing, Terminator.successors, h]
  | jump b =>
    by_cases h : b = target <;> simp [edgesFrom, Terminator.outgoing, Terminator.successors, h]
  | jumpFunction g => rfl
  | ret => rfl

/-- There are as many edges from a block to another as the other is its successor. -/
theorem length_edgesFrom (target i : BlockId) (t : Terminator) :
    (edgesFrom target i t).length = (t.successors (i + 1)).count target := by
  rw [edgesFrom_eq, List.length_map, ← List.countP_eq_length_filter, ← t.map_snd_outgoing i,
    List.count, List.countP_map]
  rfl

/-- The edges of a function with their targets, also those that lead to no block of it. -/
def edges (f : FlowGraph) : List (Edge × BlockId) :=
  f.blocks.zipIdx.flatMap fun x => x.1.terminator.outgoing x.2

theorem edgesInto_eq (f : FlowGraph) (target : BlockId) :
    f.edgesInto target = (f.edges.filter (·.2 == target)).map Prod.fst := by
  rw [edgesInto, edges, List.filter_flatMap, List.map_flatMap]
  exact List.flatMap_congr fun x _ => edgesFrom_eq target x.2 x.1.terminator

/-- If only the element at place `p` has an image, that is all of the image. -/
theorem flatMap_zipIdx_eq {α β : Type} {g : α × Nat → List β} {a : α} :
    ∀ (xs : List α) (n p : Nat), xs[p]? = some a → (∀ x, x.2 ≠ n + p → g x = []) →
      (xs.zipIdx n).flatMap g = g (a, n + p)
  | x :: xs, n, 0, ha, hother => by
    obtain rfl : x = a := by simpa using ha
    have hrest : (xs.zipIdx (n + 1)).flatMap g = [] := by
      refine List.flatMap_eq_nil_iff.2 fun y hy => hother y ?_
      have hle := List.le_snd_of_mem_zipIdx hy
      omega
    rw [List.zipIdx_cons, List.flatMap_cons, hrest, List.append_nil, Nat.add_zero]
  | x :: xs, n, p + 1, ha, hother => by
    have hfirst : g (x, n) = [] := hother (x, n) (by simp)
    have ih := flatMap_zipIdx_eq xs (n + 1) p (by simpa using ha)
      fun y hy => hother y (by omega)
    rw [List.zipIdx_cons, List.flatMap_cons, hfirst, List.nil_append, ih]
    congr 2
    omega

/-- Of the edges into a block, those from another are the edges between the two. -/
theorem filter_edgesInto {p : BlockId} {block : BasicBlock} (target : BlockId)
    (h : f.blocks[p]? = some block) :
    (f.edgesInto target).filter (·.source == p) = edgesFrom target p block.terminator := by
  have hother : ∀ x : BasicBlock × BlockId, x.2 ≠ 0 + p →
      (edgesFrom target x.2 x.1.terminator).filter (·.source == p) = [] := fun x hx =>
    List.filter_eq_nil_iff.2 fun e he => by simpa [(mem_edgesFrom.1 he).1] using hx
  rw [edgesInto, List.filter_flatMap, flatMap_zipIdx_eq f.blocks 0 p h hother, Nat.zero_add]
  exact List.filter_eq_self.2 fun e he => by simp [(mem_edgesFrom.1 he).1]

/-! ### One pass over the edges -/

/-- Adds an edge to the list of its target. An edge to no block is left out. -/
def record (lists : List (List Edge)) (x : Edge × BlockId) : List (List Edge) :=
  lists.modify x.2 (· ++ [x.1])

/-- The lists that a pass over the edges of a function fills. -/
def collected (f : FlowGraph) : List (List Edge) :=
  f.edges.foldl record (List.replicate f.blocks.length [])

theorem getElem?_record (lists : List (List Edge)) (x : Edge × BlockId) (b : BlockId) :
    (record lists x)[b]? = lists[b]?.map (· ++ ([x].filter (·.2 == b)).map Prod.fst) := by
  rw [record, List.getElem?_modify, Option.map_eq_map]
  by_cases hb : x.2 = b <;> simp [hb]

/-- A pass adds to the list of a block the edges that lead there. -/
theorem getElem?_foldl_record (b : BlockId) :
    ∀ (xs : List (Edge × BlockId)) (lists : List (List Edge)),
      (xs.foldl record lists)[b]? =
        lists[b]?.map (· ++ (xs.filter (·.2 == b)).map Prod.fst)
  | [], lists => by simp
  | x :: xs, lists => by
    have hcons : (x :: xs).filter (·.2 == b) = [x].filter (·.2 == b) ++ xs.filter (·.2 == b) := by
      rw [← List.filter_append, List.singleton_append]
    rw [List.foldl_cons, getElem?_foldl_record b xs, getElem?_record, Option.map_map, hcons]
    simp [Function.comp_def]

/-- **One pass over the edges gives the predecessors.** -/
theorem collected_eq (f : FlowGraph) : f.collected = f.predecessors := by
  refine List.ext_getElem? fun b => ?_
  rw [collected, getElem?_foldl_record, predecessors, List.getElem?_map, ← edgesInto_eq]
  by_cases hb : b < f.blocks.length <;> simp [hb]

/-! ### The inverse -/

/-- The lists invert the terminators of a function, one list for each block:

* an edge with an arm stands in the list of the block that this arm of its source leads to, and
  an edge without one in the list of each successor of a source that does not branch;
* no edge comes from outside the function, and none stands twice in a list;
* a block comes as often in the list of another as the other is its successor;
* every list is ordered by source and then by arm. -/
structure Inverts (f : FlowGraph) (lists : List (List Edge)) : Prop where
  length : lists.length = f.blocks.length
  arms : ∀ (p b : BlockId) block edges k, f.blocks[p]? = some block → lists[b]? = some edges →
    (⟨p, some k⟩ ∈ edges ↔ ∃ arms arm, block.terminator = .branch arms ∧ arms[k]? = some arm ∧
      arm.target = .block b)
  others : ∀ (p b : BlockId) block edges, f.blocks[p]? = some block → lists[b]? = some edges →
    (⟨p, none⟩ ∈ edges ↔ (∀ arms, block.terminator ≠ .branch arms) ∧
      b ∈ block.terminator.successors (p + 1))
  inside : ∀ edges ∈ lists, ∀ e ∈ edges, e.source < f.blocks.length
  nodup : ∀ edges ∈ lists, edges.Nodup
  count : ∀ (p b : BlockId) block edges, f.blocks[p]? = some block → lists[b]? = some edges →
    edges.countP (·.source == p) = (block.terminator.successors (p + 1)).count b
  ordered : ∀ edges ∈ lists, edges.Pairwise Edge.Before

theorem getElem?_predecessors {b : BlockId} {edges : List Edge}
    (h : f.predecessors[b]? = some edges) : edges = f.edgesInto b := by
  rw [predecessors, List.getElem?_map] at h
  obtain ⟨i, hi, rfl⟩ := Option.map_eq_some_iff.1 h
  obtain ⟨hb, rfl⟩ := List.getElem?_eq_some_iff.1 hi
  rw [List.getElem_range]

theorem exists_of_mem_predecessors {edges : List Edge} (h : edges ∈ f.predecessors) :
    ∃ b, edges = f.edgesInto b := by
  obtain ⟨b, hb⟩ := List.mem_iff_getElem?.1 h
  exact ⟨b, getElem?_predecessors hb⟩

/-- **The lists of predecessors are the exact inverse of the terminators**, in every function; and
one pass over its edges fills them. -/
theorem predecessors_inverts (f : FlowGraph) :
    f.Inverts f.predecessors ∧ f.predecessors = f.collected := by
  refine ⟨⟨by simp [predecessors], ?_, ?_, ?_, ?_, ?_, ?_⟩, f.collected_eq.symm⟩
  · intro p b block edges k hblock hedges
    rw [getElem?_predecessors hedges, mem_edgesInto, ← Terminator.leads?_some_iff (p + 1)]
    simp [hblock]
  · intro p b block edges hblock hedges
    rw [getElem?_predecessors hedges, mem_edgesInto, ← Terminator.leads?_none_iff (p + 1)]
    simp [hblock]
  · intro edges hedges e he
    obtain ⟨b, rfl⟩ := exists_of_mem_predecessors hedges
    obtain ⟨block, hblock, -⟩ := mem_edgesInto.1 he
    exact (List.getElem?_eq_some_iff.1 hblock).1
  · intro edges hedges
    obtain ⟨b, rfl⟩ := exists_of_mem_predecessors hedges
    exact (f.pairwise_edgesInto b).imp Edge.Before.ne
  · intro p b block edges hblock hedges
    rw [getElem?_predecessors hedges, List.countP_eq_length_filter, filter_edgesInto b hblock,
      length_edgesFrom]
  · intro edges hedges
    obtain ⟨b, rfl⟩ := exists_of_mem_predecessors hedges
    exact f.pairwise_edgesInto b

example : predecessors ⟨"f", [
    ⟨none, [], .branch [⟨"a", .block 2⟩, ⟨"b", .function 0⟩, ⟨"c", .block 7⟩, ⟨"d", .block 2⟩]⟩,
    ⟨none, [], .call 0⟩,
    ⟨some "x", [], .branch [⟨"e", .block 2⟩]⟩,
    ⟨none, [], .call 0⟩], ⟨0, 0, 0⟩⟩ =
    [[], [], [⟨0, some 0⟩, ⟨0, some 3⟩, ⟨1, none⟩, ⟨2, some 0⟩], []] := by
  decide

end FlowGraph
end Manuscript
