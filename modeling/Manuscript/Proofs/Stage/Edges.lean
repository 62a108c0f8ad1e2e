/-
# Where patches go

Every edge of a function has a slot of its own in the generated code: that of its arm if
its source branches, and else the only one of its source. The slot holds the difference
between the stage at the exit of the source and the stage at the entry of the target, and
nothing besides; a slot that leads to no block of the function is empty. So a block with
several ways to the same target has the same patch in each, and two edges that meet in a
block do not disturb each other.

A block is entered with the stage at the exit of its first predecessor among the blocks
before it, so the edges from there need no patch. Of the others, those that need one are
reported, once each, by target, source and arm.

The slots can be filled in one pass over the edges, target by target, that adds each patch
to its slot (`Generate.compensated`). A step changes one slot and nothing else
(`Generate.compensate_spec`), so a slot holds in the end the patches of the edges that came
for it (`Generate.foldl_compensate_spec`). As no edge comes twice, this is one patch.

Key definitions: `FlowGraph.HasEdge`, `Edge.Before`, `GeneratedFunction.slot?`,
`Generate.compensated`, `Generate.Compensates`.
Key theorems: `FlowGraph.pairwise_edgesInto`, `Generate.Visited.slot?_eq`,
`Generate.Faithful.entry_of_first`, `Generate.patchReports_eq`,
`Generate.Visited.compensated_eq`, `Generate.generate_compensates`.
-/
import Manuscript.Proofs.Stage.InRange
import Manuscript.Proofs.Stage.Patch
import Manuscript.Proofs.Stage.Reported

namespace Manuscript

/-! ### Edges in order -/

/-- The order of edges: by source, and then by arm. -/
def Edge.Before (a b : Edge) : Prop :=
  a.source < b.source ∨
    a.source = b.source ∧ ∃ j k, a.arm = some j ∧ b.arm = some k ∧ j < k

theorem Edge.Before.source_le {a b : Edge} (h : a.Before b) : a.source ≤ b.source := by
  rcases h with h | ⟨h, -⟩
  · exact Nat.le_of_lt h
  · exact Nat.le_of_eq h

theorem Edge.Before.ne {a b : Edge} (h : a.Before b) : a ≠ b := by
  rintro rfl
  rcases h with h | ⟨-, j, k, hj, hk, hlt⟩
  · exact Nat.lt_irrefl _ h
  · rw [hj, Option.some_inj] at hk
    omega

/-- Control goes along the edge to a block of the function. -/
def FlowGraph.HasEdge (f : FlowGraph) (e : Edge) (target : BlockId) : Prop :=
  target < f.blocks.length ∧ ∃ b, f.blocks[e.source]? = some b ∧
    b.terminator.leads? (e.source + 1) e.arm = some target

theorem pairwise_zipIdx {α : Type} (xs : List α) : xs.zipIdx.Pairwise fun a b => a.2 < b.2 := by
  rw [← List.pairwise_map (f := Prod.snd), List.zipIdx_map_snd]
  exact List.pairwise_lt_range'

namespace FlowGraph

variable {f : FlowGraph}

theorem hasEdge_iff {e : Edge} {target : BlockId} :
    f.HasEdge e target ↔ target < f.blocks.length ∧ e ∈ f.edgesInto target :=
  and_congr_right fun _ => mem_edgesInto.symm

/-- An edge leads to one block. -/
theorem HasEdge.target_eq {e : Edge} {a b : BlockId} (ha : f.HasEdge e a) (hb : f.HasEdge e b) :
    a = b := by
  obtain ⟨-, block, hblock, hleads⟩ := ha
  obtain ⟨-, block', hblock', hleads'⟩ := hb
  obtain rfl : block = block' := by simpa [hblock] using hblock'
  simpa [hleads] using hleads'

theorem pairwise_edgesFrom (target i : BlockId) (t : Terminator) :
    (edgesFrom target i t).Pairwise Edge.Before := by
  cases t with
  | branch arms =>
    refine List.Pairwise.filterMap _ ?_ (pairwise_zipIdx arms)
    rintro ⟨a, j⟩ ⟨b, k⟩ hlt e he d hd
    obtain ⟨-, rfl⟩ : a.target = .block target ∧ ⟨i, some j⟩ = e := by simpa using he
    obtain ⟨-, rfl⟩ : b.target = .block target ∧ ⟨i, some k⟩ = d := by simpa using hd
    exact .inr ⟨rfl, j, k, rfl, rfl, hlt⟩
  | call g =>
    simp only [edgesFrom, Terminator.successors, List.filterMap_cons, List.filterMap_nil]
    split <;> simp
  | jump b =>
    simp only [edgesFrom, Terminator.successors, List.filterMap_cons, List.filterMap_nil]
    split <;> simp
  | jumpFunction g => exact .nil
  | ret => exact .nil

/-- **The edges into a block stand in order**, each once. -/
theorem pairwise_edgesInto (f : FlowGraph) (target : BlockId) :
    (f.edgesInto target).Pairwise Edge.Before := by
  refine List.pairwise_flatMap.2 ⟨fun e _ => pairwise_edgesFrom target e.2 e.1.terminator, ?_⟩
  refine (pairwise_zipIdx f.blocks).imp fun {a b} hlt e he d hd => .inl ?_
  rw [(mem_edgesFrom.1 he).1, (mem_edgesFrom.1 hd).1]
  exact hlt

end FlowGraph

/-! ### Slots -/

/-- The patch that is kept for an edge. -/
def GeneratedFunction.slot? (g : GeneratedFunction) (e : Edge) : Option (List Inst) :=
  g.blocks[e.source]? >>= (·.slot? e.arm)

namespace GeneratedBlock

/-- The block with a patch added to a slot, if it has that slot. -/
def extend (b : GeneratedBlock) (patch : List Inst) : Option Nat → GeneratedBlock
  | none => { b with patch := b.patch ++ patch }
  | some k => { b with armPatches := b.armPatches.modify k (· ++ patch) }

/-- The block with nothing in its slots. -/
def bare (b : GeneratedBlock) : GeneratedBlock :=
  { b with patch := [], armPatches := b.armPatches.map fun _ => [] }

theorem slot?_extend (b : GeneratedBlock) (patch : List Inst) (arm other : Option Nat) :
    (b.extend patch arm).slot? other =
      (b.slot? other).map fun held => if arm = other then held ++ patch else held := by
  cases arm with
  | none => cases other <;> simp [extend, slot?]
  | some k =>
    cases other with
    | none => simp [extend, slot?]
    | some j =>
      simp only [extend, slot?, List.getElem?_modify, Option.map_eq_map, Option.some_inj]

theorem bare_extend (b : GeneratedBlock) (patch : List Inst) (arm : Option Nat) :
    (b.extend patch arm).bare = b.bare := by
  cases arm with
  | none => rfl
  | some k => simp only [extend, bare, List.map_const', List.length_modify]

@[simp] theorem bare_bare (b : GeneratedBlock) : b.bare.bare = b.bare := by
  simp [bare]

theorem slot?_bare (b : GeneratedBlock) (arm : Option Nat) :
    b.bare.slot? arm = (b.slot? arm).map fun _ => [] := by
  cases arm with
  | none => rfl
  | some k => exact List.getElem?_map

/-- A block is told by what it is without its patches and by its slots. -/
theorem eq_of_bare_eq {b c : GeneratedBlock} (hbare : b.bare = c.bare)
    (hslots : ∀ arm, b.slot? arm = c.slot? arm) : b = c := by
  have hpatch : b.patch = c.patch := Option.some.inj (hslots none)
  have harms : b.armPatches = c.armPatches := List.ext_getElem? fun k => hslots (some k)
  rcases b with ⟨label, body, patch, terminator, armPatches⟩
  rcases c with ⟨label', body', patch', terminator', armPatches'⟩
  obtain ⟨rfl, rfl, -, rfl, -⟩ := GeneratedBlock.mk.inj hbare
  rw [show patch = patch' from hpatch, show armPatches = armPatches' from harms]

end GeneratedBlock

namespace GeneratedFunction

/-- The function with a patch added to the slot of an edge, if there is one. -/
def extend (g : GeneratedFunction) (e : Edge) (patch : List Inst) : GeneratedFunction :=
  { g with blocks := g.blocks.modify e.source (·.extend patch e.arm) }

/-- The function with nothing in its slots. -/
def bare (g : GeneratedFunction) : GeneratedFunction := { g with blocks := g.blocks.map (·.bare) }

/-- **Adding a patch changes one slot.** -/
theorem slot?_extend (g : GeneratedFunction) (e d : Edge) (patch : List Inst) :
    (g.extend e patch).slot? d =
      (g.slot? d).map fun held => if e = d then held ++ patch else held := by
  rcases e with ⟨source, arm⟩
  rcases d with ⟨source', arm'⟩
  simp only [slot?, extend, List.getElem?_modify, Edge.mk.injEq]
  cases hb : g.blocks[source']? with
  | none => rfl
  | some b =>
    by_cases hsource : source = source'
    · simp [hsource, GeneratedBlock.slot?_extend]
    · simp [hsource]

/-- Adding a patch changes nothing but slots. -/
theorem bare_extend (g : GeneratedFunction) (e : Edge) (patch : List Inst) :
    (g.extend e patch).bare = g.bare := by
  have hblocks : (g.blocks.modify e.source (·.extend patch e.arm)).map (·.bare) =
      g.blocks.map (·.bare) := by
    refine List.ext_getElem? fun i => ?_
    rw [List.getElem?_map, List.getElem?_modify, List.getElem?_map, Option.map_eq_map,
      Option.map_map]
    refine congrArg (g.blocks[i]?.map ·) (funext fun b => ?_)
    by_cases hi : e.source = i <;> simp [hi, GeneratedBlock.bare_extend]
  rw [bare, extend, bare, hblocks]

theorem bare_bare (g : GeneratedFunction) : g.bare.bare = g.bare := by
  simp [bare, Function.comp_def]

theorem slot?_bare (g : GeneratedFunction) (e : Edge) :
    g.bare.slot? e = (g.slot? e).map fun _ => [] := by
  simp only [slot?, bare, List.getElem?_map]
  cases g.blocks[e.source]? with
  | none => rfl
  | some b => exact b.slot?_bare e.arm

theorem eq_of_bare_eq {g h : GeneratedFunction} (hbare : g.bare = h.bare)
    (hslots : ∀ e, g.slot? e = h.slot? e) : g = h := by
  rcases g with ⟨name, bs⟩
  rcases h with ⟨name', cs⟩
  obtain ⟨rfl, hblocks⟩ := GeneratedFunction.mk.inj hbare
  refine congrArg (GeneratedFunction.mk name) (List.ext_getElem? fun i => ?_)
  have hi := congrArg (·[i]?) hblocks
  simp only [List.getElem?_map] at hi
  cases hb : bs[i]? with
  | none =>
    rw [hb, Option.map_none] at hi
    exact (Option.map_eq_none_iff.1 hi.symm).symm
  | some b =>
    rw [hb, Option.map_some] at hi
    obtain ⟨c, hc, hbc⟩ := Option.map_eq_some_iff.1 hi.symm
    have hslot : ∀ arm, b.slot? arm = c.slot? arm := fun arm => by
      have he := hslots ⟨i, arm⟩
      simpa [slot?, hb, hc] using he
    rw [hc, GeneratedBlock.eq_of_bare_eq hbc.symm hslot]

end GeneratedFunction

namespace Generate

variable {p : Program} {policy : ReentrantShow} {f : FlowGraph} {g : GeneratedFunction}
  {visits : List Visit}

theorem Visited.exists_visit (h : Visited p policy f g visits) {i : BlockId}
    (hi : i < f.blocks.length) : ∃ v, visits[i]? = some v :=
  ⟨_, List.getElem?_eq_getElem (h.length ▸ hi)⟩

/-- The slot of an edge holds the patch of that edge. -/
theorem Visited.slot?_eq (h : Visited p policy f g visits) {e : Edge} {target : BlockId}
    (he : f.HasEdge e target) : g.slot? e = some (patchOf visits e.source target) := by
  obtain ⟨-, b, hb, hleads⟩ := he
  rw [GeneratedFunction.slot?, h.blocks, getElem?_blocks visits hb]
  exact slot?_block_of_leads visits b e.source hleads

/-- A slot that is not empty belongs to an edge. -/
theorem Visited.hasEdge_of_slot? (h : Visited p policy f g visits) {e : Edge} {patch : List Inst}
    (hslot : g.slot? e = some patch) (hne : patch ≠ []) : ∃ target, f.HasEdge e target := by
  obtain ⟨c, hc, hpatch⟩ := Option.bind_eq_some_iff.1 hslot
  rw [h.blocks] at hc
  obtain ⟨b, hb, rfl⟩ : ∃ b, f.blocks[e.source]? = some b ∧ block visits b e.source = c := by
    simpa [Generate.blocks] using hc
  rw [slot?_block visits b e.source hpatch] at hne
  cases hleads : b.terminator.leads? (e.source + 1) e.arm with
  | none => simp [hleads] at hne
  | some target =>
    refine ⟨target, ?_, b, hb, hleads⟩
    -- a block that does not exist was not visited, and there is no patch to it
    by_contra hout
    have hnone : visits[target]? = none := by
      rw [List.getElem?_eq_none_iff, h.length]
      exact Nat.le_of_not_lt hout
    refine hne ?_
    rw [hleads, Option.map_some, Option.getD_some, patchOf, hnone]
    split <;> simp_all

theorem patchOf_eq {source target : BlockId} {s t : Visit} (hs : visits[source]? = some s)
    (ht : visits[target]? = some t) : patchOf visits source target = Snapshot.diff t.entry s.exit := by
  rw [patchOf, hs, ht]

/-- What stands first of an ordered list among those with a property has the least source. -/
theorem source_le_of_find? {es : List Edge} (ho : es.Pairwise Edge.Before) {q : Edge → Bool}
    {e d : Edge} (hfind : es.find? q = some d) (he : e ∈ es) (hq : q e = true) :
    d.source ≤ e.source := by
  obtain ⟨-, front, back, rfl, hfront⟩ := List.find?_eq_some_iff_append.1 hfind
  rcases List.mem_append.1 he with he | he
  · simpa [hq] using hfront e he
  · rcases List.mem_cons.1 he with rfl | he
    · exact Nat.le_refl _
    · exact ((List.pairwise_cons.1 (List.pairwise_append.1 ho).2.1).1 e he).source_le

/-- A block is entered with the stage at the exit of its first predecessor, if that stands before
it. -/
theorem Faithful.entry_of_first (h : Faithful p f visits) {e : Edge} {target : BlockId} {s t : Visit}
    (he : e ∈ f.edgesInto target) (hlt : e.source < target)
    (hfirst : ∀ d ∈ f.edgesInto target, e.source ≤ d.source) (hs : visits[e.source]? = some s)
    (ht : visits[target]? = some t) : t.entry = s.exit := by
  rw [(h target t ht).1, entryOf]
  cases hfind : (f.edgesInto target).find? (·.source < target) with
  | none =>
    have hnone := List.find?_eq_none.1 hfind e he
    simp [hlt] at hnone
  | some d =>
    have hle := source_le_of_find? (f.pairwise_edgesInto target) hfind he (by simpa using hlt)
    have hsame : d.source = e.source :=
      Nat.le_antisymm hle (hfirst d (List.mem_of_find?_eq_some hfind))
    dsimp only
    rw [hsame, List.getElem?_take_of_lt hlt, hs]
    rfl

/-! ### Reports -/

/-- The order of the reports of patches: by target, and then by edge. -/
def Precedes (a b : Edge × BlockId) : Prop := a.2 < b.2 ∨ a.2 = b.2 ∧ a.1.Before b.1

/-- The report of a patch on an edge. -/
def mergeReport (f : FlowGraph) (e : Edge) (target : BlockId) (patch : List Inst) : Diagnostic :=
  .make .stateMergeCompensated
    [("count", toString patch.length), ("from", blockName f e.source), ("to", blockName f target)]
    (some f.loc)

/-- The edges of a function with their targets, target by target. -/
def incoming (f : FlowGraph) : List (Edge × BlockId) :=
  (List.range f.blocks.length).flatMap fun b => (f.edgesInto b).map fun e => (e, b)

theorem mem_incoming {e : Edge} {target : BlockId} :
    (e, target) ∈ incoming f ↔ f.HasEdge e target := by
  rw [FlowGraph.hasEdge_iff]
  simp [incoming]

theorem pairwise_incoming (f : FlowGraph) : (incoming f).Pairwise Precedes := by
  refine List.pairwise_flatMap.2 ⟨fun b _ => List.pairwise_map.2 ?_, ?_⟩
  · exact (f.pairwise_edgesInto b).imp fun hbefore => .inr ⟨rfl, hbefore⟩
  · refine List.pairwise_lt_range.imp fun hlt x hx y hy => .inl ?_
    obtain ⟨-, -, rfl⟩ := List.mem_map.1 hx
    obtain ⟨-, -, rfl⟩ := List.mem_map.1 hy
    exact hlt

/-- The edges that have a patch, with their targets. -/
def patchedEdges (f : FlowGraph) (visits : List Visit) : List (Edge × BlockId) :=
  (incoming f).filter fun x => !(patchOf visits x.1.source x.2).isEmpty

theorem patchReport_eq (f : FlowGraph) (visits : List Visit) (target : BlockId) (e : Edge) :
    patchReport f visits target e =
      if !(patchOf visits e.source target).isEmpty
      then some (mergeReport f e target (patchOf visits e.source target)) else none := by
  unfold patchReport
  cases hpatch : patchOf visits e.source target with
  | nil => rfl
  | cons i is => rfl

theorem filterMap_patchReport (f : FlowGraph) (visits : List Visit) :
    ∀ xs : List (Edge × BlockId), (xs.filterMap fun x => patchReport f visits x.2 x.1) =
      (xs.filter fun x => !(patchOf visits x.1.source x.2).isEmpty).map fun x =>
        mergeReport f x.1 x.2 (patchOf visits x.1.source x.2)
  | [] => rfl
  | x :: xs => by
    rw [List.filterMap_cons, patchReport_eq, List.filter_cons, filterMap_patchReport f visits xs]
    split <;> simp_all

theorem patchReports_eq_filterMap (f : FlowGraph) (visits : List Visit) :
    patchReports f visits = (incoming f).filterMap fun x => patchReport f visits x.2 x.1 := by
  rw [patchReports, incoming, List.filterMap_flatMap]
  refine List.flatMap_congr fun b _ => ?_
  rw [List.filterMap_map]
  rfl

/-- The reports of patches are those of the edges that have one. -/
theorem patchReports_eq (f : FlowGraph) (visits : List Visit) : patchReports f visits =
    (patchedEdges f visits).map fun x => mergeReport f x.1 x.2 (patchOf visits x.1.source x.2) := by
  rw [patchReports_eq_filterMap, filterMap_patchReport]
  rfl

theorem mem_patchedEdges {e : Edge} {target : BlockId} : (e, target) ∈ patchedEdges f visits ↔
    f.HasEdge e target ∧ patchOf visits e.source target ≠ [] := by
  rw [patchedEdges, List.mem_filter, mem_incoming]
  simp

/-! ### One pass over the edges -/

/-- The code of a visited block before it has patches: a slot is there for each way out. -/
def vacant (visits : List Visit) (b : BasicBlock) (i : BlockId) : GeneratedBlock :=
  { label := b.label
    body := (visits[i]?.map (·.body)).getD []
    patch := []
    terminator := b.terminator
    armPatches := match b.terminator with
      | .branch arms => arms.map fun _ => []
      | _ => [] }

theorem bare_block (visits : List Visit) (b : BasicBlock) (i : BlockId) :
    (block visits b i).bare = vacant visits b i := by
  rcases b with ⟨label, insts, t⟩
  cases t <;> simp [block, vacant, GeneratedBlock.bare, armPatches, Function.comp_def]

/-- Adds the patch of an edge to its slot and reports it; an edge that needs no patch is passed
over. -/
def compensate (f : FlowGraph) (visits : List Visit)
    (done : GeneratedFunction × List Diagnostic) (x : Edge × BlockId) :
    GeneratedFunction × List Diagnostic :=
  match patchOf visits x.1.source x.2 with
  | [] => done
  | patch => (done.1.extend x.1 patch, done.2 ++ [mergeReport f x.1 x.2 patch])

/-- The function and the reports after a pass over the edges into its blocks. -/
def compensated (f : FlowGraph) (visits : List Visit) : GeneratedFunction × List Diagnostic :=
  (incoming f).foldl (compensate f visits)
    (⟨f.name, f.blocks.zipIdx.map fun x => vacant visits x.1 x.2⟩, [])

/-- **What one edge adds**: its patch to its own slot, and its report. -/
theorem compensate_spec (f : FlowGraph) (visits : List Visit)
    (done : GeneratedFunction × List Diagnostic) (x : Edge × BlockId) :
    (compensate f visits done x).1.bare = done.1.bare ∧
      (∀ e, (compensate f visits done x).1.slot? e = (done.1.slot? e).map fun held =>
        if x.1 = e then held ++ patchOf visits x.1.source x.2 else held) ∧
      (compensate f visits done x).2 = done.2 ++ (patchReport f visits x.2 x.1).toList := by
  rw [compensate, patchReport_eq]
  cases hpatch : patchOf visits x.1.source x.2 with
  | nil => simp
  | cons i is => exact ⟨done.1.bare_extend _ _, fun e => done.1.slot?_extend _ e _, rfl⟩

/-- What a pass adds: to each slot the patches of its edges, and the reports of all. -/
theorem foldl_compensate_spec (f : FlowGraph) (visits : List Visit) :
    ∀ (xs : List (Edge × BlockId)) (done : GeneratedFunction × List Diagnostic),
      (xs.foldl (compensate f visits) done).1.bare = done.1.bare ∧
        (∀ e, (xs.foldl (compensate f visits) done).1.slot? e =
          (done.1.slot? e).map (· ++ (xs.filter (·.1 == e)).flatMap fun x =>
            patchOf visits x.1.source x.2)) ∧
        (xs.foldl (compensate f visits) done).2 =
          done.2 ++ xs.filterMap fun x => patchReport f visits x.2 x.1
  | [], done => by simp
  | x :: xs, done => by
    obtain ⟨hbare, hslots, hreports⟩ := compensate_spec f visits done x
    obtain ⟨ihbare, ihslots, ihreports⟩ :=
      foldl_compensate_spec f visits xs (compensate f visits done x)
    rw [List.foldl_cons]
    refine ⟨ihbare.trans hbare, fun e => ?_, ?_⟩
    · rw [ihslots, hslots, Option.map_map]
      refine congrArg ((done.1.slot? e).map ·) (funext fun held => ?_)
      by_cases hx : x.1 = e <;> simp [hx]
    · rw [ihreports, hreports, List.filterMap_cons]
      cases patchReport f visits x.2 x.1 <;> simp

/-- An edge comes in a pass once, if there is such an edge. -/
theorem filter_incoming (f : FlowGraph) (e : Edge) :
    ((incoming f).filter (·.1 == e) = [] ∧ ∀ target, ¬ f.HasEdge e target) ∨
      ∃ target, (incoming f).filter (·.1 == e) = [(e, target)] ∧ f.HasEdge e target := by
  have hmem : ∀ x ∈ (incoming f).filter (·.1 == e), x.1 = e ∧ f.HasEdge e x.2 := fun x hx => by
    obtain ⟨hin, he⟩ := List.mem_filter.1 hx
    have he : x.1 = e := by simpa using he
    exact ⟨he, he ▸ mem_incoming.1 hin⟩
  have horder := (pairwise_incoming f).filter (·.1 == e)
  have hcomes : ∀ target, f.HasEdge e target →
      (e, target) ∈ (incoming f).filter (·.1 == e) := fun target hedge =>
    List.mem_filter.2 ⟨mem_incoming.2 hedge, by simp⟩
  generalize (incoming f).filter (·.1 == e) = xs at hmem horder hcomes
  match xs with
  | [] => exact .inl ⟨rfl, fun target hedge => by cases hcomes target hedge⟩
  | [x] =>
    obtain ⟨rfl, hx⟩ := hmem x List.mem_cons_self
    exact .inr ⟨x.2, rfl, hx⟩
  | x :: y :: _ =>
    -- two entries of the edge have the same target, so the one edge would stand before itself
    obtain ⟨hxe, hx⟩ := hmem x (by simp)
    obtain ⟨hye, hy⟩ := hmem y (by simp)
    rcases (List.pairwise_cons.1 horder).1 y (by simp) with hlt | ⟨-, hbefore⟩
    · exact absurd (hx.target_eq hy) (Nat.ne_of_lt hlt)
    · exact absurd (hxe.trans hye.symm) hbefore.ne

/-- A slot holds the patches of the edges that come for it in a pass. -/
theorem Visited.slot?_eq_flatMap (h : Visited p policy f g visits) {e : Edge} {patch : List Inst}
    (hslot : g.slot? e = some patch) :
    (((incoming f).filter (·.1 == e)).flatMap fun x => patchOf visits x.1.source x.2) = patch := by
  rcases filter_incoming f e with ⟨hnil, hnone⟩ | ⟨target, hone, hedge⟩
  · have hempty : patch = [] := by
      by_contra hne
      obtain ⟨target, hedge⟩ := h.hasEdge_of_slot? hslot hne
      exact hnone target hedge
    rw [hnil, hempty]
    rfl
  · rw [hone, List.flatMap_singleton]
    exact Option.some.inj ((h.slot?_eq hedge).symm.trans hslot)

/-- **One pass over the edges fills the slots**, and reports what it fills them with. -/
theorem Visited.compensated_eq (h : Visited p policy f g visits) :
    compensated f visits = (g, patchReports f visits) := by
  have hvacant : ⟨f.name, f.blocks.zipIdx.map fun x => vacant visits x.1 x.2⟩ = g.bare := by
    rw [GeneratedFunction.bare, h.name, h.blocks, Generate.blocks, List.map_map]
    simp only [Function.comp_def, bare_block]
  obtain ⟨hbare, hslots, hreports⟩ := foldl_compensate_spec f visits (incoming f) (g.bare, [])
  rw [compensated, hvacant]
  refine Prod.ext (GeneratedFunction.eq_of_bare_eq (hbare.trans g.bare_bare) fun e => ?_) ?_
  · rw [hslots, g.slot?_bare, Option.map_map]
    cases hslot : g.slot? e with
    | none => rfl
    | some patch => exact congrArg some (h.slot?_eq_flatMap hslot)
  · rw [hreports, patchReports_eq_filterMap]
    rfl

/-- The reports of patches among all reports of a function. -/
theorem WalkedThrough.filter_reports {reports : List Diagnostic} {xs : List Passage}
    (h : WalkedThrough p policy f g reports xs) :
    reports.filter (·.code == .stateMergeCompensated) = patchReports f (xs.map (·.visit)) := by
  obtain ⟨w, w', -, hwalk⟩ := h.walk
  have hturns : ((turnsOf xs).flatMap (·.reports)).filter (·.code == .stateMergeCompensated) = [] := by
    refine List.filter_eq_nil_iff.2 fun d hd hcode => ?_
    exact hwalk.trail.not_holds_merge ⟨d, hd, by simpa using hcode⟩
  have hpatches : (patchReports f (xs.map (·.visit))).filter (·.code == .stateMergeCompensated) =
      patchReports f (xs.map (·.visit)) := by
    refine List.filter_eq_self.2 fun d hd => ?_
    rw [patchReports_eq] at hd
    obtain ⟨x, -, rfl⟩ := List.mem_map.1 hd
    rfl
  rw [h.reports, List.filter_append, hturns, hpatches, List.nil_append]

/-- Compensation goes where it is needed. Every block was visited, and with the stages at the
entries and exits of the visits:

* the slot of an edge holds the difference between the exit of its source and the entry of its
  target, and a slot of no edge holds nothing;
* the edges from the first predecessor of a block, if that stands before the block, have an empty
  patch;
* the patches that are not empty are reported, once each, by target, source and arm;
* a pass over the edges, which adds each patch to its slot and reports it, gives the function
  and these reports. -/
structure Compensates (f : FlowGraph) (g : GeneratedFunction) (visits : List Visit)
    (reports : List Diagnostic) : Prop where
  visited : visits.length = f.blocks.length
  patches : ∀ e target s t, f.HasEdge e target → visits[e.source]? = some s →
    visits[target]? = some t → g.slot? e = some (Snapshot.diff t.entry s.exit)
  elsewhere : ∀ e patch, g.slot? e = some patch → patch ≠ [] → ∃ target, f.HasEdge e target
  first : ∀ e target, f.HasEdge e target → e.source < target →
    (∀ d, f.HasEdge d target → e.source ≤ d.source) → g.slot? e = some []
  reported : ∃ edges : List (Edge × BlockId), edges.Pairwise Precedes ∧
    (∀ e target, (e, target) ∈ edges ↔ f.HasEdge e target ∧ g.slot? e ≠ some []) ∧
    reports.filter (·.code == .stateMergeCompensated) =
      edges.map fun x => mergeReport f x.1 x.2 ((g.slot? x.1).getD [])
  pass : compensated f visits = (g, reports.filter (·.code == .stateMergeCompensated))

theorem Visited.slot?_of_first (h : Visited p policy f g visits) {e : Edge} {target : BlockId}
    (he : f.HasEdge e target) (hlt : e.source < target)
    (hfirst : ∀ d, f.HasEdge d target → e.source ≤ d.source) : g.slot? e = some [] := by
  obtain ⟨t, ht⟩ := h.exists_visit he.1
  obtain ⟨s, hs⟩ := h.exists_visit (Nat.lt_trans hlt he.1)
  have hentry : t.entry = s.exit :=
    h.faithful.entry_of_first (FlowGraph.hasEdge_iff.1 he).2 hlt
      (fun d hd => hfirst d (FlowGraph.hasEdge_iff.2 ⟨he.1, hd⟩)) hs ht
  rw [h.slot?_eq he, patchOf_eq hs ht, hentry, Snapshot.diff_self]

theorem Visited.compensates (h : Visited p policy f g visits) {reports : List Diagnostic}
    (hreports : reports.filter (·.code == .stateMergeCompensated) = patchReports f visits) :
    Compensates f g visits reports where
  visited := h.length
  patches e target s t he hs ht := by rw [h.slot?_eq he, patchOf_eq hs ht]
  elsewhere _ _ := h.hasEdge_of_slot?
  first _ _ := h.slot?_of_first
  reported := by
    refine ⟨patchedEdges f visits, (pairwise_incoming f).filter _, fun e target => ?_, ?_⟩
    · rw [mem_patchedEdges]
      refine and_congr_right fun he => ?_
      rw [h.slot?_eq he, Ne, Ne, Option.some_inj]
    · rw [hreports, patchReports_eq]
      refine List.map_congr_left fun x hx => ?_
      rw [h.slot?_eq (mem_patchedEdges.1 hx).1, Option.getD_some]
  pass := by rw [h.compensated_eq, hreports]

/-- **Compensation goes exactly where it is needed.** A program whose characters are in range is
generated; and for every program that is generated, each of its functions is compensated edge by
edge, with the stages at which generation entered and left the blocks. -/
theorem generate_compensates (p : Program) (s : CodegenSettings) :
    (p.CharactersInRange → ∃ g, generate p s = .ok g) ∧
      ∀ g, generate p s = .ok g → Each (fun f h reports => ∃ visits,
        Visited p s.reentrantShow f h visits ∧ Compensates f h visits reports)
          p.functions g.functions g.diags := by
  refine ⟨fun hp => exists_generate hp s, fun g hg => (each_walkedThrough hg).imp ?_⟩
  rintro f h reports ⟨xs, hxs⟩
  exact ⟨xs.map (·.visit), hxs.code, hxs.code.compensates hxs.filter_reports⟩

/-- A block that offers the same target twice, and a target that leads back to itself. -/
def crossing : Program :=
  { title := ""
    characters := [{ Character.ofName "A" with
      sprites := (SpriteTree.empty.insert (.file "1") ["calm"]).insert (.file "2") ["angry"] }]
    scenes := []
    images := []
    functions := [⟨"f", [
      ⟨none, [], .branch [⟨"here", .block 2⟩, ⟨"there", .block 1⟩, ⟨"anyway", .block 2⟩]⟩,
      ⟨some "there", [⟨.showCharacter 0 [], ⟨1, 0, 0⟩⟩], .jump 2⟩,
      ⟨some "here", [⟨.showCharacter 0 ["angry"], ⟨2, 0, 0⟩⟩],
        .branch [⟨"again", .block 2⟩, ⟨"away", .function 0⟩]⟩], ⟨0, 0, 0⟩⟩] }

theorem crossing_compensates : crossing.CharactersInRange ∧
    (∀ f ∈ crossing.functions, f.HasEdge ⟨0, some 0⟩ 2 ∧ f.HasEdge ⟨0, some 2⟩ 2 ∧
      f.HasEdge ⟨1, none⟩ 2 ∧ f.HasEdge ⟨2, some 0⟩ 2) ∧
    ∃ g, generate crossing {} = .ok g ∧ Each (fun f h reports => ∃ visits,
      Visited crossing .reject f h visits ∧ Compensates f h visits reports)
        crossing.functions g.functions g.diags := by
  have hin : crossing.CharactersInRange := by decide
  obtain ⟨g, hg⟩ := (generate_compensates crossing {}).1 hin
  refine ⟨hin, fun f hf => ?_, g, hg, (generate_compensates crossing {}).2 g hg⟩
  rw [List.mem_singleton.1 hf]
  exact ⟨⟨by decide, _, rfl, rfl⟩, ⟨by decide, _, rfl, rfl⟩, ⟨by decide, _, rfl, rfl⟩,
    ⟨by decide, _, rfl, rfl⟩⟩

end Generate
end Manuscript
