/-
# Labels of a script

No two labels of a script are equal, and every jump and every call goes to one that
the script sets: that of the function, or that of the block, which it is meant to go
to.

A label is set where a block is written and named where a terminator is, and the two
places make its text apart from each other. They agree since only blocks with a label
are jumped to, and never the first block, which is written under the name of its
function. Labels differ since identifiers do and can be read back from them.

Key definitions: `GeneratedFunction.Wired`, `Script.Heads`, `Script.LabelsClosed`.
Key theorems: `Generate.Visited.wired`, `Script.labelsOf_chapters`,
`Script.nodup_scriptLabels`, `Script.AllWritten.headsTarget`, `compile_labelsClosed`.
-/
import Manuscript.Proofs.Script.Names
import Manuscript.Proofs.Script.Written
import Manuscript.Proofs.Total

namespace Manuscript

/-! ### Functions whose targets can be written -/

/-- The functions and blocks that a terminator names. -/
def Terminator.targets : Terminator → List Target
  | .jumpFunction g | .call g => [.function g]
  | .jump b => [.block b]
  | .branch arms => arms.map (·.target)
  | .ret => []

theorem Terminator.mem_targets_of_mem_transfers {i : BlockId} {t : Terminator} {x : Target}
    (h : x ∈ t.transfers i) : x ∈ t.targets := by
  cases t with
  | jump b =>
    by_cases hb : b = i + 1
    · simp [transfers, hb] at h
    · simpa [transfers, targets, hb] using h
  | _ => exact h

namespace GeneratedFunction

/-- The target is a block of the function with a label, or one of the first `functions`
functions. -/
def Has (f : GeneratedFunction) (functions : Nat) : Target → Prop
  | .block b => ∃ block, f.blocks[b]? = some block ∧ block.label.isSome = true
  | .function g => g < functions

/-- The blocks of a function can be written one after the other: the first has no label, no two
have the same, terminators lead to blocks with labels and to functions that there are, a call has
a block to continue in, and a branch has its patches in its arms. -/
structure Wired (functions : Nat) (f : GeneratedFunction) : Prop where
  nonempty : f.blocks ≠ []
  entry : ∀ b, f.blocks[0]? = some b → b.label = none
  labels_nodup : (f.blocks.filterMap (·.label)).Nodup
  leads : ∀ b ∈ f.blocks, ∀ t ∈ b.terminator.targets, f.Has functions t
  continues : ∀ (i : BlockId) b g, f.blocks[i]? = some b → b.terminator = .call g →
    i + 1 < f.blocks.length
  arms : ∀ b ∈ f.blocks, ∀ arms, b.terminator = .branch arms →
    b.patch = [] ∧ b.armPatches.length = arms.length

end GeneratedFunction

namespace FlowGraph

variable {table : SymbolTable} {all : List Procedure} {q : Procedure} {f : FlowGraph}

/-- What a well-formed graph leads to: blocks with labels, and functions that there are. -/
theorem WellFormed.leads (h : WellFormed table q f) (htable : table.Lists all) {b : BasicBlock}
    (hb : b ∈ f.blocks) : ∀ t ∈ b.terminator.targets, match t with
      | .block i => ∃ name, f.labelAt? i = some name
      | .function id => id < all.length := by
  obtain ⟨c, hends⟩ := exists_ends h.ends b.terminator (List.mem_map_of_mem hb)
  have hleads : ∀ {name t}, Leads table q f name t → match t with
      | .block i => ∃ name, f.labelAt? i = some name
      | .function id => id < all.length := fun hl => by
    cases hl with
    | block hlabel => exact ⟨_, hlabel⟩
    | function _ hfound => exact htable.lt hfound
  intro t ht
  generalize b.terminator = term at hends ht
  cases hends with
  | fall _ hlabel =>
    obtain rfl := List.mem_singleton.1 ht
    exact ⟨_, hlabel⟩
  | jump _ hl =>
    obtain rfl := List.mem_singleton.1 ht
    exact hleads hl
  | jumpFunction _ hl =>
    obtain rfl := List.mem_singleton.1 ht
    exact hleads hl
  | call _ hfound =>
    obtain rfl := List.mem_singleton.1 ht
    exact htable.lt hfound
  | branch _ hoffers =>
    obtain ⟨a, ha, rfl⟩ := List.mem_map.1 ht
    obtain ⟨name, hl⟩ := hoffers.leads a ha
    exact hleads hl
  | _ => cases ht

end FlowGraph

namespace Generate

variable {p : Program} {policy : ReentrantShow} {f : FlowGraph} {g : GeneratedFunction}
  {visits : List Visit}

theorem Visited.getElem?_blocks (h : Visited p policy f g visits) {i : BlockId}
    {c : GeneratedBlock} (hc : g.blocks[i]? = some c) :
    ∃ b, f.blocks[i]? = some b ∧ c = block visits b i := by
  rw [h.blocks, Generate.blocks, List.getElem?_map] at hc
  obtain ⟨⟨b, j⟩, hb, rfl⟩ := Option.map_eq_some_iff.1 hc
  rw [List.getElem?_zipIdx] at hb
  obtain ⟨b', hb', he⟩ := Option.map_eq_some_iff.1 hb
  cases he
  exact ⟨b, hb', by simp⟩

theorem Visited.labels (h : Visited p policy f g visits) :
    g.blocks.filterMap (·.label) = f.blocks.filterMap (·.label) := by
  have hlabel : ((·.label) ∘ fun e : BasicBlock × Nat => block visits e.1 e.2) =
      (·.label) ∘ Prod.fst := rfl
  rw [h.blocks, Generate.blocks, List.filterMap_map, hlabel, ← List.filterMap_map,
    List.zipIdx_map_fst]

theorem Visited.terminators (h : Visited p policy f g visits) :
    g.blocks.map (·.terminator) = f.blocks.map (·.terminator) := by
  have hterm : ((·.terminator) ∘ fun e : BasicBlock × Nat => block visits e.1 e.2) =
      (·.terminator) ∘ Prod.fst := rfl
  rw [h.blocks, Generate.blocks, List.map_map, hterm, ← List.map_map, List.zipIdx_map_fst]

/-- The blocks of generated code have the labels and the terminators of the program. -/
theorem exists_block_of_visited {gs : List GeneratedFunction}
    (h : List.Forall₂ (fun f g => ∃ visits, Visited p policy f g visits) p.functions gs)
    {id : FunctionId} {i : BlockId} {b : BasicBlock} (hf : p.functions[id]? = some f)
    (hb : f.blocks[i]? = some b) : ∃ g c, gs[id]? = some g ∧ g.blocks[i]? = some c ∧
      c.label = b.label ∧ c.terminator = b.terminator := by
  obtain ⟨hlt, rfl⟩ := List.getElem?_eq_some_iff.1 hf
  have hlt' : id < gs.length := h.length_eq ▸ hlt
  obtain ⟨visits, hv⟩ := h.get hlt hlt'
  refine ⟨_, block visits b i, List.getElem?_eq_getElem hlt', ?_, rfl, rfl⟩
  rw [show gs[id].blocks = _ from hv.blocks]
  exact Generate.getElem?_blocks visits hb

/-- **The code of a well-formed graph can be written.** -/
theorem Visited.wired {table : SymbolTable} {all : List Procedure} {q : Procedure}
    (h : Visited p policy f g visits) (hf : f.WellFormed table q) (htable : table.Lists all) :
    g.Wired all.length := by
  have hmem : ∀ c ∈ g.blocks, ∃ i b, f.blocks[i]? = some b ∧ c = block visits b i := by
    intro c hc
    obtain ⟨i, hi⟩ := List.mem_iff_getElem?.1 hc
    obtain ⟨b, hb, hblock⟩ := h.getElem?_blocks hi
    exact ⟨i, b, hb, hblock⟩
  have hlength : g.blocks.length = f.blocks.length := by
    rw [h.blocks, Generate.blocks, List.length_map, List.length_zipIdx]
  constructor
  case nonempty =>
    intro hnil
    rw [hnil] at hlength
    exact hf.nonempty (List.eq_nil_of_length_eq_zero hlength.symm)
  case entry =>
    intro c hc
    obtain ⟨b, hb, rfl⟩ := h.getElem?_blocks hc
    have hentry := hf.entry_label
    rwa [FlowGraph.labelAt?, hb] at hentry
  case labels_nodup =>
    rw [h.labels]
    exact hf.labels_nodup
  case leads =>
    intro c hc t ht
    obtain ⟨i, b, hb, rfl⟩ := hmem c hc
    have hleads := hf.leads htable (List.mem_of_getElem? hb) t ht
    cases t with
    | function id => exact hleads
    | block j =>
      obtain ⟨name, hname⟩ := hleads
      obtain ⟨b', hb', hlabel⟩ := Option.bind_eq_some_iff.1 hname
      refine ⟨block visits b' j, ?_, ?_⟩
      · rw [h.blocks]
        exact Generate.getElem?_blocks visits hb'
      · rw [block, hlabel]
        rfl
  case continues =>
    intro i c id hc hterm
    obtain ⟨b, hb, rfl⟩ := h.getElem?_blocks hc
    rw [hlength]
    exact hf.continues i b id hb hterm
  case arms =>
    intro c hc arms hterm
    obtain ⟨i, b, hb, rfl⟩ := hmem c hc
    have hterm : b.terminator = .branch arms := hterm
    simp [block, hterm, exitPatch, armPatches]

/-- The generated functions of a program that was lowered can be written. -/
theorem wired_of_visited {all : List Procedure} {gs : List GeneratedFunction}
    (h : List.Forall₂ (fun f g => ∃ visits, Visited p policy f g visits)
      (FlowGraph.build all).1 gs) : ∀ g ∈ gs, g.Wired gs.length := by
  have hlength : all.length = gs.length := by
    rw [← h.length_eq]
    simp [FlowGraph.build]
  intro g hg
  obtain ⟨f, hf, visits, hvisited⟩ := exists_of_mem_forall₂ h hg
  obtain ⟨q, -, rfl⟩ := FlowGraph.exists_of_mem_build hf
  rw [← hlength]
  exact hvisited.wired (FlowGraph.wellFormed_cut _ q) (SymbolTable.lists_of all)

end Generate

namespace Script

variable {p : Program} {g : Generated} {s : CodegenSettings} {n : Names} {id : FunctionId}
  {f : GeneratedFunction} {blocks : List (List Line)}

/-! ### The labels of a function -/

theorem labelsOf_flatten (parts : List (List Line)) :
    labelsOf parts.flatten = parts.flatMap labelsOf := by
  rw [labelsOf, List.filterMap_flatten, List.flatMap_def]
  rfl

theorem targetsOf_flatten (parts : List (List Line)) :
    targetsOf parts.flatten = parts.flatMap targetsOf := by
  rw [targetsOf, List.filterMap_flatten, List.flatMap_def]
  rfl

/-- The labels of the blocks of a function, as they are written. -/
def functionLabels (n : Names) (id : FunctionId) (f : GeneratedFunction) : List String :=
  n.functions[id]?.getD "" :: (f.blocks.filterMap (·.label)).map (n.labelName id)

theorem labelsOf_chapter (h : FunctionWritten s n id f blocks) : labelsOf (chapter blocks) =
    f.blocks.zipIdx.flatMap fun e => (blockLabel? n id e.2 e.1).toList := by
  have hblocks : ∀ {es : List (GeneratedBlock × BlockId)} {blocks : List (List Line)},
      List.Forall₂ (fun e ls => blockLines s n id f e.1 e.2 = .ok ls) es blocks →
        blocks.flatMap labelsOf = es.flatMap fun e => (blockLabel? n id e.2 e.1).toList := by
    intro es blocks h
    induction h with
    | nil => rfl
    | cons hfirst _ ih =>
      obtain ⟨sts, out, hwritten⟩ := blockWritten_of_ok hfirst
      rw [List.flatMap_cons, List.flatMap_cons, labelsOf_block hwritten, ih]
  rw [chapter, labelsOf_append, labelsOf_flatten, hblocks h]
  exact List.append_nil _

/-- Behind the first block the labels are those of the blocks. -/
theorem flatMap_blockLabel? (n : Names) (id : FunctionId) : ∀ (bs : List GeneratedBlock) (i : Nat),
    (bs.zipIdx (i + 1)).flatMap (fun e => (blockLabel? n id e.2 e.1).toList) =
      (bs.filterMap (·.label)).map (n.labelName id)
  | [], _ => rfl
  | b :: bs, i => by
    have ih := flatMap_blockLabel? n id bs (i + 1)
    rw [List.zipIdx_cons, List.flatMap_cons, ih, blockLabel?, if_neg (Nat.succ_ne_zero i),
      Names.label?_eq]
    cases hlabel : b.label <;> simp [hlabel]

theorem labelsOf_function {functions : Nat} (hf : f.Wired functions)
    (h : FunctionWritten s n id f blocks) : labelsOf (chapter blocks) = functionLabels n id f := by
  rw [labelsOf_chapter h, functionLabels]
  cases hblocks : f.blocks with
  | nil => exact absurd hblocks hf.nonempty
  | cons b bs =>
    have hentry : b.label = none := hf.entry b (by simp [hblocks])
    rw [List.zipIdx_cons, List.flatMap_cons, flatMap_blockLabel?, List.filterMap_cons, hentry]
    rfl

/-! ### The labels of a script differ -/

/-- A label of a function starts with the function's identifier. -/
theorem exists_join_of_mem (hf : g.functions[id]? = some f) {name label : String}
    (hname : (Names.of p g).functions[id]? = some name) (hplain : Identifier.Plain name.toList)
    (h : label ∈ functionLabels (Names.of p g) id f) :
    ∃ rest, label = Text.join (String.singleton '.') (name :: rest) ∧
      ∀ part ∈ name :: rest, '.' ∉ part.toList := by
  rw [functionLabels, hname] at h
  rcases List.mem_cons.1 h with rfl | h
  · exact ⟨[], rfl, by simpa using plain_stop hplain⟩
  · obtain ⟨l, -, rfl⟩ := List.mem_map.1 h
    refine ⟨_, Names.labelName_eq_join hf hname l, ?_⟩
    simpa using ⟨plain_stop hplain, plain_stop (plain_identifierOf _ l)⟩

/-- The labels of a function differ. -/
theorem nodup_functionLabels (hf : g.functions[id]? = some f) {functions : Nat}
    (hwired : f.Wired functions) : (functionLabels (Names.of p g) id f).Nodup := by
  obtain ⟨name, hname, hplain⟩ := Names.functions_of (p := p) hf
  have hstop : ∀ l, ∀ part ∈
      [name, identifierOf (pairUp (f.blocks.filterMap (·.label))) l], '.' ∉ part.toList := by
    intro l
    simpa using ⟨plain_stop hplain, plain_stop (plain_identifierOf _ l)⟩
  rw [functionLabels, hname]
  refine List.nodup_cons.2 ⟨fun hmem => ?_, ?_⟩
  · obtain ⟨l, -, hl⟩ := List.mem_map.1 hmem
    rw [Names.labelName_eq_join hf hname] at hl
    have hparts := Text.join_injective (List.cons_ne_nil _ _) (List.cons_ne_nil name []) (hstop l)
      (by simpa using plain_stop hplain) hl
    simp at hparts
  · refine List.Nodup.map_on (fun a ha b hb hab => ?_) hwired.labels_nodup
    rw [Names.labelName_eq_join hf hname, Names.labelName_eq_join hf hname] at hab
    have hparts := Text.join_injective (List.cons_ne_nil _ _) (List.cons_ne_nil _ _) (hstop a)
      (hstop b) hab
    exact identifierOf_inj ha hb (by simpa using hparts)

/-- The labels of all functions in turn. -/
def scriptLabels (n : Names) (fs : List GeneratedFunction) : List String :=
  fs.zipIdx.flatMap fun e => functionLabels n e.2 e.1

/-- **The labels of a script differ.** -/
theorem nodup_scriptLabels (h : ∀ f ∈ g.functions, f.Wired g.functions.length) :
    (scriptLabels (Names.of p g) g.functions).Nodup := by
  have hget : ∀ e ∈ g.functions.zipIdx, g.functions[e.2]? = some e.1 := fun e he =>
    List.mem_zipIdx_iff_getElem?.1 he
  have hplaces : g.functions.zipIdx.Pairwise fun e e' => e.2 ≠ e'.2 := by
    have hnodup := List.nodup_range' (s := 0) (n := g.functions.length)
    rw [← List.zipIdx_map_snd] at hnodup
    exact List.pairwise_map.1 hnodup
  refine List.nodup_flatMap.2 ⟨fun e he => ?_, hplaces.imp_of_mem fun he he' hne => ?_⟩
  · exact nodup_functionLabels (hget e he) (h e.1 (List.mem_of_getElem? (hget e he)))
  · intro label hlabel hlabel'
    obtain ⟨name, hname, hplain⟩ := Names.functions_of (p := p) (hget _ he)
    obtain ⟨name', hname', hplain'⟩ := Names.functions_of (p := p) (hget _ he')
    obtain ⟨rest, rfl, hstop⟩ := exists_join_of_mem (hget _ he) hname hplain hlabel
    obtain ⟨rest', hjoin, hstop'⟩ := exists_join_of_mem (hget _ he') hname' hplain' hlabel'
    have hparts := Text.join_injective (List.cons_ne_nil _ _) (List.cons_ne_nil _ _) hstop hstop'
      hjoin
    obtain rfl : name = name' := (List.cons.inj hparts).1
    have hlt := (List.getElem?_eq_some_iff.1 hname).1
    exact hne ((List.getElem?_inj hlt (Names.nodup_functions p g)).1 (by rw [hname, hname']))

/-! ### The preamble -/

/-- Nothing before the functions sets a label or goes to one. -/
theorem preamble_aside (p : Program) (g : Generated) (s : CodegenSettings) (n : Names) :
    ∀ l ∈ preamble p g s n, l.statement.label? = none ∧ l.statement.target? = none := by
  have hclosed : ∀ {ls : List Line},
      (∀ l ∈ ls, l.statement.label? = none ∧ l.statement.target? = none) →
        ∀ l ∈ closed ls, l.statement.label? = none ∧ l.statement.target? = none := by
    intro ls h
    unfold closed
    split
    · simp
    · exact List.forall_mem_append.2 ⟨h, by simp [Statement.label?, Statement.target?]⟩
  have himage : ∀ st ∈ images p g s n, st.label? = none ∧ st.target? = none := by
    intro st hst
    simp only [images, characterImages, List.mem_append, List.mem_flatMap, List.mem_map] at hst
    rcases hst with (⟨e, -, ⟨_, -, rfl⟩ | ⟨_, -, rfl⟩⟩ | ⟨sc, -, rfl⟩) | ⟨i, -, rfl⟩ <;>
      exact ⟨rfl, rfl⟩
  unfold preamble
  simp only [List.forall_mem_append]
  refine ⟨⟨?_, hclosed ?_⟩, hclosed ?_⟩
  · unfold header
    split
    · exact hclosed (by simp [atDepth, Statement.label?, Statement.target?])
    · simp
  · intro l hl
    simp only [atDepth, List.mem_map] at hl
    obtain ⟨st, ⟨e, -, rfl⟩, rfl⟩ := hl
    exact ⟨rfl, rfl⟩
  · intro l hl
    obtain ⟨st, hst, rfl⟩ := List.mem_map.1 hl
    exact himage st hst

/-! ### Where labels are set -/

/-- The lines of block `i` of function `id`, among the lines of all functions. -/
def linesAt? (chapters : List (List (List Line))) (id : FunctionId) (i : BlockId) :
    Option (List Line) := chapters[id]?.bind (·[i]?)

/-- The lines of block `i` of function `id` begin with the label, and set no other. -/
def Heads (chapters : List (List (List Line))) (id : FunctionId) (i : BlockId) (label : String) :
    Prop :=
  ∃ rest, linesAt? chapters id i = some (⟨0, .label label⟩ :: rest) ∧ labelsOf rest = []

/-- The label stands at the top of what a target in function `id` leads to: of the block, or of
the first block of the function. -/
def HeadsTarget (chapters : List (List (List Line))) (id : FunctionId) : Target → String → Prop
  | .block b => Heads chapters id b
  | .function g => Heads chapters g 0

section Written

variable {chapters : List (List (List Line))}

theorem AllWritten.linesAt? (h : AllWritten s p g chapters) (hf : g.functions[id]? = some f)
    {i : BlockId} {b : GeneratedBlock} (hb : f.blocks[i]? = some b) :
    ∃ ls, linesAt? chapters id i = some ls ∧ blockLines s (Names.of p g) id f b i = .ok ls := by
  obtain ⟨blocks, hblocks, hwritten⟩ := getElem?_of_zipIdx h hf
  obtain ⟨ls, hls, hlines⟩ := getElem?_of_zipIdx hwritten hb
  exact ⟨ls, by rw [Script.linesAt?, hblocks]; exact hls, hlines⟩

/-- A block is headed by its label. -/
theorem AllWritten.heads (h : AllWritten s p g chapters) (hf : g.functions[id]? = some f)
    {i : BlockId} {b : GeneratedBlock} (hb : f.blocks[i]? = some b) {label : String}
    (hlabel : blockLabel? (Names.of p g) id i b = some label) : Heads chapters id i label := by
  obtain ⟨ls, hls, hlines⟩ := h.linesAt? hf hb
  obtain ⟨sts, out, hwritten⟩ := blockWritten_of_ok hlines
  have hlabels := labelsOf_block hwritten
  rw [hlabel] at hlabels
  have hfirst := hwritten.lines
  rw [hlabel] at hfirst
  refine ⟨_, hls.trans (congrArg some hfirst), ?_⟩
  rw [hfirst] at hlabels
  exact (List.cons.inj hlabels).2

/-- The first block of a function is headed by the function's identifier. -/
theorem AllWritten.heads_function (h : AllWritten s p g chapters)
    (hwired : ∀ f ∈ g.functions, f.Wired g.functions.length) {name : String}
    (hname : (Names.of p g).functions[id]? = some name) : Heads chapters id 0 name := by
  have hid : id < g.functions.length := by
    rw [← (Names.covers_of p g).length_functions]
    exact (List.getElem?_eq_some_iff.1 hname).1
  have hpos := List.length_pos_of_ne_nil (hwired _ (List.getElem_mem hid)).nonempty
  refine h.heads (List.getElem?_eq_getElem hid) (List.getElem?_eq_getElem hpos) ?_
  rw [blockLabel?, if_pos rfl, hname]
  rfl

/-- A block that is jumped to has a label and is not the first, so it is written under its
label. -/
theorem blockLabel?_of_targetLabel {functions : Nat} (hf : f.Wired functions) {i : BlockId}
    (hi : f.Has functions (.block i)) {name : String}
    (hname : targetLabel n id f (.block i) = .ok name) :
    ∃ b l, f.blocks[i]? = some b ∧ name = n.labelName id l ∧ blockLabel? n id i b = some name := by
  obtain ⟨b, hb, hlabelled⟩ := hi
  obtain ⟨l, hl⟩ := Option.isSome_iff_exists.1 hlabelled
  have hne : i ≠ 0 := by
    rintro rfl
    have hnone := hf.entry b hb
    rw [hl] at hnone
    cases hnone
  have hlabel : n.label? id b = some (n.labelName id l) := by
    rw [Names.label?_eq, hl, Option.map_some]
  rw [targetLabel, hb] at hname
  obtain rfl : (n.label? id b).getD (n.functions[id]?.getD "") = name := Except.ok.inj hname
  refine ⟨b, l, hb, ?_, ?_⟩
  · rw [hlabel, Option.getD_some]
  · rw [blockLabel?, if_neg hne, hlabel, Option.getD_some]

/-- **A target is written as the label at its top.** -/
theorem AllWritten.headsTarget (h : AllWritten s p g chapters)
    (hwired : ∀ f ∈ g.functions, f.Wired g.functions.length) (hf : g.functions[id]? = some f)
    {t : Target} (ht : f.Has g.functions.length t) {name : String}
    (hname : targetLabel (Names.of p g) id f t = .ok name) : HeadsTarget chapters id t name := by
  cases t with
  | function k => exact h.heads_function hwired (Fault.unless_eq_ok.1 hname)
  | block i =>
    obtain ⟨b, -, hb, -, hlabel⟩ :=
      blockLabel?_of_targetLabel (hwired f (List.mem_of_getElem? hf)) ht hname
    exact h.heads hf hb hlabel

/-- **A block goes to the labels of what its terminator leads to.** -/
theorem AllWritten.headsTargets (h : AllWritten s p g chapters)
    (hwired : ∀ f ∈ g.functions, f.Wired g.functions.length) (hf : g.functions[id]? = some f)
    {i : BlockId} {b : GeneratedBlock} (hb : f.blocks[i]? = some b) {ls : List Line}
    (hlines : blockLines s (Names.of p g) id f b i = .ok ls) :
    List.Forall₂ (HeadsTarget chapters id) (b.terminator.transfers i) (targetsOf ls) := by
  have hw := hwired f (List.mem_of_getElem? hf)
  have hmem := List.mem_of_getElem? hb
  obtain ⟨sts, out, hwritten⟩ := blockWritten_of_ok hlines
  have hnames := targetsOf_block (fun arms harms => (hw.arms b hmem arms harms).2) hwritten
  refine List.forall₂_iff_get.2 ⟨hnames.length_eq, fun k hk hk' => ?_⟩
  have hhas := hw.leads b hmem _ (Terminator.mem_targets_of_mem_transfers (List.get_mem _ ⟨k, hk⟩))
  exact h.headsTarget hwired hf hhas (hnames.get hk hk')

/-- What heads a block is a label of the script. -/
theorem Heads.mem_labelsOf {i : BlockId} {label : String} (h : Heads chapters id i label) :
    label ∈ labelsOf (chapters.map chapter).flatten := by
  obtain ⟨rest, hlines, -⟩ := h
  obtain ⟨blocks, hblocks, hls⟩ := Option.bind_eq_some_iff.1 hlines
  have hmem := List.mem_of_getElem? hblocks
  rw [labelsOf_flatten, List.mem_flatMap]
  refine ⟨chapter blocks, List.mem_map_of_mem hmem, ?_⟩
  rw [chapter, labelsOf_append, labelsOf_flatten]
  refine List.mem_append_left _ (List.mem_flatMap.2 ⟨_, List.mem_of_getElem? hls, ?_⟩)
  exact List.mem_cons_self

/-- Where the functions go, they set a label. -/
theorem AllWritten.mem_labelsOf (h : AllWritten s p g chapters)
    (hwired : ∀ f ∈ g.functions, f.Wired g.functions.length) {name : String}
    (hname : name ∈ targetsOf (chapters.map chapter).flatten) :
    name ∈ labelsOf (chapters.map chapter).flatten := by
  rw [targetsOf_flatten] at hname
  obtain ⟨ls, hls, hname⟩ := List.mem_flatMap.1 hname
  obtain ⟨blocks, hblocks, rfl⟩ := List.mem_map.1 hls
  have hchapter : targetsOf (chapter blocks) = blocks.flatMap targetsOf := by
    rw [chapter, targetsOf_append, targetsOf_flatten]
    exact List.append_nil _
  obtain ⟨bl, hbl, hname⟩ := List.mem_flatMap.1 (hchapter ▸ hname)
  obtain ⟨id, hid⟩ := List.mem_iff_getElem?.1 hblocks
  obtain ⟨i, hi⟩ := List.mem_iff_getElem?.1 hbl
  obtain ⟨f, hf, hwritten⟩ := exists_of_getElem?_zipIdx h hid
  obtain ⟨b, hb, hlines⟩ := exists_of_getElem?_zipIdx hwritten hi
  have hheads := h.headsTargets hwired hf hb hlines
  obtain ⟨target, -, hhead⟩ := exists_of_mem_forall₂ hheads hname
  cases target with
  | block b => exact Heads.mem_labelsOf hhead
  | function k => exact Heads.mem_labelsOf hhead

theorem labelsOf_chapters (h : AllWritten s p g chapters)
    (hwired : ∀ f ∈ g.functions, f.Wired g.functions.length) :
    labelsOf (chapters.map chapter).flatten = scriptLabels (Names.of p g) g.functions := by
  rw [labelsOf_flatten, scriptLabels]
  have hall : ∀ e ∈ g.functions.zipIdx, e.1.Wired g.functions.length := fun e he =>
    hwired e.1 (List.mem_of_getElem? (List.mem_zipIdx_iff_getElem?.1 he))
  unfold AllWritten at h
  generalize g.functions.zipIdx = es at h hall
  generalize g.functions.length = functions at hall
  induction h with
  | nil => rfl
  | cons hfirst _ ih =>
    rw [List.map_cons, List.flatMap_cons, List.flatMap_cons,
      labelsOf_function (hall _ List.mem_cons_self) hfirst,
      ih fun e he => hall e (List.mem_cons_of_mem _ he)]

end Written

/-! ### Scripts -/

/-- The labels of a script are closed. `front` is what stands before the functions, and `chapters`
holds the lines of every block of every function. -/
structure LabelsClosed (p : Program) (front : List Line) (chapters : List (List (List Line)))
    (ls : List Line) : Prop where
  lines : ls = front ++ (chapters.map chapter).flatten
  aside : ∀ l ∈ front, l.statement.label? = none ∧ l.statement.target? = none
  blocks : chapters.map List.length = p.functions.map (·.blocks.length)
  distinct : (labelsOf ls).Nodup
  closed : ∀ t ∈ targetsOf ls, t ∈ labelsOf ls
  /-- The first block and the blocks with a label have one in the script, and no others. -/
  heads : ∀ (id : FunctionId) f (i : BlockId) b, p.functions[id]? = some f →
    f.blocks[i]? = some b → if i = 0 ∨ b.label.isSome then ∃ label, Heads chapters id i label else
      (linesAt? chapters id i).map labelsOf = some []
  /-- Jumps and calls go to the label of what the terminator leads to. -/
  targets : ∀ (id : FunctionId) f (i : BlockId) b, p.functions[id]? = some f →
    f.blocks[i]? = some b → ∃ ls, linesAt? chapters id i = some ls ∧
      List.Forall₂ (HeadsTarget chapters id) (b.terminator.transfers i) (targetsOf ls)

/-- **The labels of a script are closed** where its functions can be written. -/
theorem AllWritten.labelsClosed {policy : ReentrantShow} {chapters : List (List (List Line))}
    (h : AllWritten s p g chapters)
    (hvisited : List.Forall₂ (fun f code => ∃ visits, Generate.Visited p policy f code visits)
      p.functions g.functions)
    (hwired : ∀ f ∈ g.functions, f.Wired g.functions.length) :
    LabelsClosed p (preamble p g s (Names.of p g)) chapters
      (preamble p g s (Names.of p g) ++ (chapters.map chapter).flatten) := by
  have haside := preamble_aside p g s (Names.of p g)
  have hlabels : labelsOf (preamble p g s (Names.of p g)) = [] :=
    List.filterMap_eq_nil_iff.2 fun l hl => (haside l hl).1
  have htargets : targetsOf (preamble p g s (Names.of p g)) = [] :=
    List.filterMap_eq_nil_iff.2 fun l hl => (haside l hl).2
  constructor
  case lines => rfl
  case aside => exact haside
  case blocks =>
    have hwritten : g.functions.zipIdx.map (·.1.blocks.length) = chapters.map List.length :=
      map_eq_of_forall₂ h fun e blocks he => by
        rw [← he.length_eq, List.length_zipIdx]
    have hcode : p.functions.map (·.blocks.length) = g.functions.map (·.blocks.length) :=
      map_eq_of_forall₂ hvisited fun f code hv => by
        obtain ⟨visits, hv⟩ := hv
        rw [hv.blocks, Generate.blocks, List.length_map, List.length_zipIdx]
    rw [hcode, ← hwritten, ← List.zipIdx_map_fst 0 g.functions, List.map_map, List.zipIdx_map_fst]
    rfl
  case distinct =>
    rw [labelsOf_append, hlabels, List.nil_append, labelsOf_chapters h hwired]
    exact nodup_scriptLabels hwired
  case closed =>
    intro t ht
    rw [targetsOf_append, htargets, List.nil_append] at ht
    rw [labelsOf_append, hlabels, List.nil_append]
    exact h.mem_labelsOf hwired ht
  case heads =>
    intro id f i b hf hb
    obtain ⟨code, c, hcode, hc, hlabel, -⟩ := Generate.exists_block_of_visited hvisited hf hb
    split
    · rename_i hset
      obtain ⟨label, hname⟩ : ∃ label, blockLabel? (Names.of p g) id i c = some label := by
        rw [blockLabel?, Names.label?_eq, hlabel]
        by_cases hi : i = 0
        · exact ⟨_, if_pos hi⟩
        · obtain ⟨l, hl⟩ := Option.isSome_iff_exists.1 (hset.resolve_left hi)
          exact ⟨_, by rw [if_neg hi, hl, Option.map_some]⟩
      exact ⟨label, h.heads hcode hc hname⟩
    · rename_i hset
      obtain ⟨hi, hnone⟩ : i ≠ 0 ∧ b.label = none := by simpa [not_or] using hset
      obtain ⟨ls, hls, hlines⟩ := h.linesAt? hcode hc
      obtain ⟨sts, out, hwritten⟩ := blockWritten_of_ok hlines
      rw [hls, Option.map_some, labelsOf_block hwritten, blockLabel?, if_neg hi, Names.label?_eq,
        hlabel, hnone]
      rfl
  case targets =>
    intro id f i b hf hb
    obtain ⟨code, c, hcode, hc, -, hterm⟩ := Generate.exists_block_of_visited hvisited hf hb
    obtain ⟨ls, hls, hlines⟩ := h.linesAt? hcode hc
    exact ⟨ls, hls, hterm ▸ h.headsTargets hwired hcode hc hlines⟩

end Script

theorem Program.Stages.wired {c : CodegenSettings} {a : Assembly} {g : Generated}
    {ls : List Script.Line} {p : Program} (h : p.Stages c a g ls) :
    ∀ f ∈ g.functions, f.Wired g.functions.length := by
  have hvisited := h.visited
  rw [h.lowered] at hvisited
  exact Generate.wired_of_visited hvisited

/-- **Labels are closed in every script.** Whatever the document and the settings, the labels of
the script differ, and jumps and calls go to the labels of what their terminators lead to. -/
theorem compile_labelsClosed (d : Document) (s : Settings) :
    ∃ c g ls chapters, compile d s = .ok c ∧ generate c.program s.codegen = .ok g ∧
      Script.lines c.program g s.codegen = .ok ls ∧
      c.script = Script.render s.codegen.indentWidth ls ∧
      Script.AllWritten s.codegen c.program g chapters ∧
      Script.LabelsClosed c.program
        (Script.preamble c.program g s.codegen (Script.Names.of c.program g)) chapters ls := by
  obtain ⟨c, hc, a, g, ls, -, hstages, hscript⟩ := yields_compile d s
  obtain ⟨chapters, hwritten, rfl⟩ := Script.lines_eq_ok hstages.lines
  exact ⟨c, g, _, chapters, hc, hstages.generated, hstages.lines, hscript, hwritten,
    Script.AllWritten.labelsClosed hwritten hstages.visited hstages.wired⟩

end Manuscript
