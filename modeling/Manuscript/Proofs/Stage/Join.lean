/-
# Join points

A block of generated code may be reached along many edges, and the player's
screen has to be the same whichever was taken. It is: along every path from the
first block, however often it goes round a loop, running the bodies of the blocks
and the patches of the edges brings the screen, at the entry of each block, to
what is visible in the stage with which the block was visited.

The proof is an induction on the path. The body of a block takes the screen of
its entry to that of its exit (`Walk.Effects.run`), and the patch of an edge is
the difference between the exit of its source and the entry of its target, which
`Snapshot.run_diff` carries out. Which predecessor gave the target its entry plays
no part.

Key definitions: `Terminator.leads?`, `FlowGraph.Path`, `GeneratedFunction.play`,
`Generate.ReachesEntries`.
Key theorems: `Generate.visited_generate`, `Generate.yields_generate`,
`Generate.run_along`, `Generate.generate_reachesEntries`.
-/
import Mathlib.Data.List.Forall2
import Manuscript.Proofs.Stage.Walk

namespace Manuscript

/-- The block of the function that control goes to by an arm of a branch, or by the only way
out of any other block; `next` is the block that follows. -/
def Terminator.leads? (next : BlockId) : Terminator → Option Nat → Option BlockId
  | .jump b, none => some b
  | .call _, none => some next
  | .branch arms, some k => arms[k]? >>= armBlock?
  | _, _ => none

/-- A run through a function from its first block: the edges taken in order, and the block it
has come to. The runs to the blocks on the way are the front parts of the list. -/
inductive FlowGraph.Path (f : FlowGraph) : List Edge → BlockId → Prop where
  | start : 0 < f.blocks.length → Path f [] 0
  | step {path : List Edge} {i target : BlockId} {b : BasicBlock} {arm : Option Nat} :
    Path f path i → f.blocks[i]? = some b → b.terminator.leads? (i + 1) arm = some target →
    target < f.blocks.length → Path f (path ++ [⟨i, arm⟩]) target

/-- What is run between the entry of a block and the end of an edge that leaves it. A call
leaves the screen as it is. -/
def GeneratedBlock.along (b : GeneratedBlock) : Option Nat → List Inst
  | none => b.body ++ b.patch
  | some k => b.body ++ b.armPatches[k]?.getD []

/-- The patch that is kept for an arm of a branch, or for the only way out of a block. -/
def GeneratedBlock.slot? (b : GeneratedBlock) : Option Nat → Option (List Inst)
  | none => some b.patch
  | some k => b.armPatches[k]?

theorem GeneratedBlock.along_eq (b : GeneratedBlock) (arm : Option Nat) :
    b.along arm = b.body ++ (b.slot? arm).getD [] := by
  cases arm <;> rfl

namespace GeneratedFunction

/-- What is run along an edge of the function. -/
def along (g : GeneratedFunction) (e : Edge) : List Inst :=
  (g.blocks[e.source]?.map (·.along e.arm)).getD []

/-- The screen after a run through the function. -/
def play (g : GeneratedFunction) (scr : Screen) (path : List Edge) : Screen :=
  path.foldl (fun scr e => scr.run (g.along e)) scr

theorem play_snoc (g : GeneratedFunction) (scr : Screen) (path : List Edge) (e : Edge) :
    g.play scr (path ++ [e]) = (g.play scr path).run (g.along e) := by
  simp [play]

end GeneratedFunction

/-- At the start nobody is on screen. -/
theorem Snapshot.visible_initial (p : Program) : (Snapshot.initial p).visible = .blank := by
  refine Screen.ext rfl (funext fun id => ?_)
  have hid : ((initial p).get id).shown = false := by
    by_contra h
    have hmem := mem_cast_of_shown (by simpa using h : ((initial p).get id).shown = true)
    obtain ⟨⟨c, i⟩, -, he⟩ := List.mem_map.1 hmem
    exact h (congrArg (fun e => e.2.shown) he).symm
  simp [Presence.seen, hid, Screen.blank]

namespace Generate

variable {p : Program} {policy : ReentrantShow} {f : FlowGraph}

/-! ### Visits -/

/-- Every block was entered with the stage that the blocks visited before it call for, and
its body is what its instructions emit. -/
def Faithful (p : Program) (f : FlowGraph) (visits : List Visit) : Prop :=
  ∀ (i : BlockId) (v : Visit), visits[i]? = some v →
    v.entry = entryOf f (.initial p) (visits.take i) i ∧
      ∃ b, f.blocks[i]? = some b ∧ Walk.Effects v.entry b.insts v.body v.exit

theorem Faithful.snoc {visits : List Visit} (h : Faithful p f visits) {v : Visit} {b : BasicBlock}
    (hentry : v.entry = entryOf f (.initial p) visits visits.length)
    (hb : f.blocks[visits.length]? = some b) (hbody : Walk.Effects v.entry b.insts v.body v.exit) :
    Faithful p f (visits ++ [v]) := by
  intro i u hu
  rcases Nat.lt_trichotomy i visits.length with hi | rfl | hi
  · rw [List.getElem?_append_left hi] at hu
    rw [List.take_append_of_le_length (Nat.le_of_lt hi)]
    exact h i u hu
  · rw [List.getElem?_concat_length] at hu
    cases hu
    rw [List.take_left]
    exact ⟨hentry, b, hb, hbody⟩
  · have hnone : (visits ++ [v])[i]? = none := by
      rw [List.getElem?_eq_none_iff, List.length_append, List.length_singleton]
      exact hi
    rw [hnone] at hu
    cases hu

theorem faithful_visitFrom : ∀ {rest : List BasicBlock} {w w' : Walk} {visits visits' : List Visit},
    visitFrom p policy f w visits rest = .ok (visits', w') → f.blocks.drop visits.length = rest →
      Faithful p f visits → Faithful p f visits' ∧ visits'.length = visits.length + rest.length
  | [], _, _, _, _, h, _, hfaithful => by
    cases h
    exact ⟨hfaithful, rfl⟩
  | b :: rest, _, _, visits, _, h, hdrop, hfaithful => by
    have hb : f.blocks[visits.length]? = some b := by
      rw [← List.head?_drop, hdrop, List.head?_cons]
    obtain ⟨⟨body, exit, w₁⟩, hinsts, h⟩ := bind_eq_ok.1 h
    have hnext := hfaithful.snoc (v := ⟨_, exit, body⟩) rfl hb (Walk.effects_insts hinsts)
    have hrest : ∀ v : Visit, f.blocks.drop (visits ++ [v]).length = rest := by
      intro v
      rw [List.length_append, List.length_singleton, ← List.drop_drop, hdrop]
      rfl
    obtain ⟨hall, hlength⟩ := faithful_visitFrom h (hrest _) hnext
    refine ⟨hall, ?_⟩
    rw [hlength, List.length_append, List.length_singleton, List.length_cons]
    omega

/-- A function whose blocks were visited was visited faithfully, every block once. -/
theorem faithful_visit {w w' : Walk} {visits : List Visit}
    (h : visit p policy w f = .ok (visits, w')) :
    Faithful p f visits ∧ visits.length = f.blocks.length := by
  have hnone : Faithful p f [] := fun _ _ h => by simp at h
  obtain ⟨hfaithful, hlength⟩ := faithful_visitFrom h rfl hnone
  exact ⟨hfaithful, by simpa using hlength⟩

theorem yields_visitFrom : ∀ {rest : List BasicBlock} {w : Walk} {visits : List Visit},
    (∀ b ∈ rest, ∀ i ∈ b.insts, i.action.NamesBelow p.characters.length) →
      Yields (visitFrom p policy f w visits rest) fun _ => True
  | [], _, _, _ => yields_ok trivial
  | b :: rest, w, visits, hin => by
    refine (Walk.yields_insts (hin b List.mem_cons_self)).bind fun r _ => ?_
    exact yields_visitFrom fun c hc => hin c (List.mem_cons_of_mem _ hc)

/-! ### Edges -/

/-- The generated code of the visited blocks of a function. -/
def blocks (f : FlowGraph) (visits : List Visit) : List GeneratedBlock :=
  f.blocks.zipIdx.map fun (b, i) => block visits b i

theorem getElem?_blocks (visits : List Visit) {i : BlockId} {b : BasicBlock}
    (h : f.blocks[i]? = some b) : (blocks f visits)[i]? = some (block visits b i) := by
  simp [blocks, h]

theorem armPatch_eq (visits : List Visit) (i : BlockId) (a : Arm) :
    armPatch visits i a = ((Terminator.armBlock? a).map (patchOf visits i)).getD [] := by
  rcases a with ⟨text, target⟩
  cases target <;> rfl

/-- A slot holds the patch to the block that it leads to, and nothing if it leads to none. -/
theorem slot?_block (visits : List Visit) (b : BasicBlock) (i : BlockId) {arm : Option Nat}
    {patch : List Inst} (h : (block visits b i).slot? arm = some patch) :
    patch = ((b.terminator.leads? (i + 1) arm).map (patchOf visits i)).getD [] := by
  rcases b with ⟨label, insts, t⟩
  cases arm with
  | none =>
    cases h
    cases t <;> simp [block, exitPatch, Terminator.successors, Terminator.leads?]
  | some k =>
    cases t with
    | branch arms =>
      obtain ⟨a, ha, rfl⟩ : ∃ a, arms[k]? = some a ∧ armPatch visits i a = patch := by
        simpa [GeneratedBlock.slot?, block, armPatches] using h
      simp [Terminator.leads?, ha, armPatch_eq]
    | _ => simp [GeneratedBlock.slot?, block, armPatches] at h

/-- There is a slot for everything that leads to a block. -/
theorem exists_slot?_block (visits : List Visit) (b : BasicBlock) (i : BlockId) {arm : Option Nat}
    {target : BlockId} (h : b.terminator.leads? (i + 1) arm = some target) :
    ∃ patch, (block visits b i).slot? arm = some patch := by
  rcases b with ⟨label, insts, t⟩
  cases arm with
  | none => exact ⟨_, rfl⟩
  | some k =>
    cases t with
    | branch arms =>
      obtain ⟨a, ha, -⟩ := Option.bind_eq_some_iff.1 h
      exact ⟨armPatch visits i a, by simp [GeneratedBlock.slot?, block, armPatches, ha]⟩
    | _ => simp [Terminator.leads?] at h

/-- The slot of an edge that leads to a block holds the patch from its source to that block. -/
theorem slot?_block_of_leads (visits : List Visit) (b : BasicBlock) (i : BlockId)
    {arm : Option Nat} {target : BlockId} (h : b.terminator.leads? (i + 1) arm = some target) :
    (block visits b i).slot? arm = some (patchOf visits i target) := by
  obtain ⟨patch, hpatch⟩ := exists_slot?_block visits b i h
  rw [hpatch, slot?_block visits b i hpatch, h]
  rfl

/-- An edge that leads to a block carries the patch from its source to that block. -/
theorem along_block (visits : List Visit) (b : BasicBlock) (i : BlockId) {arm : Option Nat}
    {target : BlockId} (h : b.terminator.leads? (i + 1) arm = some target) :
    (block visits b i).along arm = (block visits b i).body ++ patchOf visits i target := by
  rw [GeneratedBlock.along_eq, slot?_block_of_leads visits b i h]
  rfl

/-- Running the code along an edge takes the screen of its source's entry to the screen of
its target's entry. -/
theorem run_along {visits : List Visit} (hv : Faithful p f visits) {g : GeneratedFunction}
    (hg : g.blocks = blocks f visits) {i target : BlockId} {b : BasicBlock} {arm : Option Nat}
    {source goal : Visit} (hb : f.blocks[i]? = some b)
    (hleads : b.terminator.leads? (i + 1) arm = some target)
    (hs : visits[i]? = some source) (ht : visits[target]? = some goal) :
    source.entry.visible.run (g.along ⟨i, arm⟩) = goal.entry.visible := by
  obtain ⟨-, _, -, hbodyRun⟩ := hv i source hs
  have hbody : (block visits b i).body = source.body := by simp [block, hs]
  have hpatch : patchOf visits i target = Snapshot.diff goal.entry source.exit := by
    simp [patchOf, hs, ht]
  have halong : g.along ⟨i, arm⟩ = source.body ++ Snapshot.diff goal.entry source.exit := by
    simp only [GeneratedFunction.along, hg, getElem?_blocks visits hb, Option.map_some,
      Option.getD_some]
    rw [along_block visits b i hleads, hbody, hpatch]
  calc source.entry.visible.run (g.along ⟨i, arm⟩)
      = (source.entry.visible.run source.body).run (Snapshot.diff goal.entry source.exit) := by
        rw [halong, Screen.run_append]
    _ = source.exit.visible.run (Snapshot.diff goal.entry source.exit) := by rw [hbodyRun.run]
    _ = goal.entry.visible := Snapshot.run_diff _ _

/-- The first block is entered with the initial stage. -/
theorem Faithful.entry_zero {visits : List Visit} (hv : Faithful p f visits) {v : Visit}
    (h : visits[0]? = some v) : v.entry = .initial p := by
  rw [(hv 0 v h).1, List.take_zero, entryOf]
  have hnone : (f.edgesInto 0).find? (·.source < 0) = none := by simp
  rw [hnone]
  rfl

/-- Along every path the screen at the entry of a block is that of the block's visit. -/
theorem play_of_path {visits : List Visit} (hv : Faithful p f visits)
    (hlen : visits.length = f.blocks.length) {g : GeneratedFunction}
    (hg : g.blocks = blocks f visits) {path : List Edge} {b : BlockId} (h : f.Path path b) :
    ∃ v, visits[b]? = some v ∧ g.play .blank path = v.entry.visible := by
  induction h with
  | start hpos =>
    refine ⟨visits[0], List.getElem?_eq_getElem (by omega), ?_⟩
    rw [hv.entry_zero (List.getElem?_eq_getElem (by omega)), Snapshot.visible_initial]
    rfl
  | @step path i target block arm _ hb hleads htarget ih =>
    obtain ⟨source, hs, hplay⟩ := ih
    have hlt : target < visits.length := hlen ▸ htarget
    have ht : visits[target]? = some visits[target] := List.getElem?_eq_getElem hlt
    refine ⟨visits[target], ht, ?_⟩
    rw [GeneratedFunction.play_snoc, hplay]
    exact run_along hv hg hb hleads hs ht

/-! ### Whole programs -/

/-- The function `g` was generated from `f`, with these visits of its blocks. -/
structure Visited (p : Program) (policy : ReentrantShow) (f : FlowGraph) (g : GeneratedFunction)
    (visits : List Visit) : Prop where
  function : ∃ w after, function p policy w f = .ok (g, after) ∧
    ∃ w', visit p policy { w with unknown := [] } f = .ok (visits, w')
  faithful : Faithful p f visits
  length : visits.length = f.blocks.length
  name : g.name = f.name
  blocks : g.blocks = blocks f visits

/-- A generated function is made of the visits of its blocks, and the reports of its patches
come behind those of the visits. -/
theorem function_cases {w w' : Walk} {g : GeneratedFunction}
    (h : function p policy w f = .ok (g, w')) :
    ∃ visits w₁, visit p policy { w with unknown := [] } f = .ok (visits, w₁) ∧
      g = ⟨f.name, Generate.blocks f visits⟩ ∧
      w' = { w₁ with diags := w₁.diags ++ patchReports f visits } := by
  obtain ⟨⟨visits, w₁⟩, hvisit, h'⟩ := bind_eq_ok.1 h
  cases h'
  exact ⟨visits, w₁, hvisit, rfl, rfl⟩

theorem visited_function {w w' : Walk} {g : GeneratedFunction}
    (h : function p policy w f = .ok (g, w')) : ∃ visits, Visited p policy f g visits := by
  obtain ⟨visits, w₁, hvisit, rfl, -⟩ := function_cases h
  obtain ⟨hfaithful, hlength⟩ := faithful_visit hvisit
  exact ⟨visits, ⟨w, w', h, w₁, hvisit⟩, hfaithful, hlength, rfl, rfl⟩

theorem visited_functions : ∀ {fs : List FlowGraph} {gs : List GeneratedFunction} {w w' : Walk},
    functions p policy w fs = .ok (gs, w') →
      List.Forall₂ (fun f g => ∃ visits, Visited p policy f g visits) fs gs
  | [], _, _, _, h => by
    cases h
    exact .nil
  | f :: rest, _, _, _, h => by
    obtain ⟨⟨g, w₁⟩, hfirst, h⟩ := bind_eq_ok.1 h
    obtain ⟨⟨gs, w₂⟩, hrest, h⟩ := bind_eq_ok.1 h
    cases h
    exact .cons (visited_function hfirst) (visited_functions hrest)

/-- A program that is generated is generated function by function. -/
theorem visited_generate {p : Program} {s : CodegenSettings} {g : Generated}
    (h : generate p s = .ok g) : List.Forall₂
      (fun f g => ∃ visits, Visited p s.reentrantShow f g visits) p.functions g.functions := by
  obtain ⟨⟨fs, w⟩, hfs, h⟩ := bind_eq_ok.1 h
  cases h
  exact visited_functions hfs

theorem yields_functions : ∀ {fs : List FlowGraph} (w : Walk),
    (∀ f ∈ fs, ∀ b ∈ f.blocks, ∀ i ∈ b.insts, i.action.NamesBelow p.characters.length) →
      Yields (functions p policy w fs) fun _ => True
  | [], _, _ => yields_ok trivial
  | f :: rest, w, hin => by
    have hfirst : Yields (function p policy w f) fun _ => True :=
      (yields_visitFrom (hin f List.mem_cons_self)).bind fun _ _ => yields_ok trivial
    refine hfirst.bind fun r _ => ?_
    exact (yields_functions r.2 fun g hg => hin g (List.mem_cons_of_mem _ hg)).bind
      fun _ _ => yields_ok trivial

/-- A program whose characters are in range is generated function by function. -/
theorem yields_generate {p : Program} (hp : p.CharactersInRange) (s : CodegenSettings) :
    Yields (generate p s) fun g => List.Forall₂
      (fun f g => ∃ visits, Visited p s.reentrantShow f g visits) p.functions g.functions := by
  have htotal : Yields (generate p s) fun _ => True :=
    (yields_functions _ hp).bind fun _ _ => yields_ok trivial
  obtain ⟨g, hg, -⟩ := htotal
  exact ⟨g, hg, visited_generate hg⟩

theorem exists_generate {p : Program} (hp : p.CharactersInRange) (s : CodegenSettings) :
    ∃ g, generate p s = .ok g := by
  obtain ⟨g, hg, -⟩ := yields_generate hp s
  exact ⟨g, hg⟩

/-- The generated function `g` of `f` brings the screen, along every path and at the entry of
each block, to what is visible in the stage with which generation entered the block. -/
def ReachesEntries (p : Program) (policy : ReentrantShow) (f : FlowGraph) (g : GeneratedFunction) :
    Prop :=
  ∃ (w after : Walk) (visits : List Visit), function p policy w f = .ok (g, after) ∧
    (∃ w', visit p policy { w with unknown := [] } f = .ok (visits, w')) ∧
    ∀ (path : List Edge) (b : BlockId), f.Path path b →
      ∃ v, visits[b]? = some v ∧ g.play .blank path = v.entry.visible

theorem Visited.reachesEntries {g : GeneratedFunction} {visits : List Visit}
    (h : Visited p policy f g visits) : ReachesEntries p policy f g := by
  obtain ⟨w, after, hfun, hvisit⟩ := h.function
  exact ⟨w, after, visits, hfun, hvisit, fun path b => play_of_path h.faithful h.length h.blocks⟩

/-- **Join points are sound.** A program whose characters are in range is generated, and each
of its generated functions brings the screen along every path to the entries of the blocks. -/
theorem generate_reachesEntries (p : Program) (s : CodegenSettings) (hp : p.CharactersInRange) :
    ∃ g, generate p s = .ok g ∧
      List.Forall₂ (ReachesEntries p s.reentrantShow) p.functions g.functions := by
  obtain ⟨g, hg, hvisited⟩ := yields_generate hp s
  exact ⟨g, hg, hvisited.imp fun _ _ ⟨_, h⟩ => h.reachesEntries⟩

/-- A function that goes round: its second block is entered from the first with one stage and
from the last with another. -/
def roundabout : Program :=
  { title := ""
    characters := [{ Character.ofName "A" with
      sprites := (SpriteTree.empty.insert (.file "1") ["calm"]).insert (.file "2") ["angry"] }]
    scenes := []
    images := []
    functions := [⟨"f", [
      ⟨none, [⟨.showCharacter 0 [], ⟨0, 0, 0⟩⟩], .jump 1⟩,
      ⟨some "again", [⟨.setState 0 ["angry"], ⟨0, 0, 0⟩⟩, ⟨.setScene "park", ⟨0, 0, 0⟩⟩], .jump 2⟩,
      ⟨some "ask", [⟨.setState 0 ["calm"], ⟨0, 0, 0⟩⟩], .branch [⟨"more", .block 1⟩]⟩],
      ⟨0, 0, 0⟩⟩] }

theorem roundabout_reachesEntries : roundabout.CharactersInRange ∧
    (∀ f ∈ roundabout.functions, f.Path [⟨0, none⟩, ⟨1, none⟩, ⟨2, some 0⟩] 1) ∧
    ∃ g, generate roundabout {} = .ok g ∧
      List.Forall₂ (ReachesEntries roundabout .reject) roundabout.functions g.functions := by
  refine ⟨by decide, fun f hf => ?_, generate_reachesEntries roundabout {} (by decide)⟩
  rw [List.mem_singleton.1 hf]
  exact .step (.step (.step (.start (by decide)) rfl rfl (by decide)) rfl rfl (by decide)) rfl rfl
    (by decide)

end Generate
end Manuscript
