/-
# Generated code names only what there is

Generation puts no character on stage that the program does not name: the stage
starts with the characters of the program, an instruction adds none but its own,
and a patch is about characters on one of two stages. So the code generated for a
graph in range is in range too, and there is a patch for every arm.

Nor does generation look for a stage that is not there: the entry of a block comes
from a block before it, and an edge comes from a block and an arm that exist, since
the edges are read off the terminators.

Key definitions: `Snapshot.NamesBelow`, `GeneratedBlock.insts`,
`GeneratedFunction.InRange`, `Generate.Grounded`.
Key theorems: `Walk.Effects.namesBelow`, `Snapshot.namesBelow_diff`,
`Generate.mem_insts_block`, `Generate.Visited.inRange`, `Generate.Visited.grounded`.
-/
import Manuscript.Proofs.Stage.Join

namespace Manuscript

/-! ### Stages -/

namespace Snapshot

/-- Only the first `n` characters are known to the stage. -/
def NamesBelow (n : Nat) (s : Snapshot) : Prop := ∀ e ∈ s.cast, e.1 < n

variable {n : Nat} {s : Snapshot}

theorem NamesBelow.update (h : s.NamesBelow n) {id : CharacterId} (hid : id < n)
    (f : Presence → Presence) : (s.update id f).NamesBelow n := by
  intro e he
  rcases Cast.fst_mem_update he with rfl | ⟨d, hd, hde⟩
  · exact hid
  · exact hde ▸ h d hd

theorem NamesBelow.setScene (h : s.NamesBelow n) (scene : Option String) :
    (s.setScene scene).NamesBelow n := by
  intro e he
  obtain ⟨d, hd, rfl⟩ := List.mem_map.1 he
  exact h d hd

theorem namesBelow_initial (p : Program) : (initial p).NamesBelow p.characters.length := by
  intro e he
  obtain ⟨⟨c, i⟩, hi, rfl⟩ := List.mem_map.1 he
  exact (List.getElem?_eq_some_iff.1 (List.mem_zipIdx_iff_getElem?.1 hi)).1

theorem NamesBelow.lt_of_shown (h : s.NamesBelow n) {id : CharacterId}
    (hid : s.visible.shown id ≠ none) : id < n := by
  have hshown : (s.get id).shown = true := by
    by_contra hhidden
    exact hid (by simp [Presence.seen, hhidden])
  exact h _ (mem_cast_of_shown hshown)

/-- A patch is about characters on one of the two stages. -/
theorem namesBelow_diff {goal other : Snapshot} (hgoal : goal.NamesBelow n)
    (hother : other.NamesBelow n) : ∀ i ∈ diff goal other, i.action.NamesBelow n := by
  have hnow : (matchScene goal other).2.NamesBelow n := by
    unfold matchScene
    split
    · exact hother
    · exact hother.setScene _
  intro i hi
  obtain ⟨-, rfl⟩ | hmoves := mem_diff hi
  · cases goal.scene <;> exact Action.namesBelow_of_eq_nil rfl n
  · cases hmoves with
    | place hshown _ =>
      have hid := hgoal.lt_of_shown (by rw [hshown]; simp)
      simpa [patch, Action.NamesBelow, Action.characters] using hid
    | hide _ hshown =>
      have hid := hnow.lt_of_shown hshown
      simpa [patch, Action.NamesBelow, Action.characters] using hid

end Snapshot

/-! ### Steps -/

namespace Walk

variable {n : Nat} {stage after : Snapshot}

/-- A step emits and stages only characters that it names or that are on stage. -/
theorem Effect.namesBelow {i : Inst} {emitted : Option Inst} (h : Effect stage i emitted after)
    (hi : i.action.NamesBelow n) (hs : stage.NamesBelow n) :
    after.NamesBelow n ∧ ∀ j ∈ emitted, j.action.NamesBelow n := by
  cases h with
  | line => exact ⟨hs, by rintro j ⟨rfl⟩; exact hi⟩
  | lineShown =>
    exact ⟨hs.update (hi _ (by simp [Action.characters])) _, by rintro j ⟨rfl⟩; exact hi⟩
  | lineHidden =>
    exact ⟨hs.update (hi _ (by simp [Action.characters])) _, by rintro j ⟨rfl⟩; exact hi⟩
  | @place a id tags path loc ha =>
    have hid : id < n := by
      rcases ha with rfl | rfl <;> exact hi id (by simp [Action.characters])
    exact ⟨hs.update hid _, by simpa [Action.NamesBelow, Action.characters] using hid⟩
  | hide => exact ⟨hs.update (hi _ (by simp [Action.characters])) _, by simpa using hi⟩
  | remember => exact ⟨hs.update (hi _ (by simp [Action.characters])) _, by simp⟩
  | drop => exact ⟨hs, by simp⟩
  | scene => exact ⟨hs.setScene _, by simpa using hi⟩
  | clear => exact ⟨hs.setScene _, by simpa using hi⟩
  | aside => exact ⟨hs, by simpa using hi⟩

theorem Effects.namesBelow {is emitted : List Inst} (h : Effects stage is emitted after)
    (hi : ∀ i ∈ is, i.action.NamesBelow n) (hs : stage.NamesBelow n) :
    after.NamesBelow n ∧ ∀ j ∈ emitted, j.action.NamesBelow n := by
  induction h with
  | nil => exact ⟨hs, by simp⟩
  | cons hfirst _ ih =>
    obtain ⟨hbetween, hemitted⟩ := hfirst.namesBelow (hi _ List.mem_cons_self) hs
    obtain ⟨hafter, hmore⟩ := ih (fun j hj => hi j (List.mem_cons_of_mem _ hj)) hbetween
    refine ⟨hafter, fun j hj => ?_⟩
    rcases List.mem_append.1 hj with hj | hj
    · exact hemitted j (Option.mem_toList.1 hj)
    · exact hmore j hj

end Walk

/-! ### Edges -/

theorem Terminator.armBlock?_eq_some {a : Arm} {b : BlockId} :
    armBlock? a = some b ↔ a.target = .block b := by
  rcases a with ⟨text, target⟩
  cases target <;> simp [armBlock?]

/-- The edges from a block to another are the ways out of it that lead there. -/
theorem FlowGraph.mem_edgesFrom {target i : BlockId} {t : Terminator} {e : Edge} :
    e ∈ edgesFrom target i t ↔ e.source = i ∧ t.leads? (i + 1) e.arm = some target := by
  rcases e with ⟨source, arm⟩
  cases t with
  | branch arms =>
    simp only [edgesFrom, List.mem_filterMap]
    constructor
    · rintro ⟨⟨a, k⟩, hk, h⟩
      dsimp only at h
      split at h
      · rename_i htarget
        cases h
        have ha : arms[k]? = some a := List.mem_zipIdx_iff_getElem?.1 hk
        exact ⟨rfl, Option.bind_eq_some_iff.2 ⟨a, ha, Terminator.armBlock?_eq_some.2 htarget⟩⟩
      · cases h
    · rintro ⟨rfl, h⟩
      cases arm with
      | none => cases h
      | some k =>
        obtain ⟨a, ha, hb⟩ := Option.bind_eq_some_iff.1 h
        exact ⟨(a, k), List.mem_zipIdx_iff_getElem?.2 ha,
          if_pos (Terminator.armBlock?_eq_some.1 hb)⟩
  | _ => cases arm <;> simp [edgesFrom, Terminator.successors, Terminator.leads?, and_comm, eq_comm]

theorem FlowGraph.mem_edgesInto {f : FlowGraph} {target : BlockId} {e : Edge} :
    e ∈ f.edgesInto target ↔ ∃ b, f.blocks[e.source]? = some b ∧
      b.terminator.leads? (e.source + 1) e.arm = some target := by
  constructor
  · intro h
    obtain ⟨⟨b, i⟩, hb, he⟩ := List.mem_flatMap.1 h
    obtain ⟨rfl, hleads⟩ := mem_edgesFrom.1 he
    exact ⟨b, List.mem_zipIdx_iff_getElem?.1 hb, hleads⟩
  · rintro ⟨b, hb, hleads⟩
    exact List.mem_flatMap.2 ⟨(b, e.source), List.mem_zipIdx_iff_getElem?.2 hb,
      mem_edgesFrom.2 ⟨rfl, hleads⟩⟩

/-- An edge comes from a block of the graph, and by one of its arms if it has one. -/
theorem FlowGraph.exists_of_mem_edgesInto {f : FlowGraph} {target : BlockId} {e : Edge}
    (h : e ∈ f.edgesInto target) : ∃ b, f.blocks[e.source]? = some b ∧
      ∀ k, e.arm = some k → ∃ arms, b.terminator = .branch arms ∧ k < arms.length := by
  obtain ⟨b, hb, hleads⟩ := mem_edgesInto.1 h
  refine ⟨b, hb, fun k hk => ?_⟩
  rw [hk] at hleads
  cases hterm : b.terminator with
  | branch arms =>
    rw [hterm] at hleads
    obtain ⟨a, ha, -⟩ := Option.bind_eq_some_iff.1 hleads
    exact ⟨arms, rfl, (List.getElem?_eq_some_iff.1 ha).1⟩
  | _ =>
    rw [hterm] at hleads
    cases hleads

/-! ### Generated code -/

/-- All instructions of a generated block. -/
def GeneratedBlock.insts (b : GeneratedBlock) : List Inst :=
  b.body ++ b.patch ++ b.armPatches.flatten

/-- The generated function names only what there is, and has a patch for every arm. -/
structure GeneratedFunction.InRange (characters functions : Nat) (g : GeneratedFunction) :
    Prop where
  insts : ∀ b ∈ g.blocks, ∀ i ∈ b.insts, i.action.NamesBelow characters
  calls : ∀ b ∈ g.blocks, ∀ id ∈ b.terminator.functions, id < functions
  targets : ∀ (i : BlockId) b, g.blocks[i]? = some b →
    ∀ t ∈ b.terminator.successors (i + 1), t < g.blocks.length
  arms : ∀ b ∈ g.blocks, ∀ arms, b.terminator = .branch arms → b.armPatches.length = arms.length

namespace Generate

variable {p : Program} {policy : ReentrantShow} {f : FlowGraph} {visits : List Visit}

/-- The first block is entered with the initial stage, and any other with the stage at the exit
of a block before it. -/
theorem Faithful.entry_cases (h : Faithful p f visits) {i : BlockId} {v : Visit}
    (hv : visits[i]? = some v) : (i = 0 ∧ v.entry = .initial p) ∨
      ∃ j < i, ∃ u, visits[j]? = some u ∧ v.entry = u.exit := by
  have hi : i < visits.length := (List.getElem?_eq_some_iff.1 hv).1
  obtain ⟨hentry, -⟩ := h i v hv
  unfold entryOf at hentry
  split at hentry
  · rename_i e hfind
    have hlt : e.source < i := by simpa using List.find?_some hfind
    have hsource := List.getElem?_eq_getElem (Nat.lt_trans hlt hi)
    rw [List.getElem?_take_of_lt hlt, hsource] at hentry
    exact .inr ⟨e.source, hlt, _, hsource, hentry⟩
  · cases i with
    | zero => exact .inl ⟨rfl, hentry⟩
    | succ j =>
      have hlast := List.getElem?_eq_getElem (Nat.lt_of_succ_lt hi)
      rw [List.getLast?_take, if_neg (Nat.succ_ne_zero j), Nat.succ_sub_one, hlast] at hentry
      exact .inr ⟨j, Nat.lt_succ_self j, _, hlast, hentry⟩

/-- The stages of a visit know only characters of the program. -/
theorem Faithful.namesBelow (h : Faithful p f visits)
    (hin : ∀ b ∈ f.blocks, ∀ i ∈ b.insts, i.action.NamesBelow p.characters.length) :
    ∀ (i : BlockId) (v : Visit), visits[i]? = some v →
      v.entry.NamesBelow p.characters.length ∧ v.exit.NamesBelow p.characters.length ∧
        ∀ j ∈ v.body, j.action.NamesBelow p.characters.length := by
  intro i
  induction i using Nat.strongRecOn with
  | ind i ih =>
    intro v hv
    obtain ⟨-, b, hb, heffects⟩ := h i v hv
    have hbelow : v.entry.NamesBelow p.characters.length := by
      rcases h.entry_cases hv with ⟨-, he⟩ | ⟨j, hj, u, hu, he⟩
      · rw [he]
        exact Snapshot.namesBelow_initial p
      · rw [he]
        exact (ih j hj u hu).2.1
    exact ⟨hbelow, heffects.namesBelow (hin b (List.mem_of_getElem? hb)) hbelow⟩

theorem mem_patchOf {source target : BlockId} {j : Inst} (h : j ∈ patchOf visits source target) :
    ∃ s ∈ visits, ∃ t ∈ visits, j ∈ Snapshot.diff t.entry s.exit := by
  unfold patchOf at h
  split at h
  · rename_i s t hs ht
    exact ⟨s, List.mem_of_getElem? hs, t, List.mem_of_getElem? ht, h⟩
  · simp at h

/-- An instruction of the patches of a generated block stands in the patch from the exit of one
visit to the entry of another. -/
theorem mem_patches_block {b : BasicBlock} {i : BlockId} {j : Inst}
    (h : j ∈ (block visits b i).patch ++ (block visits b i).armPatches.flatten) :
    ∃ s ∈ visits, ∃ t ∈ visits, j ∈ Snapshot.diff t.entry s.exit := by
  simp only [block] at h
  rcases List.mem_append.1 h with h | h
  · unfold exitPatch at h
    split at h
    · simp at h
    · obtain ⟨target, -, h⟩ := List.mem_flatMap.1 h
      exact mem_patchOf h
  · unfold armPatches at h
    split at h
    · obtain ⟨patch, hpatch, h⟩ := List.mem_flatten.1 h
      obtain ⟨a, -, rfl⟩ := List.mem_map.1 hpatch
      unfold armPatch at h
      split at h
      · exact mem_patchOf h
      · simp at h
    · simp at h

/-- An instruction of a generated block stands in the body of a visit, or in the patch from the
exit of one visit to the entry of another. -/
theorem mem_insts_block {b : BasicBlock} {i : BlockId} {j : Inst}
    (h : j ∈ (block visits b i).insts) : (∃ v ∈ visits, j ∈ v.body) ∨
      ∃ s ∈ visits, ∃ t ∈ visits, j ∈ Snapshot.diff t.entry s.exit := by
  rw [GeneratedBlock.insts, List.append_assoc] at h
  rcases List.mem_append.1 h with h | h
  · cases hv : visits[i]? with
    | none => simp [block, hv] at h
    | some v => exact .inl ⟨v, List.mem_of_getElem? hv, by simpa [block, hv] using h⟩
  · exact .inr (mem_patches_block h)

theorem Visited.exists_block {g : GeneratedFunction} (h : Visited p policy f g visits)
    {c : GeneratedBlock} (hc : c ∈ g.blocks) : ∃ b ∈ f.blocks, ∃ i, c = block visits b i := by
  rw [h.blocks] at hc
  obtain ⟨⟨b, i⟩, hb, rfl⟩ := List.mem_map.1 hc
  exact ⟨b, List.mem_of_getElem? (List.mem_zipIdx_iff_getElem?.1 hb), i, rfl⟩

/-- **Code generated in range is in range.** -/
theorem Visited.inRange {g : GeneratedFunction} (h : Visited p policy f g visits) {functions : Nat}
    (hf : f.InRange p.characters.length functions) : g.InRange p.characters.length functions := by
  have hvisits : ∀ v ∈ visits, v.entry.NamesBelow p.characters.length ∧
      v.exit.NamesBelow p.characters.length ∧
      ∀ j ∈ v.body, j.action.NamesBelow p.characters.length := fun v hv => by
    obtain ⟨i, hi⟩ := List.mem_iff_getElem?.1 hv
    exact h.faithful.namesBelow hf.insts i v hi
  refine ⟨fun c hc j hj => ?_, fun c hc => ?_, fun i c hc t ht => ?_, fun c hc arms harms => ?_⟩
  · obtain ⟨b, -, i, rfl⟩ := h.exists_block hc
    rcases mem_insts_block hj with ⟨v, hv, hj⟩ | ⟨s, hs, t, ht, hj⟩
    · exact (hvisits v hv).2.2 j hj
    · exact Snapshot.namesBelow_diff (hvisits t ht).1 (hvisits s hs).2.1 j hj
  · obtain ⟨b, hb, i, rfl⟩ := h.exists_block hc
    exact hf.calls b hb
  · rw [h.blocks] at hc ⊢
    obtain ⟨b, hb, rfl⟩ : ∃ b, f.blocks[i]? = some b ∧ block visits b i = c := by
      simpa [Generate.blocks] using hc
    simpa [Generate.blocks] using hf.targets i b hb t ht
  · obtain ⟨b, -, i, rfl⟩ := h.exists_block hc
    have hterm : b.terminator = .branch arms := harms
    simp [block, hterm, armPatches]

theorem inRange_of_visited {functions : Nat} {fs : List FlowGraph} {gs : List GeneratedFunction}
    (h : List.Forall₂ (fun f g => ∃ visits, Visited p policy f g visits) fs gs)
    (hfs : ∀ f ∈ fs, f.InRange p.characters.length functions) :
    ∀ g ∈ gs, g.InRange p.characters.length functions := by
  induction h with
  | nil => simp
  | cons hfirst _ ih =>
    obtain ⟨visits, hvisited⟩ := hfirst
    exact List.forall_mem_cons.2 ⟨hvisited.inRange (hfs _ List.mem_cons_self),
      ih fun f hf => hfs f (List.mem_cons_of_mem _ hf)⟩

/-- Generation found every stage and every block that it looked up: a block was entered with
the stage of a block before it, and every edge has a patch, from the exit of a block that was
visited and in an arm that there is. -/
structure Grounded (p : Program) (f : FlowGraph) (g : GeneratedFunction) (visits : List Visit) :
    Prop where
  entries : ∀ (i : BlockId) v, visits[i]? = some v → (i = 0 ∧ v.entry = .initial p) ∨
    ∃ j < i, ∃ u, visits[j]? = some u ∧ v.entry = u.exit
  patches : ∀ target t, visits[target]? = some t → ∀ e ∈ f.edgesInto target,
    ∃ s, visits[e.source]? = some s ∧
      patchOf visits e.source target = Snapshot.diff t.entry s.exit
  arms : ∀ target, ∀ e ∈ f.edgesInto target, ∃ b, g.blocks[e.source]? = some b ∧
    ∀ k ∈ e.arm, k < b.armPatches.length

theorem Visited.grounded {g : GeneratedFunction} (h : Visited p policy f g visits) :
    Grounded p f g visits := by
  refine ⟨fun i v => h.faithful.entry_cases, fun target t ht e he => ?_, fun target e he => ?_⟩
  · obtain ⟨b, hb, -⟩ := FlowGraph.exists_of_mem_edgesInto he
    have hlt : e.source < visits.length := h.length ▸ (List.getElem?_eq_some_iff.1 hb).1
    have hsource := List.getElem?_eq_getElem hlt
    exact ⟨_, hsource, by rw [patchOf, hsource, ht]⟩
  · obtain ⟨b, hb, harm⟩ := FlowGraph.exists_of_mem_edgesInto he
    refine ⟨block visits b e.source, ?_, fun k hk => ?_⟩
    · rw [h.blocks, getElem?_blocks visits hb]
    · obtain ⟨arms, hterm, hlt⟩ := harm k hk
      simpa [block, hterm, armPatches] using hlt

end Generate
end Manuscript
