/-
# Every program in range has a script

Writing a script looks identifiers up: of the characters that instructions name,
of the functions that terminators name, and of the blocks that they lead to. The
names of a script cover the characters of the program and its generated functions,
so for generated code that is in range every one of these is found.

Key definitions: `Script.Names.Covers`, `Script.TargetInRange`.
Key theorems: `Script.Names.covers_of`, `Script.yields_functionLines`,
`Script.yields_emit`.
-/
import Manuscript.Proofs.Stage.InRange
import Manuscript.Script.Emit

namespace Manuscript

theorem Namer.length_claimAll : ∀ (n : Namer) (names : List String),
    (n.claimAll names).1.length = names.length
  | _, [] => rfl
  | n, name :: rest => by
    rw [claimAll]
    exact congrArg (· + 1) (length_claimAll (n.claim name).2 rest)

namespace Script

/-- There is an identifier for each of the first `characters` characters, and an identifier
and a table of labels for each of the first `functions` functions. -/
structure Names.Covers (characters functions : Nat) (n : Names) : Prop where
  length_characters : n.characters.length = characters
  length_functions : n.functions.length = functions
  length_labels : n.labels.length = functions

theorem Names.covers_of (p : Program) (g : Generated) :
    (Names.of p g).Covers p.characters.length g.functions.length :=
  ⟨by simp [Names.of, Namer.length_claimAll], by simp [Names.of, Namer.length_claimAll],
    by simp [Names.of]⟩

variable {characters functions : Nat} {n : Names}

theorem Names.Covers.yields_character (hn : n.Covers characters functions) {id : CharacterId}
    (h : id < characters) : Yields (n.character id) fun name => n.characters[id]? = some name := by
  rw [Names.character, List.getElem?_eq_getElem (hn.length_characters ▸ h)]
  exact yields_ok rfl

theorem Names.Covers.yields_function (hn : n.Covers characters functions) {id : FunctionId}
    (h : id < functions) : Yields (n.function id) fun name => n.functions[id]? = some name := by
  rw [Names.function, List.getElem?_eq_getElem (hn.length_functions ▸ h)]
  exact yields_ok rfl

/-! ### Instructions -/

theorem yields_statements (hn : n.Covers characters functions) (s : CodegenSettings) {i : Inst}
    (hi : i.action.NamesBelow characters) : Yields (statements s n i) fun _ => True := by
  have hname : ∀ id ∈ i.action.characters, Yields (n.character id) fun _ => True :=
    fun id hid => (hn.yields_character (hi id hid)).mono fun _ _ => trivial
  unfold statements
  generalize i.action = a at hname
  cases a with
  | say speaker status content =>
    cases speaker with
    | none => exact yields_ok trivial
    | some id =>
      have hid := hname id (by simp [Action.characters])
      cases status with
      | nil => exact hid.bind fun _ _ => yields_ok trivial
      | cons => exact hid.bind fun _ _ => yields_ok trivial
  | showCharacter id path => exact (hname id List.mem_cons_self).bind fun _ _ => yields_ok trivial
  | setState id path => exact (hname id List.mem_cons_self).bind fun _ _ => yields_ok trivial
  | hideCharacter id => exact (hname id List.mem_cons_self).bind fun _ _ => yields_ok trivial
  | _ => exact yields_ok trivial

theorem yields_instLines (hn : n.Covers characters functions) (s : CodegenSettings) (depth : Nat)
    {is : List Inst} (h : ∀ i ∈ is, i.action.NamesBelow characters) :
    Yields (instLines s n depth is) fun _ => True :=
  (yields_mapM fun i hi => yields_statements hn s (h i hi)).bind fun _ _ => yields_ok trivial

/-! ### Targets -/

/-- The target is one of the first `blocks` blocks or one of the first `functions` functions. -/
def TargetInRange (blocks functions : Nat) : Target → Prop
  | .block b => b < blocks
  | .function g => g < functions

variable {f : GeneratedFunction}

theorem yields_targetLabel (hn : n.Covers characters functions) (id : FunctionId) {t : Target}
    (h : TargetInRange f.blocks.length functions t) :
    Yields (targetLabel n id f t) fun _ => True := by
  cases t with
  | block b =>
    rw [targetLabel, List.getElem?_eq_getElem h]
    exact yields_ok trivial
  | function g => exact (hn.yields_function h).mono fun _ _ => trivial

/-- The arms of a block in range lead to blocks and functions that there are. -/
theorem targetInRange_of_arm (hf : f.InRange characters functions) {i : BlockId}
    {b : GeneratedBlock} (hb : f.blocks[i]? = some b) {arms : List Arm}
    (hterm : b.terminator = .branch arms) {a : Arm} (ha : a ∈ arms) :
    TargetInRange f.blocks.length functions a.target := by
  cases htarget : a.target with
  | block t =>
    refine hf.targets i b hb t ?_
    rw [hterm]
    exact List.mem_filterMap.2 ⟨a, ha, by rw [Terminator.armBlock?, htarget]⟩
  | function g =>
    refine hf.calls b (List.mem_of_getElem? hb) g ?_
    rw [hterm]
    exact List.mem_filterMap.2 ⟨a, ha, by rw [htarget]⟩

/-! ### Blocks and functions -/

theorem yields_armLines (hn : n.Covers characters functions) (s : CodegenSettings)
    (id : FunctionId) : ∀ {arms : List (Arm × List Inst)},
    (∀ e ∈ arms, TargetInRange f.blocks.length functions e.1.target ∧
      ∀ i ∈ e.2, i.action.NamesBelow characters) →
    Yields (armLines s n id f arms) fun _ => True
  | [], _ => yields_ok trivial
  | (arm, patch) :: rest, h => by
    obtain ⟨htarget, hpatch⟩ := h _ List.mem_cons_self
    rw [armLines]
    refine (yields_instLines hn s 3 hpatch).bind fun _ _ => ?_
    refine (yields_targetLabel hn id htarget).bind fun _ _ => ?_
    have hrest := yields_armLines hn s id fun e he => h e (List.mem_cons_of_mem _ he)
    exact hrest.bind fun _ _ => yields_ok trivial

theorem yields_terminatorLines (hn : n.Covers characters functions) (s : CodegenSettings)
    (id : FunctionId) (hf : f.InRange characters functions) {i : BlockId} {b : GeneratedBlock}
    (hb : f.blocks[i]? = some b) : Yields (terminatorLines s n id f i b) fun _ => True := by
  have hmem := List.mem_of_getElem? hb
  have hcall := hf.calls b hmem
  unfold terminatorLines
  cases hterm : b.terminator with
  | jumpFunction g =>
    have hg : g < functions := hcall g (by simp [hterm, Terminator.functions])
    exact (hn.yields_function hg).bind fun _ _ => yields_ok trivial
  | call g =>
    have hg : g < functions := hcall g (by simp [hterm, Terminator.functions])
    exact (hn.yields_function hg).bind fun _ _ => yields_ok trivial
  | jump t =>
    have ht : t < f.blocks.length := hf.targets i b hb t (by simp [hterm, Terminator.successors])
    dsimp only
    split
    · exact yields_ok trivial
    · exact (yields_targetLabel hn id (t := .block t) ht).bind fun _ _ => yields_ok trivial
  | branch arms =>
    refine (yields_armLines hn s id fun e he => ?_).bind fun _ _ => yields_ok trivial
    obtain ⟨harm, hpatch⟩ := List.of_mem_zip he
    refine ⟨targetInRange_of_arm hf hb hterm harm, fun j hj => hf.insts b hmem j ?_⟩
    exact List.mem_append_right _ (List.mem_flatten.2 ⟨_, hpatch, hj⟩)
  | ret => exact yields_ok trivial

theorem yields_blockLines (hn : n.Covers characters functions) (s : CodegenSettings)
    (id : FunctionId) (hf : f.InRange characters functions) {i : BlockId} {b : GeneratedBlock}
    (hb : f.blocks[i]? = some b) : Yields (blockLines s n id f b i) fun _ => True := by
  have hbody : ∀ j ∈ b.body ++ b.patch, j.action.NamesBelow characters := fun j hj =>
    hf.insts b (List.mem_of_getElem? hb) j (List.mem_append_left _ hj)
  unfold blockLines
  refine (yields_instLines hn s 1 hbody).bind fun body _ => ?_
  refine (yields_terminatorLines hn s id hf hb).bind fun exit _ => ?_
  split <;> exact yields_ok trivial

theorem yields_functionLines (hn : n.Covers characters functions) (s : CodegenSettings)
    (id : FunctionId) (hf : f.InRange characters functions) :
    Yields (functionLines s n f id) fun _ => True := by
  unfold functionLines
  refine (yields_mapM (R := fun _ => True) fun e he => ?_).bind fun _ _ => yields_ok trivial
  exact yields_blockLines hn s id hf (List.mem_zipIdx_iff_getElem?.1 he)

theorem yields_lines {p : Program} {g : Generated}
    (h : ∀ f ∈ g.functions, f.InRange p.characters.length g.functions.length)
    (s : CodegenSettings) : Yields (lines p g s) fun _ => True := by
  unfold lines
  refine (yields_mapM (R := fun _ => True) fun e he => ?_).bind fun _ _ => yields_ok trivial
  have hmem := List.mem_of_getElem? (List.mem_zipIdx_iff_getElem?.1 he)
  exact yields_functionLines (Names.covers_of p g) s e.2 (h e.1 hmem)

/-- **Code in range is written.** Generated code that names only characters of the program,
its own functions and its own blocks has a script. -/
theorem yields_emit {p : Program} {g : Generated}
    (h : ∀ f ∈ g.functions, f.InRange p.characters.length g.functions.length)
    (s : CodegenSettings) : Yields (emit p g s) fun _ => True :=
  (yields_lines h s).bind fun _ _ => yields_ok trivial

end Script
end Manuscript
