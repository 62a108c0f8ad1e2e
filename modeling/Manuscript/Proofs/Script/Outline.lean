/-
# The outline of a script

What the lines of a script are for, with all texts left out. The outline is read off
the program and its generated code: a line for each character, image and label, for
each instruction, menu, arm and exit, for the comment at the top, and blank lines
between the sections. A comment is a line where comments are emitted, a jump to the
next block is none, and a label with nothing below it gets a line to fill it.

The lines of a script have this outline, whatever the texts are, as long as no text
goes to the script as it is (`Script.parts_lines`).

Key definitions: `Script.Part`, `Script.Statement.part`, `Script.outline`.
Key theorems: `Script.parts_statements`, `Script.parts_block`, `Script.parts_chapters`,
`Script.parts_lines`.
-/
import Manuscript.Proofs.Script.Images
import Manuscript.Proofs.Script.Labels

namespace Manuscript

/-- The action puts text into the script as it is. -/
def Action.isVerbatim : Action → Bool
  | .verbatim _ => true
  | _ => false

namespace Script

/-! ### Outlines -/

/-- What a line of a script is for. -/
inductive Part where
  | remark
  | define
  | image
  | label
  | action
  | menu
  /-- An arm of a menu. -/
  | arm
  /-- A jump, a call or a return. -/
  | exit
  /-- What fills a label with nothing below it. -/
  | filler
  /-- A blank line. -/
  | gap
deriving Repr, DecidableEq

def Statement.part : Statement → Part
  | blank => .gap
  | comment _ => .remark
  | define .. => .define
  | image .. => .image
  | label _ => .label
  | say .. | showImage _ | hideImage _ | scene _ | play .. | verbatim _ => .action
  | jump _ | call _ | ret => .exit
  | menu => .menu
  | choice _ => .arm
  | pass => .filler

/-- What lines are for, one by one. -/
def parts (ls : List Line) : List Part := ls.map (·.statement.part)

/-- An instruction is one line, unless it is a comment that is left out. -/
def instOutline (s : CodegenSettings) (i : Inst) : List Part :=
  match i.action with
  | .comment _ => if s.emitComments then [.remark] else []
  | _ => [.action]

/-- Each arm is a line, followed by its patch and its jump. -/
def armsOutline (s : CodegenSettings) : List Arm → List (List Inst) → List Part
  | [], _ => []
  | _ :: arms, patches =>
    .arm :: ((patches.headD []).flatMap (instOutline s) ++ .exit :: armsOutline s arms patches.tail)

/-- The exit of block `i`. -/
def exitOutline (s : CodegenSettings) (b : GeneratedBlock) (i : BlockId) : List Part :=
  match b.terminator with
  | .jump t => if t = i + 1 then [] else [.exit]
  | .branch arms => .menu :: armsOutline s arms b.armPatches
  | _ => [.exit]

/-- Block `i`: its label, if it is the first or has one, its instructions and its exit. -/
def blockOutline (s : CodegenSettings) (b : GeneratedBlock) (i : BlockId) : List Part :=
  let rest := (b.body ++ b.patch).flatMap (instOutline s) ++ exitOutline s b i
  if i = 0 ∨ b.label.isSome then .label :: (if rest.isEmpty then [.filler] else rest) else rest

def functionOutline (s : CodegenSettings) (f : GeneratedFunction) : List Part :=
  f.blocks.zipIdx.flatMap (fun e => blockOutline s e.1 e.2) ++ [.gap]

/-- A section is closed by a blank line if there is anything in it. -/
def sectionOutline (ps : List Part) : List Part := if ps.isEmpty then [] else ps ++ [.gap]

/-- The outline of a script. -/
def outline (p : Program) (g : Generated) (s : CodegenSettings) : List Part :=
  (if s.headerComment then [.remark, .gap] else [])
    ++ sectionOutline (p.characters.map fun _ => .define)
    ++ sectionOutline ((imageNames p g (Names.of p g)).map fun _ => .image)
    ++ g.functions.flatMap (functionOutline s)

/-! ### Instructions -/

variable {s : CodegenSettings} {n : Names} {p : Program} {g : Generated}

@[simp] theorem parts_append (ls ms : List Line) : parts (ls ++ ms) = parts ls ++ parts ms :=
  List.map_append

@[simp] theorem parts_cons (l : Line) (ls : List Line) :
    parts (l :: ls) = l.statement.part :: parts ls := rfl

@[simp] theorem parts_nil : parts [] = [] := rfl

theorem parts_atDepth (depth : Nat) (sts : List Statement) :
    parts (atDepth depth sts) = sts.map Statement.part := by
  rw [parts, atDepth, List.map_map]
  rfl

theorem parts_flatten (pieces : List (List Line)) : parts pieces.flatten = pieces.flatMap parts := by
  rw [parts, List.map_flatten, List.flatMap_def]
  rfl

/-- **An instruction is one line**, whatever its texts are. -/
theorem parts_statements {i : Inst} {sts : List Statement} (h : statements s n i = .ok sts)
    (hi : i.action.isVerbatim = false) : sts.map Statement.part = instOutline s i := by
  rcases i with ⟨a, loc⟩
  cases a with
  | say speaker status content =>
    rcases speaker with _ | id
    · cases h
      rfl
    · rcases status with _ | ⟨tag, tags⟩
      · obtain ⟨word, -, h⟩ := bind_eq_ok.1 h
        cases h
        rfl
      · obtain ⟨word, -, h⟩ := bind_eq_ok.1 h
        cases h
        rfl
  | showCharacter id path | setState id path =>
    obtain ⟨word, -, h⟩ := bind_eq_ok.1 h
    cases h
    rfl
  | hideCharacter id =>
    obtain ⟨word, -, h⟩ := bind_eq_ok.1 h
    cases h
    rfl
  | verbatim text => cases hi
  | comment text =>
    cases h
    unfold instOutline
    dsimp only
    split <;> rfl
  | _ =>
    cases h
    rfl

theorem parts_performs {is : List Inst} {sts : List Statement} (h : Performs s n is sts)
    (his : ∀ i ∈ is, i.action.isVerbatim = false) :
    sts.map Statement.part = is.flatMap (instOutline s) := by
  obtain ⟨each, heach, rfl⟩ := h
  have hall := mapM_eq_ok.1 heach
  clear heach
  induction hall with
  | nil => rfl
  | cons hfirst _ ih =>
    obtain ⟨hi, his⟩ := List.forall_mem_cons.1 his
    rw [List.flatten_cons, List.map_append, List.flatMap_cons, parts_statements hfirst hi, ih his]

/-! ### Blocks -/

section Function

variable {id : FunctionId} {f : GeneratedFunction} {b : GeneratedBlock} {i : BlockId}

/-- With a patch for every arm, every arm is a line. -/
theorem parts_arms : ∀ {arms : List Arm} {patches : List (List Inst)} {pieces : List (List Line)},
    patches.length = arms.length → (∀ i ∈ patches.flatten, i.action.isVerbatim = false) →
    List.Forall₂ (ArmWritten s n id f) (arms.zip patches) pieces →
      parts pieces.flatten = armsOutline s arms patches
  | [], _, _, _, _, h => by
    rw [List.zip_nil_left] at h
    cases h
    rfl
  | arm :: arms, patch :: patches, _, hlength, hpatches, h => by
    rw [List.zip_cons_cons] at h
    rw [List.flatten_cons] at hpatches
    obtain ⟨hpatch, hpatches⟩ := List.forall_mem_append.1 hpatches
    cases h with
    | cons hfirst hrest =>
      have ih := parts_arms (Nat.succ.inj hlength) hpatches hrest
      obtain ⟨sts, target, hsts, -, rfl⟩ := hfirst
      rw [List.flatten_cons, parts_append, ih]
      simp [parts_atDepth, parts_performs hsts hpatch, armsOutline, Statement.part]

theorem parts_terminatorLines {ls : List Line} (h : terminatorLines s n id f i b = .ok ls)
    (harms : ∀ arms, b.terminator = .branch arms → b.armPatches.length = arms.length)
    (hpatches : ∀ i ∈ b.armPatches.flatten, i.action.isVerbatim = false) :
    parts ls = exitOutline s b i := by
  unfold terminatorLines at h
  unfold exitOutline
  cases hterm : b.terminator with
  | jumpFunction g | call g =>
    rw [hterm] at h
    obtain ⟨name, -, h⟩ := bind_eq_ok.1 h
    cases h
    rfl
  | jump t =>
    rw [hterm] at h
    dsimp only at h ⊢
    by_cases ht : t = i + 1
    · rw [if_pos ht] at h ⊢
      cases h
      rfl
    · rw [if_neg ht] at h ⊢
      obtain ⟨name, -, h⟩ := bind_eq_ok.1 h
      cases h
      rfl
  | branch arms =>
    rw [hterm] at h
    obtain ⟨armLines, hlines, h⟩ := bind_eq_ok.1 h
    cases h
    obtain ⟨pieces, hpieces, rfl⟩ := armLines_eq_ok hlines
    rw [parts_cons, parts_arms (harms arms hterm) hpatches hpieces]
    rfl
  | ret =>
    rw [hterm] at h
    cases h
    rfl

theorem isSome_blockLabel? (n : Names) (id : FunctionId) (i : BlockId) (b : GeneratedBlock) :
    (blockLabel? n id i b).isSome = true ↔ i = 0 ∨ b.label.isSome = true := by
  unfold blockLabel?
  by_cases hi : i = 0
  · simp [hi]
  · simp [hi, Names.label?_eq]

/-- **The lines of a block** are its label, its instructions and its exit. -/
theorem parts_block {ls : List Line} (h : blockLines s n id f b i = .ok ls)
    (harms : ∀ arms, b.terminator = .branch arms → b.armPatches.length = arms.length)
    (hinsts : ∀ i ∈ b.insts, i.action.isVerbatim = false) : parts ls = blockOutline s b i := by
  obtain ⟨hbody, hpatches⟩ := List.forall_mem_append.1 hinsts
  obtain ⟨sts, out, hwritten⟩ := blockWritten_of_ok h
  have hrest : parts (atDepth 1 sts ++ out) =
      (b.body ++ b.patch).flatMap (instOutline s) ++ exitOutline s b i := by
    rw [parts_append, parts_atDepth, parts_performs hwritten.performs hbody,
      parts_terminatorLines hwritten.exit harms hpatches]
  have hempty : (atDepth 1 sts ++ out).isEmpty = (parts (atDepth 1 sts ++ out)).isEmpty := by
    rw [parts, List.isEmpty_map]
  rw [hwritten.lines, List.append_assoc (heading _), parts_append, parts_append, blockOutline,
    ← hrest, ← hempty]
  cases hlabel : blockLabel? n id i b with
  | none =>
    have hnone : ¬ (i = 0 ∨ b.label.isSome = true) := by
      rw [← isSome_blockLabel? n id i b, hlabel]
      simp
    rw [if_neg hnone]
    simp [heading, padding]
  | some name =>
    have hsome : i = 0 ∨ b.label.isSome = true := by
      rw [← isSome_blockLabel? n id i b, hlabel]
      rfl
    rw [if_pos hsome]
    by_cases hnil : atDepth 1 sts ++ out = []
    · rw [hnil]
      rfl
    · simp [heading, padding, hnil, Statement.part]

end Function

/-! ### Scripts -/

theorem parts_chapter {functions : Nat} {id : FunctionId} {f : GeneratedFunction}
    {blocks : List (List Line)} (h : FunctionWritten s n id f blocks) (hf : f.Wired functions)
    (hinsts : ∀ b ∈ f.blocks, ∀ i ∈ b.insts, i.action.isVerbatim = false) :
    parts (chapter blocks) = functionOutline s f := by
  have hmem : ∀ e ∈ f.blocks.zipIdx, e.1 ∈ f.blocks := fun e he =>
    List.mem_of_getElem? (List.mem_zipIdx_iff_getElem?.1 he)
  have hblocks : ∀ {es : List (GeneratedBlock × BlockId)} {blocks : List (List Line)},
      (∀ e ∈ es, e.1 ∈ f.blocks) →
      List.Forall₂ (fun e ls => blockLines s n id f e.1 e.2 = .ok ls) es blocks →
        blocks.flatMap parts = es.flatMap fun e => blockOutline s e.1 e.2 := by
    intro es blocks hes h
    induction h with
    | nil => rfl
    | @cons e ls es blocks hfirst _ ih =>
      obtain ⟨he, hes⟩ := List.forall_mem_cons.1 hes
      have hpart := parts_block hfirst (fun arms harms => (hf.arms e.1 he arms harms).2) (hinsts e.1 he)
      rw [List.flatMap_cons, List.flatMap_cons, hpart, ih hes]
  rw [chapter, parts_append, parts_flatten, hblocks hmem h]
  rfl

theorem parts_chapters {chapters : List (List (List Line))} (h : AllWritten s p g chapters)
    (hwired : ∀ f ∈ g.functions, f.Wired g.functions.length)
    (hinsts : ∀ i ∈ g.insts, i.action.isVerbatim = false) :
    parts (chapters.map chapter).flatten = g.functions.flatMap (functionOutline s) := by
  have hall : ∀ e ∈ g.functions.zipIdx, e.1.Wired g.functions.length ∧
      ∀ b ∈ e.1.blocks, ∀ i ∈ b.insts, i.action.isVerbatim = false := by
    intro e he
    have hmem := List.mem_of_getElem? (List.mem_zipIdx_iff_getElem?.1 he)
    refine ⟨hwired e.1 hmem, fun b hb i hi => hinsts i ?_⟩
    exact List.mem_flatMap.2 ⟨e.1, hmem, List.mem_flatMap.2 ⟨b, hb, hi⟩⟩
  rw [parts_flatten, ← List.zipIdx_map_fst 0 g.functions, List.flatMap_map]
  unfold AllWritten at h
  generalize g.functions.zipIdx = es at h hall
  generalize g.functions.length = functions at hall
  induction h with
  | nil => rfl
  | @cons e blocks es chapters hfirst _ ih =>
    obtain ⟨⟨hf, hblocks⟩, hes⟩ := List.forall_mem_cons.1 hall
    rw [List.map_cons, List.flatMap_cons, List.flatMap_cons, parts_chapter hfirst hf hblocks, ih hes]

theorem parts_closed (ls : List Line) : parts (closed ls) = sectionOutline (parts ls) := by
  have hempty : (parts ls).isEmpty = ls.isEmpty := List.isEmpty_map
  rw [closed, sectionOutline, hempty]
  split
  · rfl
  · rw [parts_append]
    rfl

/-- Image statements are all that stands among the images. -/
theorem exists_image {n : Names} {st : Statement} (h : st ∈ images p g s n) :
    ∃ name art, st = .image name art := by
  simp only [images, characterImages, List.mem_append, List.mem_flatMap, List.mem_map] at h
  rcases h with (⟨e, -, ⟨_, -, rfl⟩ | ⟨_, -, rfl⟩⟩ | ⟨sc, -, rfl⟩) | ⟨i, -, rfl⟩ <;>
    exact ⟨_, _, rfl⟩

/-- Each of these defines one image. -/
theorem part_images (p : Program) (g : Generated) (s : CodegenSettings) (n : Names) :
    (images p g s n).map Statement.part = (imageNames p g n).map fun _ => .image := by
  have hstatement : ∀ st ∈ images p g s n, ∃ name art, st = .image name art :=
    fun st hst => exists_image hst
  rw [← filterMap_defines?_images p g s n]
  generalize images p g s n = sts at hstatement
  induction sts with
  | nil => rfl
  | cons st sts ih =>
    obtain ⟨⟨name, art, rfl⟩, hrest⟩ := List.forall_mem_cons.1 hstatement
    rw [List.map_cons, ih hrest]
    rfl

theorem parts_preamble (p : Program) (g : Generated) (s : CodegenSettings) :
    parts (preamble p g s (Names.of p g)) =
      (if s.headerComment then [.remark, .gap] else [])
        ++ sectionOutline (p.characters.map fun _ => .define)
        ++ sectionOutline ((imageNames p g (Names.of p g)).map fun _ => .image) := by
  have hheader : parts (header p s) = if s.headerComment then [.remark, .gap] else [] := by
    unfold header
    split <;> rfl
  have hlength : p.characters.length ≤ (Names.of p g).characters.length :=
    Nat.le_of_eq (Names.covers_of p g).length_characters.symm
  have hdefines : parts (defines p (Names.of p g)) =
      sectionOutline (p.characters.map fun _ => .define) := by
    rw [defines, parts_closed, parts_atDepth, List.map_map]
    conv_rhs => rw [← List.map_fst_zip hlength, List.map_map]
    rfl
  rw [preamble, parts_append, parts_append, hheader, hdefines, parts_closed, parts_atDepth,
    part_images]

/-- **The lines of a script have its outline**, unless text goes to the script as it is. -/
theorem parts_lines {ls : List Line} (h : lines p g s = .ok ls)
    (hwired : ∀ f ∈ g.functions, f.Wired g.functions.length)
    (hinsts : ∀ i ∈ g.insts, i.action.isVerbatim = false) : parts ls = outline p g s := by
  obtain ⟨chapters, hwritten, rfl⟩ := lines_eq_ok h
  rw [parts_append, parts_preamble, parts_chapters hwritten hwired hinsts, outline]

end Script
end Manuscript
