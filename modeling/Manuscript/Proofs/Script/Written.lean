/-
# What a script is written from

The lines of a script taken apart: which statements stand for the body of a block,
where its label is, what its terminator becomes, and how the blocks follow each
other. Every later fact about a script starts from these equations and opens none
of the functions that write lines.

Statements of instructions act on the player's screen, and never steer; the
statements that steer come from labels and terminators alone.

Key definitions: `Script.Statement.acts`, `Script.labelsOf`, `Script.targetsOf`,
`Script.ArmWritten`, `Script.BlockWritten`, `Script.FunctionWritten`,
`Script.AllWritten`, `Terminator.transfers`.
Key theorems: `Script.acts_of_statements`, `Script.blockWritten_of_ok`,
`Script.labelsOf_block`, `Script.targetsOf_block`, `Script.lines_eq_ok`.
-/
import Mathlib.Data.List.Forall2
import Manuscript.Proofs.Program.InRange
import Manuscript.Script.Emit

namespace Manuscript

section Results

variable {ε α β : Type}

theorem mapM_eq_ok {f : α → Except ε β} : ∀ {xs : List α} {ys : List β},
    xs.mapM f = .ok ys ↔ List.Forall₂ (fun x y => f x = .ok y) xs ys
  | [], ys => by
    constructor
    · rintro ⟨⟩
      exact .nil
    · rintro ⟨⟩
      rfl
  | x :: xs, ys => by
    rw [List.mapM_cons, bind_eq_ok]
    constructor
    · rintro ⟨y, hy, h⟩
      obtain ⟨rest, hrest, h⟩ := bind_eq_ok.1 h
      cases h
      exact .cons hy (mapM_eq_ok.1 hrest)
    · rintro (_ | ⟨hy, hrest⟩)
      exact ⟨_, hy, bind_eq_ok.2 ⟨_, mapM_eq_ok.2 hrest, rfl⟩⟩

/-- What is related to the elements of a list with their places stands at these places. -/
theorem getElem?_of_zipIdx {R : α × Nat → β → Prop} {xs : List α} {ys : List β}
    (h : List.Forall₂ R xs.zipIdx ys) {i : Nat} {x : α} (hx : xs[i]? = some x) :
    ∃ y, ys[i]? = some y ∧ R (x, i) y := by
  obtain ⟨hlt, rfl⟩ := List.getElem?_eq_some_iff.1 hx
  have hi : i < ys.length := by
    rw [← h.length_eq, List.length_zipIdx]
    exact hlt
  have hget := h.get (by simpa using hlt) hi
  exact ⟨ys[i], List.getElem?_eq_getElem hi, by simpa using hget⟩

theorem exists_of_getElem?_zipIdx {R : α × Nat → β → Prop} {xs : List α} {ys : List β}
    (h : List.Forall₂ R xs.zipIdx ys) {i : Nat} {y : β} (hy : ys[i]? = some y) :
    ∃ x, xs[i]? = some x ∧ R (x, i) y := by
  have hlt : i < xs.length := by
    rw [← List.length_zipIdx, h.length_eq]
    exact (List.getElem?_eq_some_iff.1 hy).1
  obtain ⟨z, hz, hR⟩ := getElem?_of_zipIdx h (List.getElem?_eq_getElem hlt)
  rw [hy] at hz
  cases hz
  exact ⟨xs[i], List.getElem?_eq_getElem hlt, hR⟩

theorem map_eq_of_forall₂ {γ : Type} {R : α → β → Prop} {a : α → γ} {b : β → γ} {xs : List α}
    {ys : List β} (h : List.Forall₂ R xs ys) (hR : ∀ x y, R x y → a x = b y) :
    xs.map a = ys.map b := by
  induction h with
  | nil => rfl
  | cons hfirst _ ih => rw [List.map_cons, List.map_cons, hR _ _ hfirst, ih]

end Results

/-- The targets that the terminator of block `i` writes: none if control gets to the next
block by itself. -/
def Terminator.transfers (i : BlockId) : Terminator → List Target
  | .jumpFunction g | .call g => [.function g]
  | .jump t => if t = i + 1 then [] else [.block t]
  | .branch arms => arms.map (·.target)
  | .ret => []

namespace Script

/-! ### Statements that act and statements that steer -/

namespace Statement

/-- The label that a statement sets. -/
def label? : Statement → Option String
  | label name => some name
  | _ => none

/-- The label that a statement goes to. -/
def target? : Statement → Option String
  | jump target | call target => some target
  | _ => none

/-- The statement does something on its way to the next line; the others define something, or
say where control goes. -/
def acts : Statement → Bool
  | say .. | showImage _ | hideImage _ | scene _ | play .. | call _ | verbatim _ | comment _ => true
  | blank | define .. | image .. | label _ | jump _ | menu | choice _ | ret | pass => false

theorem label?_of_acts {st : Statement} (h : st.acts = true) : st.label? = none := by
  cases st <;> first | rfl | cases h

end Statement

/-- The labels that lines set, in order. -/
def labelsOf (ls : List Line) : List String := ls.filterMap (·.statement.label?)

/-- The labels that lines go to, in order. -/
def targetsOf (ls : List Line) : List String := ls.filterMap (·.statement.target?)

@[simp] theorem labelsOf_nil : labelsOf [] = [] := rfl

@[simp] theorem targetsOf_nil : targetsOf [] = [] := rfl

@[simp] theorem labelsOf_append (ls ms : List Line) :
    labelsOf (ls ++ ms) = labelsOf ls ++ labelsOf ms := List.filterMap_append

@[simp] theorem targetsOf_append (ls ms : List Line) :
    targetsOf (ls ++ ms) = targetsOf ls ++ targetsOf ms := List.filterMap_append

theorem labelsOf_cons (l : Line) (ls : List Line) :
    labelsOf (l :: ls) = l.statement.label?.toList ++ labelsOf ls := by
  cases h : l.statement.label? <;> simp [labelsOf, h]

theorem targetsOf_cons (l : Line) (ls : List Line) :
    targetsOf (l :: ls) = l.statement.target?.toList ++ targetsOf ls := by
  cases h : l.statement.target? <;> simp [targetsOf, h]

variable {s : CodegenSettings} {n : Names} {id : FunctionId} {f : GeneratedFunction}

/-- The statements of an instruction act, and go nowhere. -/
theorem acts_of_statements {i : Inst} {sts : List Statement} (h : statements s n i = .ok sts) :
    ∀ st ∈ sts, st.acts = true ∧ st.target? = none := by
  unfold statements at h
  -- An instruction that names a character looks its identifier up first.
  split at h
  all_goals first
    | cases h
    | obtain ⟨name, -, h⟩ := bind_eq_ok.1 h
      cases h
  all_goals try split
  all_goals simp [Statement.acts, Statement.target?]

/-- The statements of instructions in turn. -/
def Performs (s : CodegenSettings) (n : Names) (is : List Inst) (sts : List Statement) : Prop :=
  ∃ each, is.mapM (statements s n) = .ok each ∧ sts = each.flatten

/-- A statement among those of instructions is one of an instruction. -/
theorem Performs.exists_inst {is : List Inst} {sts : List Statement} (h : Performs s n is sts)
    {st : Statement} (hst : st ∈ sts) :
    ∃ i ∈ is, ∃ group, statements s n i = .ok group ∧ st ∈ group := by
  obtain ⟨each, heach, rfl⟩ := h
  obtain ⟨group, hgroup, hst⟩ := List.mem_flatten.1 hst
  obtain ⟨i, hi, hok⟩ := exists_of_mem_forall₂ (mapM_eq_ok.1 heach) hgroup
  exact ⟨i, hi, group, hok, hst⟩

theorem Performs.acts {is : List Inst} {sts : List Statement} (h : Performs s n is sts) :
    ∀ st ∈ sts, st.acts = true ∧ st.target? = none := by
  intro st hst
  obtain ⟨i, -, group, hok, hst⟩ := h.exists_inst hst
  exact acts_of_statements hok st hst

theorem instLines_eq_ok {depth : Nat} {is : List Inst} {ls : List Line}
    (h : instLines s n depth is = .ok ls) :
    ∃ sts, Performs s n is sts ∧ ls = atDepth depth sts := by
  obtain ⟨each, heach, h⟩ := bind_eq_ok.1 h
  cases h
  exact ⟨each.flatten, ⟨each, heach, rfl⟩, rfl⟩

theorem labelsOf_atDepth {depth : Nat} {sts : List Statement}
    (h : ∀ st ∈ sts, st.acts = true ∧ st.target? = none) : labelsOf (atDepth depth sts) = [] := by
  rw [labelsOf, List.filterMap_eq_nil_iff]
  intro l hl
  obtain ⟨st, hst, rfl⟩ := List.mem_map.1 hl
  exact Statement.label?_of_acts (h st hst).1

theorem targetsOf_atDepth {depth : Nat} {sts : List Statement}
    (h : ∀ st ∈ sts, st.acts = true ∧ st.target? = none) : targetsOf (atDepth depth sts) = [] := by
  rw [targetsOf, List.filterMap_eq_nil_iff]
  intro l hl
  obtain ⟨st, hst, rfl⟩ := List.mem_map.1 hl
  exact (h st hst).2

/-! ### Arms -/

/-- The lines of an arm: what it offers, its patch and its jump. -/
def ArmWritten (s : CodegenSettings) (n : Names) (id : FunctionId) (f : GeneratedFunction)
    (e : Arm × List Inst) (ls : List Line) : Prop :=
  ∃ sts target, Performs s n e.2 sts ∧ targetLabel n id f e.1.target = .ok target ∧
    ls = ⟨2, .choice e.1.text⟩ :: (atDepth 3 sts ++ [⟨3, .jump target⟩])

theorem armLines_eq_ok : ∀ {arms : List (Arm × List Inst)} {ls : List Line},
    armLines s n id f arms = .ok ls →
      ∃ parts, List.Forall₂ (ArmWritten s n id f) arms parts ∧ ls = parts.flatten
  | [], ls, h => by
    cases h
    exact ⟨[], .nil, rfl⟩
  | (arm, patch) :: rest, ls, h => by
    rw [armLines] at h
    obtain ⟨patchLines, hpatch, h⟩ := bind_eq_ok.1 h
    obtain ⟨target, htarget, h⟩ := bind_eq_ok.1 h
    obtain ⟨restLines, hrest, h⟩ := bind_eq_ok.1 h
    cases h
    obtain ⟨sts, hsts, rfl⟩ := instLines_eq_ok hpatch
    obtain ⟨parts, hparts, rfl⟩ := armLines_eq_ok hrest
    exact ⟨_ :: parts, .cons ⟨sts, target, hsts, htarget, rfl⟩ hparts, by simp⟩

theorem labelsOf_arms {arms : List (Arm × List Inst)} {parts : List (List Line)}
    (h : List.Forall₂ (ArmWritten s n id f) arms parts) : labelsOf parts.flatten = [] := by
  induction h with
  | nil => rfl
  | cons hwritten _ ih =>
    obtain ⟨sts, target, hsts, -, rfl⟩ := hwritten
    simp [labelsOf_cons, labelsOf_atDepth hsts.acts, Statement.label?, ih]

/-- The arms go where their targets are written. -/
theorem targetsOf_arms {arms : List (Arm × List Inst)} {parts : List (List Line)}
    (h : List.Forall₂ (ArmWritten s n id f) arms parts) :
    List.Forall₂ (fun t name => targetLabel n id f t = .ok name) (arms.map (·.1.target))
      (targetsOf parts.flatten) := by
  induction h with
  | nil => exact .nil
  | @cons e part arms parts hwritten _ ih =>
    obtain ⟨sts, target, hsts, htarget, rfl⟩ := hwritten
    have hfirst : targetsOf (⟨2, .choice e.1.text⟩ :: (atDepth 3 sts ++ [⟨3, .jump target⟩])) =
        [target] := by
      simp [targetsOf_cons, targetsOf_atDepth hsts.acts, Statement.target?]
    rw [List.flatten_cons, targetsOf_append, hfirst]
    exact .cons htarget ih

/-! ### Blocks -/

/-- The lines of a terminator set no label. -/
theorem labelsOf_terminatorLines {i : BlockId} {b : GeneratedBlock} {ls : List Line}
    (h : terminatorLines s n id f i b = .ok ls) : labelsOf ls = [] := by
  unfold terminatorLines at h
  split at h
  · obtain ⟨name, -, h⟩ := bind_eq_ok.1 h
    cases h
    rfl
  · obtain ⟨name, -, h⟩ := bind_eq_ok.1 h
    cases h
    rfl
  · split at h
    · cases h
      rfl
    · obtain ⟨name, -, h⟩ := bind_eq_ok.1 h
      cases h
      rfl
  · obtain ⟨armLines, harms, h⟩ := bind_eq_ok.1 h
    cases h
    obtain ⟨parts, hparts, rfl⟩ := armLines_eq_ok harms
    simp [labelsOf_cons, Statement.label?, labelsOf_arms hparts]
  · cases h
    rfl

/-- The lines of a terminator go where its targets are written. -/
theorem targetsOf_terminatorLines {i : BlockId} {b : GeneratedBlock} {ls : List Line}
    (hpatches : ∀ arms, b.terminator = .branch arms → b.armPatches.length = arms.length)
    (h : terminatorLines s n id f i b = .ok ls) :
    List.Forall₂ (fun t name => targetLabel n id f t = .ok name) (b.terminator.transfers i)
      (targetsOf ls) := by
  unfold terminatorLines at h
  cases hterm : b.terminator with
  | jumpFunction g =>
    rw [hterm] at h
    obtain ⟨name, hname, h⟩ := bind_eq_ok.1 h
    cases h
    exact .cons hname .nil
  | call g =>
    rw [hterm] at h
    obtain ⟨name, hname, h⟩ := bind_eq_ok.1 h
    cases h
    exact .cons hname .nil
  | jump t =>
    rw [hterm] at h
    dsimp only at h
    by_cases ht : t = i + 1
    · rw [if_pos ht] at h
      cases h
      simp [Terminator.transfers, ht]
    · rw [if_neg ht] at h
      obtain ⟨name, hname, h⟩ := bind_eq_ok.1 h
      cases h
      rw [Terminator.transfers, if_neg ht]
      exact .cons hname .nil
  | branch arms =>
    rw [hterm] at h
    obtain ⟨armLines, harms, h⟩ := bind_eq_ok.1 h
    cases h
    obtain ⟨parts, hparts, rfl⟩ := armLines_eq_ok harms
    have hzip : (arms.zip b.armPatches).map (·.1.target) = arms.map (·.target) := by
      have hfst := congrArg (List.map Arm.target)
        (List.map_fst_zip (Nat.le_of_eq (hpatches arms hterm).symm))
      rwa [List.map_map] at hfst
    have htargets := targetsOf_arms hparts
    rw [hzip] at htargets
    exact htargets
  | ret =>
    rw [hterm] at h
    cases h
    exact .nil

/-- The lines of a label. -/
def heading (label : Option String) : List Line := label.toList.map fun l => ⟨0, .label l⟩

/-- What fills a block that has a label and nothing else. -/
def padding (label : Option String) (rest : List Line) : List Line :=
  if label.isSome && rest.isEmpty then [⟨1, .pass⟩] else []

/-- The lines of block `i` in their parts: its label, its instructions, its exit, and what
stands in for them where there is nothing else. -/
structure BlockWritten (s : CodegenSettings) (n : Names) (id : FunctionId) (f : GeneratedFunction)
    (b : GeneratedBlock) (i : BlockId) (sts : List Statement) (out ls : List Line) : Prop where
  performs : Performs s n (b.body ++ b.patch) sts
  exit : terminatorLines s n id f i b = .ok out
  lines : ls = heading (blockLabel? n id i b) ++ atDepth 1 sts ++ out ++
    padding (blockLabel? n id i b) (atDepth 1 sts ++ out)

theorem blockWritten_of_ok {b : GeneratedBlock} {i : BlockId} {ls : List Line}
    (h : blockLines s n id f b i = .ok ls) :
    ∃ sts out, BlockWritten s n id f b i sts out ls := by
  unfold blockLines at h
  obtain ⟨body, hbody, h⟩ := bind_eq_ok.1 h
  obtain ⟨out, hout, h⟩ := bind_eq_ok.1 h
  obtain ⟨sts, hsts, rfl⟩ := instLines_eq_ok hbody
  refine ⟨sts, out, hsts, hout, ?_⟩
  cases hlabel : blockLabel? n id i b with
  | none =>
    rw [hlabel] at h
    cases h
    simp [heading, padding]
  | some l =>
    rw [hlabel] at h
    cases hrest : atDepth 1 sts ++ out with
    | nil =>
      rw [hrest] at h
      cases h
      obtain ⟨hsts, hout⟩ := List.append_eq_nil_iff.1 hrest
      simp [heading, padding, hsts, hout]
    | cons l' rest =>
      rw [hrest] at h
      cases h
      simp [heading, padding, hrest]

section Block

variable {b : GeneratedBlock} {i : BlockId} {sts : List Statement} {out ls : List Line}

/-- A block sets its own label and no other. -/
theorem labelsOf_block (h : BlockWritten s n id f b i sts out ls) :
    labelsOf ls = (blockLabel? n id i b).toList := by
  have hpadding : ∀ l rest, labelsOf (padding l rest) = [] := fun l rest => by
    unfold padding
    split <;> rfl
  rw [h.lines, labelsOf_append, labelsOf_append, labelsOf_append, hpadding,
    labelsOf_terminatorLines h.exit, labelsOf_atDepth h.performs.acts]
  cases blockLabel? n id i b <;> rfl

/-- A block goes where the targets of its terminator are written. -/
theorem targetsOf_block
    (hpatches : ∀ arms, b.terminator = .branch arms → b.armPatches.length = arms.length)
    (h : BlockWritten s n id f b i sts out ls) :
    List.Forall₂ (fun t name => targetLabel n id f t = .ok name) (b.terminator.transfers i)
      (targetsOf ls) := by
  have hheading : ∀ l, targetsOf (heading l) = [] := fun l => by cases l <;> rfl
  have hpadding : ∀ l rest, targetsOf (padding l rest) = [] := fun l rest => by
    unfold padding
    split <;> rfl
  have htargets : targetsOf ls = targetsOf out := by
    rw [h.lines, targetsOf_append, targetsOf_append, targetsOf_append, hpadding, hheading,
      targetsOf_atDepth h.performs.acts, List.nil_append, List.nil_append, List.append_nil]
  rw [htargets]
  exact targetsOf_terminatorLines hpatches h.exit

end Block

/-! ### Functions and scripts -/

/-- The lines of the blocks of a function. -/
def FunctionWritten (s : CodegenSettings) (n : Names) (id : FunctionId) (f : GeneratedFunction)
    (blocks : List (List Line)) : Prop :=
  List.Forall₂ (fun e ls => blockLines s n id f e.1 e.2 = .ok ls) f.blocks.zipIdx blocks

/-- The lines of a function from those of its blocks, with a blank line behind them. -/
def chapter (blocks : List (List Line)) : List Line := blocks.flatten ++ [⟨0, .blank⟩]

theorem functionLines_eq_ok {ls : List Line} : functionLines s n f id = .ok ls ↔
    ∃ blocks, FunctionWritten s n id f blocks ∧ ls = chapter blocks := by
  constructor
  · intro h
    obtain ⟨blocks, hblocks, h⟩ := bind_eq_ok.1 h
    cases h
    exact ⟨blocks, mapM_eq_ok.1 hblocks, rfl⟩
  · rintro ⟨blocks, hblocks, rfl⟩
    exact bind_eq_ok.2 ⟨blocks, mapM_eq_ok.2 hblocks, rfl⟩

theorem chapters_of_functionLines {es : List (GeneratedFunction × FunctionId)}
    {fs : List (List Line)}
    (h : List.Forall₂ (fun e ls => functionLines s n e.1 e.2 = .ok ls) es fs) :
    ∃ chapters, List.Forall₂ (fun e blocks => FunctionWritten s n e.2 e.1 blocks) es chapters ∧
      fs = chapters.map chapter := by
  induction h with
  | nil => exact ⟨[], .nil, rfl⟩
  | cons hfirst _ ih =>
    obtain ⟨blocks, hblocks, rfl⟩ := functionLines_eq_ok.1 hfirst
    obtain ⟨chapters, hchapters, rfl⟩ := ih
    exact ⟨blocks :: chapters, .cons hblocks hchapters, rfl⟩

/-- All functions of a script, written block by block. -/
def AllWritten (s : CodegenSettings) (p : Program) (g : Generated)
    (chapters : List (List (List Line))) : Prop :=
  List.Forall₂ (fun e blocks => FunctionWritten s (Names.of p g) e.2 e.1 blocks)
    g.functions.zipIdx chapters

/-- The lines of a script are what stands before the functions, and the functions, block by
block. -/
theorem lines_eq_ok {p : Program} {g : Generated} {ls : List Line} (h : lines p g s = .ok ls) :
    ∃ chapters, AllWritten s p g chapters ∧
      ls = preamble p g s (Names.of p g) ++ (chapters.map chapter).flatten := by
  obtain ⟨fs, hfs, h⟩ := bind_eq_ok.1 h
  cases h
  obtain ⟨chapters, hchapters, rfl⟩ := chapters_of_functionLines (mapM_eq_ok.1 hfs)
  exact ⟨chapters, hchapters, rfl⟩

end Script
end Manuscript
