/-
# Styles do not reach the stage

The stage shows characters and scenes, and a line with its status changes it
whatever the line says. So a program without styles is walked as the program is, and
generating code commutes with erasing styles (`generate_unstyled`): the patches, the
scenes and the reports are the same. The transcript holds plain text only, and is
the same too (`Transcript.of_unstyled`).

Key definitions: `Walked.unstyled`, `Generated.unstyled`.
Key theorems: `Walk.inst_unstyled`, `Generate.visitFrom_unstyled`,
`generate_unstyled`, `Transcript.of_unstyled`.
-/
import Manuscript.Proofs.Flow.Unstyled
import Manuscript.Proofs.Text.Plain
import Manuscript.Stage.Generate
import Manuscript.Transcript

namespace Manuscript

/-- What an instruction amounts to, without styles. -/
def Walked.unstyled (r : Walked) : Walked := { r with emitted := r.emitted.map Inst.unstyled }

/-- A visit without styles. -/
def Generate.Visit.unstyled (v : Visit) : Visit := { v with body := v.body.map Inst.unstyled }

/-- A block of generated code without styles. -/
def GeneratedBlock.unstyled (b : GeneratedBlock) : GeneratedBlock :=
  { b with body := b.body.map Inst.unstyled }

/-- A function of generated code without styles. -/
def GeneratedFunction.unstyled (f : GeneratedFunction) : GeneratedFunction :=
  { f with blocks := f.blocks.map GeneratedBlock.unstyled }

/-- Generated code without styles. -/
def Generated.unstyled (g : Generated) : Generated :=
  { g with functions := g.functions.map GeneratedFunction.unstyled }

/-! ### Walking -/

namespace Walk

variable (p : Program) (policy : ReentrantShow) (w : Walk) (stage : Snapshot) (id : CharacterId)
  (tags : List String) (loc : Loc)

/-- What is shown has no style. -/
theorem emitShow_unstyled (path : List String) :
    Walked.unstyled <$> emitShow p w stage id path loc = emitShow p w stage id path loc := by
  unfold emitShow
  rw [map_bind]
  rfl

theorem showCharacter_unstyled : Walked.unstyled <$> showCharacter p policy w stage id tags loc =
    showCharacter p policy w stage id tags loc := by
  unfold showCharacter
  rw [map_bind]
  refine bind_congr fun r => ?_
  dsimp only
  split
  · split
    · split
      · rfl
      · exact emitShow_unstyled ..
    · rw [map_bind]
      rfl
  · exact emitShow_unstyled ..

theorem hideCharacter_unstyled : Walked.unstyled <$> hideCharacter p w stage id loc =
    hideCharacter p w stage id loc := by
  unfold hideCharacter
  split
  · rfl
  · rw [map_bind]
    rfl

theorem setState_unstyled : Walked.unstyled <$> setState p w stage id tags loc =
    setState p w stage id tags loc := by
  unfold setState
  rw [map_bind]
  refine bind_congr fun r => ?_
  dsimp only
  split
  · split
    · rfl
    · exact emitShow_unstyled ..
  · rfl

theorem sayWithStatus_unstyled (content : StyledText) :
    sayWithStatus p w stage id tags content.unstyled loc =
      Walked.unstyled <$> sayWithStatus p w stage id tags content loc := by
  unfold sayWithStatus
  rw [map_bind]
  refine bind_congr fun c => ?_
  dsimp only
  split
  · split <;> rfl
  · rfl

/-- **An instruction is carried out in the same way without its styles.** -/
theorem inst_unstyled (i : Inst) : inst p.unstyled policy w stage i.unstyled =
    Walked.unstyled <$> inst p policy w stage i := by
  rcases i with ⟨action, loc⟩
  cases action with
  | say speaker status content =>
    cases speaker with
    | none => rfl
    | some id =>
      cases status with
      | nil => rfl
      | cons tag tags => exact sayWithStatus_unstyled ..
  | showCharacter id tags => exact (showCharacter_unstyled ..).symm
  | hideCharacter id => exact (hideCharacter_unstyled ..).symm
  | setState id tags => exact (setState_unstyled ..).symm
  | _ => rfl

theorem insts_unstyled : ∀ (is : List Inst) (w : Walk) (stage : Snapshot),
    insts p.unstyled policy w stage (is.map Inst.unstyled) =
      (fun r => (r.1.map Inst.unstyled, r.2)) <$> insts p policy w stage is
  | [], _, _ => rfl
  | i :: rest, w, stage => by
    rw [List.map_cons, insts, insts, inst_unstyled, bind_map_left, map_bind]
    refine bind_congr fun r => ?_
    rw [insts_unstyled rest, bind_map_left, map_bind]
    refine bind_congr fun s => ?_
    rcases r with ⟨emitted, stage, w⟩
    cases emitted <;> rfl

end Walk

/-! ### Blocks -/

namespace Generate

variable (p : Program) (policy : ReentrantShow) (f : FlowGraph)

theorem edgesInto_unstyled (target : BlockId) : f.unstyled.edgesInto target = f.edgesInto target := by
  have hzip : f.unstyled.blocks.zipIdx = f.blocks.zipIdx.map (Prod.map BasicBlock.unstyled id) :=
    List.zipIdx_map ..
  unfold FlowGraph.edgesInto
  rw [hzip, List.flatMap_map]
  rfl

theorem entryOf_unstyled (initial : Snapshot) (visits : List Visit) (i : BlockId) :
    entryOf f.unstyled initial (visits.map Visit.unstyled) i = entryOf f initial visits i := by
  unfold entryOf
  rw [edgesInto_unstyled]
  split
  · rw [List.getElem?_map, Option.map_map]
    rfl
  · rw [List.getLast?_map, Option.map_map]
    rfl

/-- **The blocks are visited in the same way without styles.** -/
theorem visitFrom_unstyled : ∀ (rest : List BasicBlock) (w : Walk) (visits : List Visit),
    visitFrom p.unstyled policy f.unstyled w (visits.map Visit.unstyled)
        (rest.map BasicBlock.unstyled) =
      (fun r => (r.1.map Visit.unstyled, r.2)) <$> visitFrom p policy f w visits rest
  | [], _, _ => rfl
  | b :: rest, w, visits => by
    have hinsts : b.unstyled.insts = b.insts.map Inst.unstyled := rfl
    rw [List.map_cons, visitFrom, visitFrom, entryOf_unstyled, List.length_map, hinsts,
      Walk.insts_unstyled, bind_map_left, map_bind]
    refine bind_congr fun r => ?_
    have ih := visitFrom_unstyled rest r.2.2
      (visits ++ [⟨entryOf f (.initial p) visits visits.length, r.2.1, r.1⟩])
    rw [List.map_append] at ih
    exact ih

theorem patchOf_unstyled (visits : List Visit) (source target : BlockId) :
    patchOf (visits.map Visit.unstyled) source target = patchOf visits source target := by
  unfold patchOf
  rw [List.getElem?_map, List.getElem?_map]
  cases visits[source]? <;> cases visits[target]? <;> rfl

theorem exitPatch_unstyled (visits : List Visit) (i : BlockId) (t : Terminator) :
    exitPatch (visits.map Visit.unstyled) i t = exitPatch visits i t := by
  have hpatch := funext (patchOf_unstyled visits i)
  cases t with
  | branch arms => rfl
  | _ => simp only [exitPatch, hpatch]

theorem armPatches_unstyled (visits : List Visit) (i : BlockId) (t : Terminator) :
    armPatches (visits.map Visit.unstyled) i t = armPatches visits i t := by
  cases t with
  | branch arms =>
    refine List.map_congr_left fun a _ => ?_
    unfold armPatch
    split
    · exact patchOf_unstyled ..
    · rfl
  | _ => rfl

theorem block_unstyled (visits : List Visit) (b : BasicBlock) (i : BlockId) :
    block (visits.map Visit.unstyled) b.unstyled i = (block visits b i).unstyled := by
  have hbody : (((visits.map Visit.unstyled)[i]?).map (·.body)).getD [] =
      ((visits[i]?.map (·.body)).getD []).map Inst.unstyled := by
    rw [List.getElem?_map]
    cases visits[i]? <;> rfl
  simp only [block, GeneratedBlock.unstyled, BasicBlock.unstyled, hbody, exitPatch_unstyled,
    armPatches_unstyled]

theorem blockName_unstyled (i : BlockId) : blockName f.unstyled i = blockName f i := by
  have hlabel : (f.unstyled.blocks[i]? >>= (·.label)) = (f.blocks[i]? >>= (·.label)) := by
    rw [FlowGraph.unstyled, List.getElem?_map]
    cases f.blocks[i]? <;> rfl
  unfold blockName
  rw [hlabel]
  rfl

theorem patchReports_unstyled (visits : List Visit) :
    patchReports f.unstyled (visits.map Visit.unstyled) = patchReports f visits := by
  have hlength : f.unstyled.blocks.length = f.blocks.length := List.length_map ..
  have hreport : ∀ b, patchReport f.unstyled (visits.map Visit.unstyled) b = patchReport f visits b := by
    intro b
    funext e
    unfold patchReport
    rw [patchOf_unstyled, blockName_unstyled, blockName_unstyled]
    rfl
  unfold patchReports
  simp only [hlength, hreport, edgesInto_unstyled]

/-- **A function is generated in the same way without its styles.** -/
theorem function_unstyled (w : Walk) : function p.unstyled policy w f.unstyled =
    (fun r => (r.1.unstyled, r.2)) <$> function p policy w f := by
  have hvisit : visit p.unstyled policy { w with unknown := [] } f.unstyled =
      (fun r => (r.1.map Visit.unstyled, r.2)) <$> visit p policy { w with unknown := [] } f :=
    visitFrom_unstyled p policy f f.blocks { w with unknown := [] } []
  have hzip : f.unstyled.blocks.zipIdx = f.blocks.zipIdx.map (Prod.map BasicBlock.unstyled id) :=
    List.zipIdx_map ..
  have hblocks : ∀ visits : List Visit,
      (f.unstyled.blocks.zipIdx.map fun e => block (visits.map Visit.unstyled) e.1 e.2) =
        (f.blocks.zipIdx.map fun e => block visits e.1 e.2).map GeneratedBlock.unstyled := by
    intro visits
    rw [hzip, List.map_map, List.map_map]
    exact List.map_congr_left fun e _ => block_unstyled visits e.1 e.2
  unfold function
  rw [hvisit, bind_map_left, map_bind]
  refine bind_congr fun r => ?_
  dsimp only
  rw [patchReports_unstyled]
  exact congrArg (fun blocks => Except.ok (GeneratedFunction.mk f.name blocks, _)) (hblocks r.1)

theorem functions_unstyled : ∀ (fs : List FlowGraph) (w : Walk),
    functions p.unstyled policy w (fs.map FlowGraph.unstyled) =
      (fun r => (r.1.map GeneratedFunction.unstyled, r.2)) <$> functions p policy w fs
  | [], _ => rfl
  | f :: rest, w => by
    rw [List.map_cons, functions, functions, function_unstyled, bind_map_left, map_bind]
    refine bind_congr fun g => ?_
    dsimp only
    rw [functions_unstyled rest, bind_map_left, map_bind]
    rfl

end Generate

/-- **Code is generated in the same way without styles**, with the same reports. -/
theorem generate_unstyled (p : Program) (s : CodegenSettings) :
    generate p.unstyled s = Generated.unstyled <$> generate p s := by
  have hfunctions : Generate.functions p.unstyled s.reentrantShow ⟨p.unstyled.scenes, [], [], []⟩
      p.unstyled.functions = (fun r => (r.1.map GeneratedFunction.unstyled, r.2)) <$>
        Generate.functions p s.reentrantShow ⟨p.scenes, [], [], []⟩ p.functions :=
    Generate.functions_unstyled p s.reentrantShow p.functions _
  unfold generate
  rw [hfunctions, bind_map_left, map_bind]
  rfl

/-! ### Transcripts -/

namespace Transcript

variable (p : Program) (narrator : String)

theorem lineOf_unstyled (f : FlowGraph) (b : BasicBlock) (i : Inst) :
    lineOf p.unstyled narrator f.unstyled b.unstyled i.unstyled = lineOf p narrator f b i := by
  rcases i with ⟨action, loc⟩
  cases action with
  | say speaker status content =>
    have hplain : content.unstyled.plain = content.plain := StyledText.plain_ofString _
    cases speaker with
    | none => simp only [lineOf, Inst.unstyled, Action.unstyled, hplain]; rfl
    | some id => simp only [lineOf, Inst.unstyled, Action.unstyled, hplain]; rfl
  | _ => rfl

theorem blockLines_unstyled (f : FlowGraph) (b : BasicBlock) :
    blockLines p.unstyled narrator f.unstyled b.unstyled = blockLines p narrator f b := by
  have hline : lineOf p.unstyled narrator f.unstyled b.unstyled ∘ Inst.unstyled =
      lineOf p narrator f b := funext (lineOf_unstyled p narrator f b)
  have hinsts : b.unstyled.insts = b.insts.map Inst.unstyled := rfl
  unfold blockLines
  rw [hinsts, List.mapM_map, hline]

/-- **The transcript of a program holds no styles.** -/
theorem of_unstyled : Transcript.of p.unstyled narrator = Transcript.of p narrator := by
  have hblocks : (fun f => f.blocks.mapM (blockLines p.unstyled narrator f)) ∘ FlowGraph.unstyled =
      fun f => f.blocks.mapM (blockLines p narrator f) := by
    funext f
    have hlines : blockLines p.unstyled narrator f.unstyled ∘ BasicBlock.unstyled =
        blockLines p narrator f := funext (blockLines_unstyled p narrator f)
    show (f.blocks.map BasicBlock.unstyled).mapM (blockLines p.unstyled narrator f.unstyled) = _
    rw [List.mapM_map, hlines]
  have hfunctions : p.unstyled.functions = p.functions.map FlowGraph.unstyled := rfl
  unfold Transcript.of
  rw [hfunctions, List.mapM_map, hblocks]

end Transcript
end Manuscript
