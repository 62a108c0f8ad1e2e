/-
# Generated code tells the whole story

Generation moves characters about the stage and leaves everything else alone. What
the instructions of a block hold apart from these moves, and apart from the status of
its lines, is their story (`Inst.story`). One step of the walk emits the story of its
instruction (`Walk.Effect.story`), so the body of a generated block has the story of
the block it comes from, and in the same order. A patch has no story but a change of
scene: it only sets the stage (`Snapshot.setsStage_diff`).

So what is said in generated code is what is said in the program, line by line, and the
transcript, which is read off the program, records just that
(`Generate.generate_retells`).

Key definitions: `Inst.story`, `Action.setsStage`, `Utterance`, `GeneratedBlock.Retells`,
`Utterance.RecordedAs`.
Key theorems: `Walk.Effects.story`, `Snapshot.setsStage_diff`, `Generate.utterances_eq`,
`Transcript.recorded`, `Generate.generate_retells`.
-/
import Manuscript.Proofs.Script.Written
import Manuscript.Proofs.Total

namespace Manuscript

/-! ### Stories -/

/-- The instruction without the status of its line. -/
def Inst.statusless (i : Inst) : Inst :=
  match i.action with
  | .say speaker _ content => ⟨.say speaker [] content, i.loc⟩
  | _ => i

/-- What instructions hold apart from the moves of characters, and apart from the status of
lines. -/
def Inst.story (is : List Inst) : List Inst :=
  (is.filter (!·.action.movesCharacter)).map statusless

/-- The action puts a character on screen, takes it off, or changes the scene. -/
def Action.setsStage : Action → Bool
  | .showCharacter .. | .hideCharacter _ | .setScene _ | .clearScene => true
  | _ => false

theorem Inst.story_append (is js : List Inst) : story (is ++ js) = story is ++ story js := by
  simp [story]

namespace Walk

variable {stage after : Snapshot}

/-- A step emits the story of its instruction. -/
theorem Effect.story {i : Inst} {emitted : Option Inst} (h : Effect stage i emitted after) :
    Inst.story emitted.toList = Inst.story [i] := by
  cases h with
  | place ha _ => rcases ha with rfl | rfl <;> rfl
  | drop hmoves => simp [Inst.story, hmoves]
  | aside _ => rfl
  | _ => rfl

/-- **Instructions emit their story.** -/
theorem Effects.story {is emitted : List Inst} (h : Effects stage is emitted after) :
    Inst.story emitted = Inst.story is := by
  induction h with
  | nil => rfl
  | @cons _ _ _ i emitted rest more hfirst _ ih =>
    calc Inst.story (emitted.toList ++ more)
        = Inst.story [i] ++ Inst.story rest := by rw [Inst.story_append, hfirst.story, ih]
      _ = Inst.story (i :: rest) := (Inst.story_append [i] rest).symm

end Walk

/-! ### Patches -/

namespace Snapshot

/-- A patch only sets the stage. -/
theorem setsStage_diff (goal other : Snapshot) :
    ∀ i ∈ diff goal other, i.action.setsStage = true := by
  intro i hi
  obtain ⟨-, rfl⟩ | hmoves := mem_diff hi
  · cases goal.scene <;> rfl
  · cases hmoves <;> rfl

end Snapshot

/-! ### Blocks -/

/-- The generated block tells the story of the block, under its label, and its patches only set
the stage. -/
structure GeneratedBlock.Retells (b : BasicBlock) (c : GeneratedBlock) : Prop where
  label : c.label = b.label
  body : Inst.story c.body = Inst.story b.insts
  patch : ∀ i ∈ c.patch, i.action.setsStage = true
  armPatches : ∀ patch ∈ c.armPatches, ∀ i ∈ patch, i.action.setsStage = true

/-- The generated function tells the story of the function, block by block. -/
structure GeneratedFunction.Retells (f : FlowGraph) (g : GeneratedFunction) : Prop where
  name : g.name = f.name
  blocks : List.Forall₂ GeneratedBlock.Retells f.blocks g.blocks

namespace Generate

variable {p : Program} {policy : ReentrantShow} {f : FlowGraph} {g : GeneratedFunction}
  {visits : List Visit}

theorem Visited.retells_block (h : Visited p policy f g visits) {i : BlockId} {b : BasicBlock}
    (hb : f.blocks[i]? = some b) : (block visits b i).Retells b := by
  have hlt : i < visits.length := h.length ▸ (List.getElem?_eq_some_iff.1 hb).1
  have hv : visits[i]? = some visits[i] := List.getElem?_eq_getElem hlt
  obtain ⟨-, b', hb', heffects⟩ := h.faithful i _ hv
  rw [hb] at hb'
  cases hb'
  have hpatches : ∀ j ∈ (block visits b i).patch ++ (block visits b i).armPatches.flatten,
      j.action.setsStage = true := by
    intro j hj
    obtain ⟨s, -, t, -, hmem⟩ := mem_patches_block hj
    exact Snapshot.setsStage_diff _ _ j hmem
  refine ⟨rfl, ?_, fun j hj => hpatches j (List.mem_append_left _ hj), fun patch hpatch j hj => ?_⟩
  · have hbody : (block visits b i).body = visits[i].body := by simp [block, hv]
    rw [hbody, heffects.story]
  · exact hpatches j (List.mem_append_right _ (List.mem_flatten.2 ⟨patch, hpatch, hj⟩))

theorem Visited.retells (h : Visited p policy f g visits) : g.Retells f := by
  refine ⟨h.name, List.forall₂_iff_get.2 ⟨?_, fun i hi hj => ?_⟩⟩
  · rw [h.blocks, Generate.blocks, List.length_map, List.length_zipIdx]
  · have hb : f.blocks[i]? = some (f.blocks.get ⟨i, hi⟩) := List.getElem?_eq_getElem hi
    have hc : g.blocks[i]? = some (block visits (f.blocks.get ⟨i, hi⟩) i) := by
      rw [h.blocks, Generate.getElem?_blocks visits hb]
    have hget : g.blocks.get ⟨i, hj⟩ = block visits (f.blocks.get ⟨i, hi⟩) i :=
      (List.getElem?_eq_some_iff.1 hc).2
    rw [hget]
    exact h.retells_block hb

end Generate

/-! ### What is said -/

/-- A line as it is said: in which function and under which label, by whom, and what. -/
structure Utterance where
  function : String
  block : Option String
  speaker : Option CharacterId
  content : StyledText
deriving Repr, DecidableEq

/-- What an instruction of a block says. -/
def Inst.utters? (function : String) (label : Option String) (i : Inst) : Option Utterance :=
  match i.action with
  | .say speaker _ content => some ⟨function, label, speaker, content⟩
  | _ => none

/-- What is said in a program, function by function and block by block. -/
def Program.utterances (p : Program) : List Utterance :=
  p.functions.flatMap fun f => f.blocks.flatMap fun b => b.insts.filterMap (Inst.utters? f.name b.label)

/-- What is said in generated code, function by function and block by block; the patches of a
block stand behind its body. -/
def Generated.utterances (g : Generated) : List Utterance :=
  g.functions.flatMap fun f => f.blocks.flatMap fun b => b.insts.filterMap (Inst.utters? f.name b.label)

namespace Inst

variable {function : String} {label : Option String}

theorem utters?_statusless (i : Inst) :
    i.statusless.utters? function label = i.utters? function label := by
  rcases i with ⟨action, loc⟩
  cases action <;> rfl

theorem utters?_of_movesCharacter {i : Inst} (h : i.action.movesCharacter = true) :
    i.utters? function label = none := by
  rcases i with ⟨action, loc⟩
  cases action with
  | say speaker status content => cases h
  | _ => rfl

theorem utters?_of_setsStage {i : Inst} (h : i.action.setsStage = true) :
    i.utters? function label = none := by
  rcases i with ⟨action, loc⟩
  cases action with
  | say speaker status content => cases h
  | _ => rfl

/-- What is read off instructions is read off their story, if neither moves of characters nor the
status of lines count. -/
theorem filterMap_story {β : Type} {view : Inst → Option β}
    (hstatus : ∀ i, view i.statusless = view i)
    (hmoves : ∀ i, i.action.movesCharacter = true → view i = none) : ∀ is : List Inst,
    (story is).filterMap view = is.filterMap view
  | [] => rfl
  | i :: is => by
    have ih := filterMap_story hstatus hmoves is
    rw [story] at ih ⊢
    by_cases hi : i.action.movesCharacter = true
    · rw [List.filter_cons_of_neg (by simp [hi]), ih, List.filterMap_cons_none (hmoves i hi)]
    · rw [List.filter_cons_of_pos (by simp [hi]), List.map_cons, List.filterMap_cons,
        List.filterMap_cons, ih, hstatus]

/-- What is said is part of the story. -/
theorem filterMap_utters?_story (is : List Inst) :
    (story is).filterMap (utters? function label) = is.filterMap (utters? function label) :=
  filterMap_story utters?_statusless (fun _ => utters?_of_movesCharacter) is

theorem filterMap_utters?_eq_nil {is : List Inst} (h : ∀ i ∈ is, i.action.setsStage = true) :
    is.filterMap (utters? function label) = [] :=
  List.filterMap_eq_nil_iff.2 fun i hi => utters?_of_setsStage (h i hi)

end Inst

/-- What a retold block says is what the block says. -/
theorem GeneratedBlock.Retells.utterances {b : BasicBlock} {c : GeneratedBlock} (h : c.Retells b)
    (function : String) : c.insts.filterMap (Inst.utters? function c.label) =
      b.insts.filterMap (Inst.utters? function b.label) := by
  have hpatch : c.patch.filterMap (Inst.utters? function c.label) = [] :=
    Inst.filterMap_utters?_eq_nil h.patch
  have harms : c.armPatches.flatten.filterMap (Inst.utters? function c.label) = [] := by
    refine Inst.filterMap_utters?_eq_nil fun i hi => ?_
    obtain ⟨patch, hmem, hi⟩ := List.mem_flatten.1 hi
    exact h.armPatches patch hmem i hi
  calc c.insts.filterMap (Inst.utters? function c.label)
      = c.body.filterMap (Inst.utters? function c.label) := by
        rw [GeneratedBlock.insts, List.filterMap_append, List.filterMap_append, hpatch, harms,
          List.append_nil, List.append_nil]
    _ = (Inst.story c.body).filterMap (Inst.utters? function c.label) :=
        (Inst.filterMap_utters?_story c.body).symm
    _ = b.insts.filterMap (Inst.utters? function b.label) := by
        rw [h.body, h.label, Inst.filterMap_utters?_story]

/-- **What is said in generated code is what is said in the program.** -/
theorem Generate.utterances_eq {p : Program} {g : Generated}
    (h : List.Forall₂ GeneratedFunction.Retells p.functions g.functions) :
    g.utterances = p.utterances := by
  have hfunction : ∀ f (c : GeneratedFunction), c.Retells f →
      (f.blocks.flatMap fun b => b.insts.filterMap (Inst.utters? f.name b.label)) =
        c.blocks.flatMap fun b => b.insts.filterMap (Inst.utters? c.name b.label) := by
    intro f c hc
    rw [List.flatMap_def, List.flatMap_def, hc.name,
      map_eq_of_forall₂ hc.blocks fun b d hd => (hd.utterances f.name).symm]
  rw [Generated.utterances, Program.utterances, List.flatMap_def, List.flatMap_def,
    map_eq_of_forall₂ h hfunction]

/-! ### Transcripts -/

/-- The name under which a speaker is recorded. -/
def Program.speakerName? (p : Program) (narrator : String) : Option CharacterId → Option String
  | none => some narrator
  | some id => p.characters[id]?.map (·.name)

/-- The utterance is recorded as the line of a transcript. -/
structure Utterance.RecordedAs (p : Program) (narrator : String) (u : Utterance) (l : SpokenLine) :
    Prop where
  function : l.function = u.function
  block : l.block = u.block
  speaker : p.speakerName? narrator u.speaker = some l.speaker
  content : l.content = u.content.plain

namespace Transcript

variable {p : Program} {narrator : String}

/-- An instruction has a line if it says something, and the line records it. -/
theorem recorded_lineOf {f : FlowGraph} {b : BasicBlock} {i : Inst} {line : Option SpokenLine}
    (h : lineOf p narrator f b i = .ok line) :
    Option.Rel (Utterance.RecordedAs p narrator) (i.utters? f.name b.label) line := by
  rcases i with ⟨action, loc⟩
  cases action with
  | say speaker status content =>
    cases speaker with
    | none =>
      cases h
      exact .some ⟨rfl, rfl, rfl, rfl⟩
    | some id =>
      obtain ⟨c, hc, hline⟩ := bind_eq_ok.1 h
      cases hline
      have hname : p.characters[id]? = some c := Fault.unless_eq_ok.1 hc
      exact .some ⟨rfl, rfl, by simp [Program.speakerName?, hname], rfl⟩
  | _ =>
    cases h
    exact .none

theorem recorded_blockLines {f : FlowGraph} {b : BasicBlock} {lines : List SpokenLine}
    (h : blockLines p narrator f b = .ok lines) :
    List.Forall₂ (Utterance.RecordedAs p narrator) (b.insts.filterMap (Inst.utters? f.name b.label))
      lines := by
  obtain ⟨found, hfound, hlines⟩ := bind_eq_ok.1 h
  cases hlines
  refine List.rel_filterMap (R := fun i line => lineOf p narrator f b i = .ok line) ?_
    (mapM_eq_ok.1 hfound)
  exact fun i line hline => recorded_lineOf hline

theorem recorded_function {f : FlowGraph} {lines : List (List SpokenLine)}
    (h : f.blocks.mapM (blockLines p narrator f) = .ok lines) :
    List.Forall₂ (Utterance.RecordedAs p narrator)
      (f.blocks.flatMap fun b => b.insts.filterMap (Inst.utters? f.name b.label)) lines.flatten := by
  rw [List.flatMap_def]
  refine List.rel_flatten (List.forall₂_map_left_iff.2 ?_)
  exact (mapM_eq_ok.1 h).imp fun b ls hls => recorded_blockLines hls

/-- **A transcript records what is said in the program**, line by line. -/
theorem recorded {t : Transcript} (h : Transcript.of p narrator = .ok t) :
    List.Forall₂ (Utterance.RecordedAs p narrator) p.utterances t.lines := by
  obtain ⟨chapters, hchapters, ht⟩ := bind_eq_ok.1 h
  cases ht
  dsimp only
  rw [Program.utterances, List.flatMap_def, List.flatten_flatten]
  refine List.rel_flatten (List.forall₂_map_left_iff.2 (List.forall₂_map_right_iff.2 ?_))
  exact (mapM_eq_ok.1 hchapters).imp fun f lines hlines => recorded_function hlines

end Transcript

namespace Generate

/-- **Generation loses and invents nothing.** A program whose characters are in range is generated;
each block of generated code tells the story of its block, with patches that only set the stage;
and what is said in the generated code is, line by line, what the transcript records. -/
theorem generate_retells (p : Program) (s : CodegenSettings) (narrator : String)
    (hp : p.CharactersInRange) :
    ∃ g t, generate p s = .ok g ∧ Transcript.of p narrator = .ok t ∧
      List.Forall₂ GeneratedFunction.Retells p.functions g.functions ∧
      List.Forall₂ (Utterance.RecordedAs p narrator) g.utterances t.lines := by
  obtain ⟨g, hg, hvisited⟩ := yields_generate hp s
  obtain ⟨t, ht, -⟩ := Transcript.yields_of hp narrator
  have hretells : List.Forall₂ GeneratedFunction.Retells p.functions g.functions :=
    hvisited.imp fun f c hc => by
      obtain ⟨visits, hv⟩ := hc
      exact hv.retells
  refine ⟨g, t, hg, ht, hretells, ?_⟩
  rw [utterances_eq hretells]
  exact Transcript.recorded ht

/-- Somebody changes mood while speaking, and leaves in one arm of a branch only. -/
def quarrel : Program :=
  { title := ""
    characters := [{ Character.ofName "A" with
      sprites := (SpriteTree.empty.insert (.file "1") ["calm"]).insert (.file "2") ["angry"] }]
    scenes := []
    images := []
    functions := [⟨"f", [
      ⟨none, [⟨.showCharacter 0 [], ⟨0, 0, 0⟩⟩, ⟨.say (some 0) ["angry"] (.ofString "No!"), ⟨1, 0, 0⟩⟩],
        .branch [⟨"go", .block 1⟩, ⟨"stay", .block 2⟩]⟩,
      ⟨some "go", [⟨.hideCharacter 0, ⟨2, 0, 0⟩⟩, ⟨.verbatim "pause", ⟨3, 0, 0⟩⟩], .jump 2⟩,
      ⟨some "stay", [⟨.say none [] (.ofString "Silence."), ⟨4, 0, 0⟩⟩], .ret⟩], ⟨0, 0, 0⟩⟩] }

theorem quarrel_retells : quarrel.CharactersInRange ∧ quarrel.utterances.length = 2 ∧
    ∃ g t, generate quarrel {} = .ok g ∧ Transcript.of quarrel "narrator" = .ok t ∧
      List.Forall₂ GeneratedFunction.Retells quarrel.functions g.functions ∧
      List.Forall₂ (Utterance.RecordedAs quarrel "narrator") g.utterances t.lines :=
  ⟨by decide, by decide, generate_retells quarrel {} "narrator" (by decide)⟩

end Generate
end Manuscript
