/-
# What an assembly declares

What an assembly declares can be told apart: no level of a sprite has a name twice,
no scene stands twice, and every displayed image has an identifier of its own. And
every image that a step displays is declared, and every text that goes to the script
as it is is that of a paragraph that asks for it.

All this is kept by every edit (`Assembly.Edit.sound`), so it holds of the assembly of
every document, and of the program that is made of it.

Key definitions: `Assembly.Sound`.
Key theorems: `Assembly.Edit.sound`, `Assembly.sound_of_ofDocument`,
`Assembly.Sound.imagesDeclared`.
-/
import Manuscript.Proofs.Assembly.Built
import Manuscript.Proofs.Identifier
import Manuscript.Proofs.Stage.Declared

namespace Manuscript

namespace Assembly

/-- What the assembly of a document declares can be told apart, and what its steps hold is declared
or stands in the document. -/
structure Sound (doc : Document) (a : Assembly) : Prop where
  sprites : ∀ c ∈ a.characters, c.sprites.Unique
  scenes : (a.scenes.map (·.name)).Nodup
  images : (a.images.map (·.id)).Nodup
  plain : ∀ id ∈ a.images.map (·.id), Identifier.Plain id.toList
  claimed : ∀ id ∈ a.images.map (·.id), id ∈ a.imageIds.used
  steps : ∀ p ∈ a.procedures, ∀ op ∈ p.ops, TakenFrom doc (a.images.map (·.id)) op.step

theorem sound_fresh (doc : Document) (title : String) (diags : List Diagnostic) :
    (fresh title diags).Sound doc := by
  constructor <;> simp [fresh]

variable {a b : Assembly} {doc : Document}

theorem TakenFrom.mono {step : Step} {ids ids' : List String} (h : TakenFrom doc ids step)
    (hsub : ids ⊆ ids') : TakenFrom doc ids' step := by
  cases step with
  | act action =>
    cases action with
    | showImage image => exact hsub h
    | verbatim text => exact h
    | _ => trivial
  | _ => trivial

theorem Sound.addImage (ha : a.Sound doc) (name path : String) : Sound doc
    { a with
      imageIds := (a.imageIds.claim name).2
      images := a.images ++ [⟨(a.imageIds.claim name).1, path⟩] } := by
  have hids : (a.images ++ [(⟨(a.imageIds.claim name).1, path⟩ : DisplayImage)]).map (·.id) =
      a.images.map (·.id) ++ [(a.imageIds.claim name).1] := List.map_append
  constructor
  case sprites => exact ha.sprites
  case scenes => exact ha.scenes
  case images =>
    exact nodup_map_concat ha.images fun hmem =>
      a.imageIds.claim_not_mem name (ha.claimed _ hmem)
  case plain =>
    dsimp only
    rw [hids]
    refine List.forall_mem_append.2 ⟨ha.plain, ?_⟩
    simpa using a.imageIds.plain_claim name
  case claimed =>
    dsimp only
    rw [hids, Namer.used_claim]
    refine List.forall_mem_append.2 ⟨fun id hid => List.mem_cons_of_mem _ (ha.claimed id hid), ?_⟩
    simp
  case steps =>
    dsimp only
    rw [hids]
    exact fun p hp op hop => (ha.steps p hp op hop).mono (List.subset_append_left _ _)

theorem Sound.emit (ha : a.Sound doc) {step : Step} (loc : Loc)
    (h : TakenFrom doc (a.images.map (·.id)) step) : (a.emit step loc).Sound doc := by
  unfold Assembly.emit
  split
  · refine ⟨ha.sprites, ha.scenes, ha.images, ha.plain, ha.claimed, fun p hp op hop => ?_⟩
    rcases mem_of_mem_modify hp with hp | ⟨q, hq, rfl⟩
    · exact ha.steps p hp op hop
    · rcases List.mem_append.1 hop with hop | hop
      · exact ha.steps q hq op hop
      · rw [List.mem_singleton.1 hop]
        exact h
  · exact ha

/-- **Edits keep an assembly sound.** -/
theorem Edit.sound (h : Edit doc a b) (ha : a.Sound doc) : b.Sound doc := by
  cases h with
  | report d => exact { ha with }
  | addCharacter c _ hempty =>
    refine { ha with sprites := List.forall_mem_append.2 ⟨ha.sprites, ?_⟩ }
    simp [hempty, SpriteTree.Unique]
  | insertSprite id asset path _ =>
    refine { ha with sprites := fun c hc => ?_ }
    rcases mem_of_mem_modify hc with hc | ⟨d, hd, rfl⟩
    · exact ha.sprites c hc
    · exact SpriteTree.unique_insert _ _ (ha.sprites d hd)
  | addScene s hname =>
    refine { ha with scenes := nodup_map_concat ha.scenes fun hmem => ?_ }
    obtain ⟨t, ht, hsame⟩ := List.mem_map.1 hmem
    rw [List.any_eq_false] at hname
    exact hname t ht (by simpa using hsame)
  | emit step loc _ hstep => exact ha.emit loc hstep
  | openFunction name loc _ =>
    refine { ha with steps := fun p hp => ?_ }
    rcases List.mem_append.1 hp with hp | hp
    · exact ha.steps p hp
    · rw [List.mem_singleton.1 hp]
      simp
  | closeFunction => exact { ha with }
  | setMode mode _ => exact { ha with }
  | say named quoted _ => exact { ha with }
  | addImage name path => exact ha.addImage name path

theorem Edits.sound (h : Edits doc a b) (ha : a.Sound doc) : b.Sound doc := by
  induction h with
  | refl => exact ha
  | tail _ hedit ih => exact hedit.sound ih

theorem sound_of_ofDocument {s : FrontendSettings} {d : Document} (h : ofDocument s d = .ok a) :
    a.Sound d := by
  obtain ⟨a', ha', hedits⟩ := edits_ofDocument s d
  rw [h] at ha'
  cases ha'
  exact hedits.sound (sound_fresh d _ _)

end Assembly

/-! ### Programs -/

/-- **Every image that a program displays is declared, and once.** -/
theorem Assembly.Sound.imagesDeclared {a : Assembly} {doc : Document} (ha : a.Sound doc) :
    { a.program with functions := (FlowGraph.build a.procedures).1 }.ImagesDeclared := by
  intro f hf b hb i hi image haction
  obtain ⟨p, hp, rfl⟩ := FlowGraph.exists_of_mem_build hf
  obtain ⟨op, hop, hstep⟩ := FlowGraph.exists_op_of_mem_blocks hb hi
  have htaken := ha.steps p hp op hop
  rw [hstep, haction] at htaken
  exact List.count_eq_one_of_mem ha.images htaken

end Manuscript
