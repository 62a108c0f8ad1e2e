/-
# What generated code draws is declared

A gallery holds what a script can draw: states of characters, scenes and images. The
bodies of a program's blocks draw from the gallery of what its sprite trees hold and
what was collected, by what generation records.

Patches draw nothing new. Whatever is on stage got there by an instruction that was
emitted, also where a block is entered with the stage of another, so a patch only
draws what some body has drawn before it. What a character was led to off screen is
not on stage, and no patch draws it.

Key definitions: `Gallery`, `Gallery.Holds`, `Screen.DrawnFrom`, `Generated.insts`,
`Generated.Declared`.
Key theorems: `Screen.DrawnFrom.run`, `Snapshot.holds_diff`,
`Generate.Visited.holds`, `Generate.Visited.exists_of_isAside`,
`Generate.declared_of_visited`.
-/
import Manuscript.Proofs.Stage.Collected

namespace Manuscript

/-- What there is to draw: states of characters, scenes and displayed images. -/
structure Gallery where
  state : CharacterId → List String → Prop
  scene : String → Prop
  image : String → Prop

/-- The gallery holds what the action draws. An action that leaves a state open draws nothing
that could be held. -/
def Gallery.Holds (G : Gallery) : Action → Prop
  | .showCharacter id path => G.state id path
  | .say (some id) (tag :: tags) _ => G.state id (tag :: tags)
  | .setState .. => False
  | .setScene name => G.scene name
  | .showImage image => G.image image
  | _ => True

/-- Everything on the screen is from the gallery. -/
structure Screen.DrawnFrom (G : Gallery) (scr : Screen) : Prop where
  state : ∀ id path, scr.shown id = some path → G.state id path
  scene : ∀ name, scr.scene = some name → G.scene name

variable {G : Gallery}

/-! ### Screens -/

namespace Screen

variable {scr : Screen}

/-- With nobody on screen only the scene has to be in the gallery. -/
theorem drawnFrom_deserted {scene : Option String} (h : ∀ name, scene = some name → G.scene name) :
    DrawnFrom G ⟨scene, fun _ => none⟩ :=
  ⟨fun _ _ hpath => absurd hpath (by simp), h⟩

theorem DrawnFrom.set (h : scr.DrawnFrom G) {id : CharacterId} {state : Option (List String)}
    (hstate : ∀ path, state = some path → G.state id path) : (scr.set id state).DrawnFrom G := by
  refine ⟨fun other path hpath => ?_, h.scene⟩
  by_cases hid : other = id
  · subst hid
    rw [shown_set_self] at hpath
    exact hstate path hpath
  · rw [shown_set_of_ne _ _ hid] at hpath
    exact h.state other path hpath

/-- An instruction from the gallery keeps the screen to it. -/
theorem DrawnFrom.step (h : scr.DrawnFrom G) {i : Inst} (hi : G.Holds i.action) :
    (scr.step i).DrawnFrom G := by
  rcases i with ⟨a, loc⟩
  cases a with
  | showCharacter id path =>
    refine h.set ?_
    rintro _ ⟨rfl⟩
    exact hi
  | hideCharacter id => exact h.set (by simp)
  | setScene scene =>
    refine drawnFrom_deserted ?_
    rintro _ ⟨rfl⟩
    exact hi
  | clearScene => exact drawnFrom_deserted (by simp)
  | say speaker status content =>
    rcases speaker with _ | id
    · exact h
    · rcases status with _ | ⟨tag, tags⟩
      · exact h
      · refine h.set fun path hpath => ?_
        obtain ⟨_, -, rfl⟩ := Option.map_eq_some_iff.1 hpath
        exact hi
  | setState id tags => exact h
  | showImage image => exact h
  | play channel asset => exact h
  | verbatim text => exact h
  | comment text => exact h

theorem DrawnFrom.run : ∀ {is : List Inst} {scr : Screen}, scr.DrawnFrom G →
    (∀ i ∈ is, G.Holds i.action) → (scr.run is).DrawnFrom G
  | [], _, h, _ => h
  | _ :: _, _, h, hall =>
    (h.step (hall _ List.mem_cons_self)).run fun j hj => hall j (List.mem_cons_of_mem _ hj)

end Screen

/-! ### Patches -/

namespace Snapshot

/-- **A patch draws what is on its goal.** -/
theorem holds_diff {goal other : Snapshot} (h : goal.visible.DrawnFrom G) :
    ∀ i ∈ diff goal other, G.Holds i.action := by
  intro i hi
  obtain ⟨-, rfl⟩ | hmoves := mem_diff hi
  · cases hgoal : goal.scene with
    | none => trivial
    | some scene => exact h.scene scene hgoal
  · cases hmoves with
    | @place id path hshown _ => exact h.state id path hshown
    | hide _ _ => trivial

end Snapshot

/-! ### Asides -/

/-- An instruction that has nothing to do with the stage is emitted only where it stands. -/
theorem Walk.Effects.mem_of_isAside {stage after : Snapshot} {is emitted : List Inst}
    (h : Walk.Effects stage is emitted after) {i : Inst} (hi : i ∈ emitted)
    (ha : i.action.isAside = true) : i ∈ is := by
  induction h with
  | nil => cases hi
  | @cons stage between after j out rest more hfirst _ ih =>
    rcases List.mem_append.1 hi with hi | hi
    · have hout : out = some i := by simpa [eq_comm] using hi
      subst hout
      -- only an instruction that is kept as it is has nothing to do with the stage
      have hsame : j = i := by
        cases hfirst <;> first | rfl | cases ha
      rw [hsame]
      exact List.mem_cons_self
    · exact List.mem_cons_of_mem j (ih hi)

namespace Snapshot

/-- A patch only moves characters and changes the scene. -/
theorem isAside_diff {goal other : Snapshot} :
    ∀ i ∈ diff goal other, i.action.isAside = false := by
  intro i hi
  obtain ⟨-, rfl⟩ | hmoves := mem_diff hi
  · cases goal.scene <;> rfl
  · cases hmoves <;> rfl

end Snapshot

/-! ### Functions -/

namespace Generate

variable {p : Program} {policy : ReentrantShow} {f : FlowGraph} {visits : List Visit}

/-- If bodies draw from the gallery, so do the stages of all visits. -/
theorem Faithful.drawnFrom (h : Faithful p f visits)
    (hbodies : ∀ v ∈ visits, ∀ i ∈ v.body, G.Holds i.action) :
    ∀ (i : BlockId) (v : Visit), visits[i]? = some v →
      v.entry.visible.DrawnFrom G ∧ v.exit.visible.DrawnFrom G := by
  intro i
  induction i using Nat.strongRecOn with
  | ind i ih =>
    intro v hv
    obtain ⟨-, b, -, heffects⟩ := h i v hv
    have hentry : v.entry.visible.DrawnFrom G := by
      rcases h.entry_cases hv with ⟨-, he⟩ | ⟨j, hj, u, hu, he⟩
      · rw [he, Snapshot.visible_initial]
        exact Screen.drawnFrom_deserted (by simp)
      · rw [he]
        exact (ih j hj u hu).2
    refine ⟨hentry, ?_⟩
    rw [← heffects.run]
    exact hentry.run (hbodies v (List.mem_of_getElem? hv))

/-- The bodies of a function's blocks are those of its visits. -/
theorem Visited.bodies_eq {g : GeneratedFunction} (h : Visited p policy f g visits) :
    bodies g = visits.flatMap (·.body) := by
  rw [bodies, h.blocks, List.flatMap_def, List.flatMap_def, map_body_blocks h.length]

/-- **Patches draw what bodies have drawn.** A function whose bodies draw from a gallery draws
from it altogether. -/
theorem Visited.holds {g : GeneratedFunction} (h : Visited p policy f g visits)
    (hbodies : ∀ i ∈ bodies g, G.Holds i.action) :
    ∀ b ∈ g.blocks, ∀ i ∈ b.insts, G.Holds i.action := by
  have hvisits : ∀ v ∈ visits, ∀ i ∈ v.body, G.Holds i.action := fun v hv i hi =>
    hbodies i (h.bodies_eq ▸ List.mem_flatMap.2 ⟨v, hv, hi⟩)
  intro c hc i hi
  obtain ⟨b, -, k, rfl⟩ := h.exists_block hc
  rcases mem_insts_block hi with ⟨v, hv, hi⟩ | ⟨s, -, t, ht, hi⟩
  · exact hvisits v hv i hi
  · obtain ⟨k, hk⟩ := List.mem_iff_getElem?.1 ht
    exact Snapshot.holds_diff (h.faithful.drawnFrom hvisits k t hk).1 i hi

/-- An aside in a body stands in the function that it was generated from. -/
theorem Visited.exists_aside {g : GeneratedFunction} (h : Visited p policy f g visits)
    {v : Visit} (hv : v ∈ visits) {i : Inst} (hi : i ∈ v.body) (ha : i.action.isAside = true) :
    ∃ b ∈ f.blocks, i ∈ b.insts := by
  obtain ⟨k, hk⟩ := List.mem_iff_getElem?.1 hv
  obtain ⟨-, b, hb, heffects⟩ := h.faithful k v hk
  exact ⟨b, List.mem_of_getElem? hb, heffects.mem_of_isAside hi ha⟩

/-- **What has nothing to do with the stage is only where the program has it**, since patches only
move characters and change scenes. -/
theorem Visited.exists_of_isAside {g : GeneratedFunction} (h : Visited p policy f g visits)
    {c : GeneratedBlock} (hc : c ∈ g.blocks) {i : Inst} (hi : i ∈ c.insts)
    (ha : i.action.isAside = true) : ∃ b ∈ f.blocks, i ∈ b.insts := by
  obtain ⟨_, -, k, rfl⟩ := h.exists_block hc
  rcases mem_insts_block hi with ⟨v, hv, hi⟩ | ⟨s, -, t, -, hi⟩
  · exact h.exists_aside hv hi ha
  · rw [Snapshot.isAside_diff i hi] at ha
    cases ha

/-- The bodies of a program's functions, and what was collected for them. -/
theorem records_generate {s : CodegenSettings} {g : Generated} (h : generate p s = .ok g) :
    ∃ w, Walk.Records p ⟨p.scenes, [], [], []⟩ (g.functions.flatMap bodies) w ∧
      g.scenes = w.scenes ∧ g.placeholders = w.placeholders := by
  obtain ⟨⟨fs, w⟩, hfs, h⟩ := bind_eq_ok.1 h
  cases h
  exact ⟨w, records_functions hfs, rfl, rfl⟩

theorem nodup_placeholders {s : CodegenSettings} {g : Generated} (h : generate p s = .ok g) :
    g.placeholders.Nodup := by
  obtain ⟨w, hrecords, -, hplaceholders⟩ := records_generate h
  rw [hplaceholders]
  exact (hrecords.ordered .nil).nodup

/-- Scenes that are added are new. -/
theorem nodup_scenes {s : CodegenSettings} {g : Generated} (h : generate p s = .ok g)
    (hp : (p.scenes.map (·.name)).Nodup) : (g.scenes.map (·.name)).Nodup := by
  obtain ⟨w, hrecords, hscenes, -⟩ := records_generate h
  rw [hscenes]
  exact hrecords.distinct hp

end Generate

/-! ### Whole programs -/

/-- Every displayed image that the program calls for is declared, and once. -/
def Program.ImagesDeclared (p : Program) : Prop :=
  ∀ f ∈ p.functions, ∀ b ∈ f.blocks, ∀ i ∈ b.insts, ∀ image, i.action = .showImage image →
    (p.images.map (·.id)).count image = 1

namespace Generated

/-- All instructions of the generated code: bodies, patches and the patches of arms. -/
def insts (g : Generated) : List Inst := g.functions.flatMap fun f => f.blocks.flatMap (·.insts)

/-- What the script of a program can draw: the leaves of the sprite trees and what was
collected, and the images that are declared once. -/
def gallery (p : Program) (g : Generated) : Gallery where
  state id path := p.Leaf id path ∨ (id, path) ∈ g.placeholders
  scene name := name ∈ g.scenes.map (·.name)
  image image := (p.images.map (·.id)).count image = 1

/-- The state is among the images of the character's sprite tree, or among the states shown
without art. -/
def Drawable (p : Program) (g : Generated) (id : CharacterId) (path : List String) : Prop :=
  ∃ c, p.characters[id]? = some c ∧
    (path ∈ c.sprites.images.map (·.1) ∨ (id, path) ∈ g.placeholders)

/-- Everything that the generated code draws is declared, and nothing is collected that it
does not draw. -/
structure Declared (p : Program) (g : Generated) : Prop where
  shows : ∀ i ∈ g.insts, ∀ id path, i.action = .showCharacter id path → g.Drawable p id path
  lines : ∀ i ∈ g.insts, ∀ id path content, i.action = .say (some id) path content → path ≠ [] →
    g.Drawable p id path
  placeholders : ∀ id path, (id, path) ∈ g.placeholders ↔
    ¬ p.Leaf id path ∧ ∃ i ∈ g.insts, i.action = .showCharacter id path
  scenes : ∀ i ∈ g.insts, ∀ name, i.action = .setScene name → name ∈ g.scenes.map (·.name)
  images : ∀ i ∈ g.insts, ∀ image, i.action = .showImage image →
    (p.images.map (·.id)).count image = 1
  settled : ∀ i ∈ g.insts, ∀ id tags, i.action ≠ .setState id tags

end Generated

namespace Generate

variable {p : Program} {s : CodegenSettings} {g : Generated}

/-- The bodies draw from what is declared or was collected. -/
theorem holds_bodies (h : generate p s = .ok g) (hp : p.ImagesDeclared)
    (hvisited : List.Forall₂ (fun f g => ∃ visits, Visited p s.reentrantShow f g visits)
      p.functions g.functions) :
    ∀ f ∈ g.functions, ∀ i ∈ bodies f, (g.gallery p).Holds i.action := by
  obtain ⟨w, hrecords, hscenes, hplaceholders⟩ := records_generate h
  intro f hf i hi
  have hmem : i ∈ g.functions.flatMap bodies := List.mem_flatMap.2 ⟨f, hf, hi⟩
  cases haction : i.action with
  | showCharacter id path =>
    show p.Leaf id path ∨ (id, path) ∈ g.placeholders
    rw [hplaceholders]
    by_cases hleaf : p.Leaf id path
    · exact .inl hleaf
    · exact .inr ((hrecords.placeholders (id, path)).2 (.inr ⟨hleaf, i, hmem, haction⟩))
  | say speaker status content =>
    rcases speaker with _ | id
    · trivial
    · rcases status with _ | ⟨tag, tags⟩
      · trivial
      · exact .inl (hrecords.statuses i hmem id _ content haction (List.cons_ne_nil tag tags))
  | setState id tags => exact hrecords.settled i hmem id tags haction
  | setScene name =>
    show name ∈ g.scenes.map (·.name)
    rw [hscenes]
    exact (hrecords.scenes name).2 (.inr ⟨i, hmem, haction⟩)
  | showImage image =>
    obtain ⟨graph, hgraph, visits, hv⟩ := exists_of_mem_forall₂ hvisited hf
    rw [hv.bodies_eq] at hi
    obtain ⟨v, hmem, hi⟩ := List.mem_flatMap.1 hi
    obtain ⟨b, hb, hi⟩ := hv.exists_aside hmem hi (by rw [haction]; rfl)
    exact hp graph hgraph b hb i hi image haction
  | _ => trivial

/-- The instructions of all blocks draw from what is declared or was collected. -/
theorem holds_insts (h : generate p s = .ok g) (hp : p.ImagesDeclared)
    (hvisited : List.Forall₂ (fun f g => ∃ visits, Visited p s.reentrantShow f g visits)
      p.functions g.functions) : ∀ i ∈ g.insts, (g.gallery p).Holds i.action := by
  intro i hi
  obtain ⟨f, hf, hi⟩ := List.mem_flatMap.1 hi
  obtain ⟨b, hb, hi⟩ := List.mem_flatMap.1 hi
  obtain ⟨graph, -, visits, hv⟩ := exists_of_mem_forall₂ hvisited hf
  exact hv.holds (holds_bodies h hp hvisited f hf) b hb i hi

theorem mem_insts_of_mem_bodies {i : Inst} (h : i ∈ g.functions.flatMap bodies) : i ∈ g.insts := by
  obtain ⟨f, hf, hi⟩ := List.mem_flatMap.1 h
  obtain ⟨b, hb, hi⟩ := List.mem_flatMap.1 hi
  refine List.mem_flatMap.2 ⟨f, hf, List.mem_flatMap.2 ⟨b, hb, ?_⟩⟩
  exact List.mem_append_left _ (List.mem_append_left _ hi)

/-- What is held of a character of the program can be drawn: complete states are among the
images of their tree. -/
theorem drawable_of_holds {id : CharacterId} {path : List String} (hid : id < p.characters.length)
    (h : (g.gallery p).state id path) : g.Drawable p id path := by
  rcases h with ⟨c, hc, hcomplete⟩ | hmem
  · exact ⟨c, hc, .inl (SpriteTree.mem_images_of_isComplete hcomplete)⟩
  · exact ⟨_, List.getElem?_eq_getElem hid, .inr hmem⟩

/-- **What generated code draws is declared.** -/
theorem declared_of_visited (h : generate p s = .ok g) (hp : p.ImagesDeclared)
    (hvisited : List.Forall₂ (fun f g => ∃ visits, Visited p s.reentrantShow f g visits)
      p.functions g.functions)
    (hcode : ∀ f ∈ g.functions, f.InRange p.characters.length p.functions.length) :
    g.Declared p := by
  have hholds := holds_insts h hp hvisited
  have hin : ∀ i ∈ g.insts, i.action.NamesBelow p.characters.length := by
    intro i hi
    obtain ⟨f, hf, hi⟩ := List.mem_flatMap.1 hi
    obtain ⟨b, hb, hi⟩ := List.mem_flatMap.1 hi
    exact (hcode f hf).insts b hb i hi
  obtain ⟨w, hrecords, -, hplaceholders⟩ := records_generate h
  constructor
  case shows =>
    intro i hi id path haction
    have hstate := hholds i hi
    rw [haction] at hstate
    exact drawable_of_holds (hin i hi id (by simp [haction, Action.characters])) hstate
  case lines =>
    intro i hi id path content haction hpath
    obtain ⟨tag, tags, rfl⟩ := List.exists_cons_of_ne_nil hpath
    have hstate := hholds i hi
    rw [haction] at hstate
    exact drawable_of_holds (hin i hi id (by simp [haction, Action.characters])) hstate
  case placeholders =>
    intro id path
    constructor
    · intro hmem
      rw [hplaceholders] at hmem
      rcases (hrecords.placeholders (id, path)).1 hmem with hnone | ⟨hleaf, i, hi, haction⟩
      · cases hnone
      · exact ⟨hleaf, i, mem_insts_of_mem_bodies hi, haction⟩
    · rintro ⟨hleaf, i, hi, haction⟩
      have hstate := hholds i hi
      rw [haction] at hstate
      exact hstate.resolve_left hleaf
  case scenes =>
    intro i hi name haction
    have hscene := hholds i hi
    rw [haction] at hscene
    exact hscene
  case images =>
    intro i hi image haction
    have himage := hholds i hi
    rw [haction] at himage
    exact himage
  case settled =>
    intro i hi id tags haction
    have hnone := hholds i hi
    rw [haction] at hnone
    exact hnone

end Generate
end Manuscript
