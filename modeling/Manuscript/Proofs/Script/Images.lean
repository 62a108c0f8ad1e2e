/-
# Images of a script

Every image that a script puts on screen is defined in it: a `show`, a scene or a line
with attributes names an image statement of the same script.

Each line behind the preamble belongs to the frame of the script, or it is written for
an instruction of the generated code (`Script.Framed`). What generated code draws is
declared, and it is written under the name under which its image is defined.

Key definitions: `Script.Statement.defines?`, `Script.Statement.draws?`,
`Script.imagesOf`, `Script.drawnBy`, `Script.Framed`, `Script.WrittenFor`,
`Script.statesOf`, `Script.imageNames`, `Script.drawnName?`.
Key theorems: `Script.framed_chapters`, `Script.imagesOf_lines`,
`Script.mem_imageNames_of_declared`, `Script.drawnBy_subset_imagesOf`,
`lower_declared`.
-/
import Manuscript.Proofs.Assembly.Sound
import Manuscript.Proofs.Script.Names
import Manuscript.Proofs.Script.Written
import Manuscript.Proofs.Total

namespace Manuscript

namespace Script

namespace Statement

/-- The image that a statement defines. -/
def defines? : Statement → Option String
  | image name _ => some name
  | _ => none

/-- The image that a statement puts on screen. A line with attributes draws its speaker with
them. -/
def draws? : Statement → Option String
  | showImage name => some name
  | scene (some background) => some ("bg " ++ background)
  | say (some speaker) (some attributes) _ => some (speaker ++ " " ++ attributes)
  | _ => none

/-- The statement neither defines nor draws an image: it is blank, or it steers. -/
def isBare : Statement → Bool
  | blank | comment _ | define .. | label _ | jump _ | call _ | menu | choice _ | ret | pass => true
  | _ => false

/-- The statement belongs to the frame of a script: it says where control goes, or stands where
nothing else does. -/
def isFrame : Statement → Bool
  | blank | label _ | jump _ | call _ | menu | choice _ | ret | pass => true
  | _ => false

theorem isBare_of_isFrame {st : Statement} (h : st.isFrame = true) : st.isBare = true := by
  cases st <;> first | rfl | cases h

theorem isBare_none {st : Statement} (h : st.isBare = true) :
    st.defines? = none ∧ st.draws? = none := by
  cases st <;> first | exact ⟨rfl, rfl⟩ | cases h

end Statement

/-- The images that lines define, in order. -/
def imagesOf (ls : List Line) : List String := ls.filterMap (·.statement.defines?)

/-- The images that lines put on screen, in order. -/
def drawnBy (ls : List Line) : List String := ls.filterMap (·.statement.draws?)

variable {s : CodegenSettings} {n : Names} {p : Program} {g : Generated}

/-! ### Which line is written for what -/

/-- The line belongs to the frame, or it is written for one of the instructions. -/
def Framed (s : CodegenSettings) (n : Names) (is : List Inst) (l : Line) : Prop :=
  l.statement.isFrame = true ∨ ∃ i ∈ is, ∃ sts, statements s n i = .ok sts ∧ l.statement ∈ sts

theorem Framed.mono {is js : List Inst} {l : Line} (h : Framed s n is l) (hsub : is ⊆ js) :
    Framed s n js l := by
  rcases h with hframe | ⟨i, hi, hsts⟩
  · exact .inl hframe
  · exact .inr ⟨i, hsub hi, hsts⟩

theorem Performs.framed {is : List Inst} {sts : List Statement} (h : Performs s n is sts)
    (depth : Nat) : ∀ l ∈ atDepth depth sts, Framed s n is l := by
  intro l hl
  obtain ⟨st, hst, rfl⟩ := List.mem_map.1 hl
  exact .inr (h.exists_inst hst)

section Function

variable {id : FunctionId} {f : GeneratedFunction}

theorem framed_arms {arms : List (Arm × List Inst)} {parts : List (List Line)}
    (h : List.Forall₂ (ArmWritten s n id f) arms parts) :
    ∀ l ∈ parts.flatten, Framed s n (arms.flatMap (·.2)) l := by
  induction h with
  | nil => simp
  | @cons e part arms parts hwritten _ ih =>
    obtain ⟨sts, target, hsts, -, rfl⟩ := hwritten
    intro l hl
    rcases List.mem_append.1 hl with hl | hl
    · rcases List.mem_cons.1 hl with rfl | hl
      · exact .inl rfl
      · rcases List.mem_append.1 hl with hl | hl
        · exact (hsts.framed 3 l hl).mono (List.subset_append_left _ _)
        · rw [List.mem_singleton.1 hl]
          exact .inl rfl
    · exact (ih l hl).mono (List.subset_append_right _ _)

theorem framed_terminatorLines {i : BlockId} {b : GeneratedBlock} {ls : List Line}
    (h : terminatorLines s n id f i b = .ok ls) :
    ∀ l ∈ ls, Framed s n b.armPatches.flatten l := by
  have hsingle : ∀ {st : Statement}, st.isFrame = true →
      ∀ l ∈ [(⟨1, st⟩ : Line)], Framed s n b.armPatches.flatten l := by
    intro st hst l hl
    rw [List.mem_singleton.1 hl]
    exact .inl hst
  unfold terminatorLines at h
  split at h
  · obtain ⟨name, -, h⟩ := bind_eq_ok.1 h
    cases h
    exact hsingle rfl
  · obtain ⟨name, -, h⟩ := bind_eq_ok.1 h
    cases h
    exact hsingle rfl
  · split at h
    · cases h
      simp
    · obtain ⟨name, -, h⟩ := bind_eq_ok.1 h
      cases h
      exact hsingle rfl
  · rename_i arms _
    obtain ⟨armLines, harms, h⟩ := bind_eq_ok.1 h
    cases h
    obtain ⟨parts, hparts, rfl⟩ := armLines_eq_ok harms
    refine List.forall_mem_cons.2 ⟨.inl rfl, fun l hl => (framed_arms hparts l hl).mono ?_⟩
    intro j hj
    obtain ⟨e, he, hj⟩ := List.mem_flatMap.1 hj
    exact List.mem_flatten.2 ⟨e.2, (List.of_mem_zip he).2, hj⟩
  · cases h
    exact hsingle rfl

/-- Every line of a block belongs to the frame, or it is written for one of its instructions. -/
theorem framed_blockLines {b : GeneratedBlock} {i : BlockId} {ls : List Line}
    (h : blockLines s n id f b i = .ok ls) : ∀ l ∈ ls, Framed s n b.insts l := by
  obtain ⟨sts, out, hwritten⟩ := blockWritten_of_ok h
  intro l hl
  rw [hwritten.lines] at hl
  rcases List.mem_append.1 hl with hl | hl
  · rcases List.mem_append.1 hl with hl | hl
    · rcases List.mem_append.1 hl with hl | hl
      · obtain ⟨label, -, rfl⟩ := List.mem_map.1 hl
        exact .inl rfl
      · exact (hwritten.performs.framed 1 l hl).mono (List.subset_append_left _ _)
    · exact (framed_terminatorLines hwritten.exit l hl).mono (List.subset_append_right _ _)
  · unfold padding at hl
    split at hl
    · rw [List.mem_singleton.1 hl]
      exact .inl rfl
    · simp at hl

end Function

/-- **Every line behind the preamble belongs to the frame, or it is written for an instruction of
the generated code.** -/
theorem framed_chapters {chapters : List (List (List Line))} (h : AllWritten s p g chapters) :
    ∀ l ∈ (chapters.map chapter).flatten, Framed s (Names.of p g) g.insts l := by
  intro l hl
  obtain ⟨_, hc, hl⟩ := List.mem_flatten.1 hl
  obtain ⟨blocks, hblocks, rfl⟩ := List.mem_map.1 hc
  obtain ⟨k, hk⟩ := List.mem_iff_getElem?.1 hblocks
  obtain ⟨f, hf, hwritten⟩ := exists_of_getElem?_zipIdx h hk
  rcases List.mem_append.1 hl with hl | hl
  · obtain ⟨ls, hls, hl⟩ := List.mem_flatten.1 hl
    obtain ⟨i, hi⟩ := List.mem_iff_getElem?.1 hls
    obtain ⟨b, hb, hlines⟩ := exists_of_getElem?_zipIdx hwritten hi
    refine (framed_blockLines hlines l hl).mono fun j hj => ?_
    exact List.mem_flatMap.2 ⟨f, List.mem_of_getElem? hf,
      List.mem_flatMap.2 ⟨b, List.mem_of_getElem? hb, hj⟩⟩
  · rw [List.mem_singleton.1 hl]
    exact .inl rfl

/-- The line is written for one of the instructions, or it is bare. -/
def WrittenFor (s : CodegenSettings) (n : Names) (is : List Inst) (l : Line) : Prop :=
  l.statement.isBare = true ∨ ∃ i ∈ is, ∃ sts, statements s n i = .ok sts ∧ l.statement ∈ sts

theorem writtenFor_chapters {chapters : List (List (List Line))} (h : AllWritten s p g chapters) :
    ∀ l ∈ (chapters.map chapter).flatten, WrittenFor s (Names.of p g) g.insts l := by
  intro l hl
  rcases framed_chapters h l hl with hframe | hwritten
  · exact .inl (Statement.isBare_of_isFrame hframe)
  · exact .inr hwritten

/-! ### What is defined -/

/-- The states of a character that have images: those of its tree, then those shown without
art. -/
def statesOf (g : Generated) (c : Character) (id : CharacterId) : List (List String) :=
  c.sprites.images.map (·.1) ++
    ((g.placeholders.filter (·.1 == id)).filter
      fun e => !c.sprites.images.any (·.1 == e.2)).map (·.2)

/-- Every character with its identifier and its number. -/
def casting (p : Program) (n : Names) : List ((Character × String) × CharacterId) :=
  (p.characters.zip n.characters).zipIdx

theorem mem_casting {n : Names} {e : (Character × String) × CharacterId} : e ∈ casting p n ↔
    p.characters[e.2]? = some e.1.1 ∧ n.characters[e.2]? = some e.1.2 := by
  rw [casting, List.mem_zipIdx_iff_getElem?, List.getElem?_zip_eq_some]

/-- The names under which a script defines images. -/
def imageNames (p : Program) (g : Generated) (n : Names) : List String :=
  (casting p n).flatMap (fun e => (statesOf g e.1.1 e.2).map (imageName e.1.2))
    ++ g.scenes.map (fun sc => "bg " ++ n.scene sc.name)
    ++ p.images.map fun i => "cg " ++ i.id

theorem mem_statesOf {c : Character} {id : CharacterId} {path : List String} :
    path ∈ statesOf g c id ↔
      path ∈ c.sprites.images.map (·.1) ∨ (id, path) ∈ g.placeholders := by
  have hany : c.sprites.images.any (·.1 == path) = true ↔ path ∈ c.sprites.images.map (·.1) := by
    simp [List.any_eq_true]
  rw [statesOf, List.mem_append]
  constructor
  · rintro (htree | hmissing)
    · exact .inl htree
    · obtain ⟨e, he, rfl⟩ := List.mem_map.1 hmissing
      have he := (List.mem_filter.1 (List.mem_filter.1 he).1)
      have hid : e.1 = id := by simpa using he.2
      exact .inr (hid ▸ he.1)
  · rintro (htree | hplaceholder)
    · exact .inl htree
    · by_cases htree : path ∈ c.sprites.images.map (·.1)
      · exact .inl htree
      · refine .inr (List.mem_map.2 ⟨(id, path), ?_, rfl⟩)
        refine List.mem_filter.2 ⟨List.mem_filter.2 ⟨hplaceholder, by simp⟩, ?_⟩
        rw [Bool.not_eq_true', ← Bool.not_eq_true]
        exact mt hany.1 htree

@[simp] theorem imagesOf_append (ls ms : List Line) :
    imagesOf (ls ++ ms) = imagesOf ls ++ imagesOf ms := List.filterMap_append

@[simp] theorem drawnBy_append (ls ms : List Line) :
    drawnBy (ls ++ ms) = drawnBy ls ++ drawnBy ms := List.filterMap_append

theorem of_bare {ls : List Line} (h : ∀ l ∈ ls, l.statement.isBare = true) :
    imagesOf ls = [] ∧ drawnBy ls = [] :=
  ⟨List.filterMap_eq_nil_iff.2 fun l hl => (Statement.isBare_none (h l hl)).1,
    List.filterMap_eq_nil_iff.2 fun l hl => (Statement.isBare_none (h l hl)).2⟩

/-- Lines that are closed by a blank line define and draw what they do without it. -/
theorem of_closed (ls : List Line) :
    imagesOf (closed ls) = imagesOf ls ∧ drawnBy (closed ls) = drawnBy ls := by
  unfold closed
  split
  · rename_i hempty
    rw [List.isEmpty_iff.1 hempty]
    exact ⟨rfl, rfl⟩
  · rw [imagesOf_append, drawnBy_append]
    exact ⟨List.append_nil _, List.append_nil _⟩

theorem filterMap_defines?_images (p : Program) (g : Generated) (s : CodegenSettings) (n : Names) :
    (images p g s n).filterMap Statement.defines? = imageNames p g n := by
  have hcharacter : ∀ e : (Character × String) × CharacterId,
      (characterImages s g e.1.1 e.2 e.1.2).filterMap Statement.defines? =
        (statesOf g e.1.1 e.2).map (imageName e.1.2) := by
    intro e
    rw [characterImages, List.filterMap_append, List.filterMap_map, List.filterMap_map, statesOf,
      List.map_append, List.map_map, List.map_map, ← List.filterMap_eq_map, ← List.filterMap_eq_map]
    rfl
  rw [images, List.filterMap_append, List.filterMap_append, List.filterMap_map, List.filterMap_map,
    List.filterMap_flatMap, imageNames, ← List.filterMap_eq_map, ← List.filterMap_eq_map]
  simp only [hcharacter]
  rfl

theorem filterMap_draws?_images (p : Program) (g : Generated) (s : CodegenSettings) (n : Names) :
    (images p g s n).filterMap Statement.draws? = [] := by
  rw [List.filterMap_eq_nil_iff]
  intro st hst
  simp only [images, characterImages, List.mem_append, List.mem_flatMap, List.mem_map] at hst
  rcases hst with (⟨e, -, ⟨_, -, rfl⟩ | ⟨_, -, rfl⟩⟩ | ⟨sc, -, rfl⟩) | ⟨i, -, rfl⟩ <;> rfl

/-- All images are defined before the functions, and nothing is drawn there. -/
theorem of_preamble (p : Program) (g : Generated) (s : CodegenSettings) (n : Names) :
    imagesOf (preamble p g s n) = imageNames p g n ∧ drawnBy (preamble p g s n) = [] := by
  have hheader : ∀ l ∈ header p s, l.statement.isBare = true := by
    unfold header
    split
    · simp [closed, atDepth, Statement.isBare]
    · simp
  have hdefines : ∀ l ∈ atDepth 0 ((p.characters.zip n.characters).map fun e =>
      Statement.define e.2 e.1), l.statement.isBare = true := by
    intro l hl
    simp only [atDepth, List.mem_map] at hl
    obtain ⟨st, ⟨e, -, rfl⟩, rfl⟩ := hl
    rfl
  have himages : ∀ name? : Statement → Option String,
      (atDepth 0 (images p g s n)).filterMap (fun l => name? l.statement) =
        (images p g s n).filterMap name? := fun name? => List.filterMap_map
  constructor
  · rw [preamble, imagesOf_append, imagesOf_append, (of_bare hheader).1, defines, (of_closed _).1,
      (of_bare hdefines).1, (of_closed _).1, imagesOf, himages, filterMap_defines?_images]
    rfl
  · rw [preamble, drawnBy_append, drawnBy_append, (of_bare hheader).2, defines, (of_closed _).2,
      (of_bare hdefines).2, (of_closed _).2, drawnBy, himages, filterMap_draws?_images]
    rfl

/-- What instructions become defines no image. -/
theorem WrittenFor.defines? {is : List Inst} {l : Line} (h : WrittenFor s n is l) :
    l.statement.defines? = none := by
  rcases h with hbare | ⟨i, -, sts, hsts, hmem⟩
  · exact (Statement.isBare_none hbare).1
  · have hacts := (acts_of_statements hsts _ hmem).1
    cases hst : l.statement with
    | image name art =>
      rw [hst] at hacts
      cases hacts
    | _ => rfl

/-- **The images of a script** are those of the states, the scenes and the displayed images. -/
theorem imagesOf_lines {ls : List Line} (h : lines p g s = .ok ls) :
    imagesOf ls = imageNames p g (Names.of p g) := by
  obtain ⟨chapters, hwritten, rfl⟩ := lines_eq_ok h
  have hnone : imagesOf (chapters.map chapter).flatten = [] :=
    List.filterMap_eq_nil_iff.2 fun l hl => (writtenFor_chapters hwritten l hl).defines?
  rw [imagesOf_append, (of_preamble ..).1, hnone, List.append_nil]

/-! ### What is drawn -/

/-- The name under which an action draws an image. -/
def drawnName? (n : Names) : Action → Option String
  | .showCharacter id path | .setState id path => n.characters[id]?.map (imageName · path)
  | .say (some id) (tag :: tags) _ => n.characters[id]?.map (imageName · (tag :: tags))
  | .setScene scene => some ("bg " ++ n.scene scene)
  | .showImage image => some ("cg " ++ image)
  | _ => none

theorem getElem?_of_character {id : CharacterId} {name : String} (h : n.character id = .ok name) :
    n.characters[id]? = some name := Fault.unless_eq_ok.1 h

/-- A statement draws an image under the name under which its instruction does. -/
theorem drawnName?_of_statements {i : Inst} {sts : List Statement}
    (h : statements s n i = .ok sts) {st : Statement} (hst : st ∈ sts) {name : String}
    (hname : st.draws? = some name) : drawnName? n i.action = some name := by
  rcases i with ⟨a, loc⟩
  cases a with
  | say speaker status content =>
    rcases speaker with _ | id
    · cases h
      rw [List.mem_singleton.1 hst] at hname
      cases hname
    · rcases status with _ | ⟨tag, tags⟩
      · obtain ⟨word, -, h⟩ := bind_eq_ok.1 h
        cases h
        rw [List.mem_singleton.1 hst] at hname
        cases hname
      · obtain ⟨word, hword, h⟩ := bind_eq_ok.1 h
        cases h
        rw [List.mem_singleton.1 hst] at hname
        cases hname
        rw [drawnName?, getElem?_of_character hword]
        rfl
  | showCharacter id path | setState id path =>
    obtain ⟨word, hword, h⟩ := bind_eq_ok.1 h
    cases h
    rw [List.mem_singleton.1 hst] at hname
    cases hname
    rw [drawnName?, getElem?_of_character hword]
    rfl
  | hideCharacter id =>
    obtain ⟨word, -, h⟩ := bind_eq_ok.1 h
    cases h
    rw [List.mem_singleton.1 hst] at hname
    cases hname
  | verbatim text =>
    cases h
    obtain ⟨line, -, rfl⟩ := List.mem_map.1 hst
    cases hname
  | comment text =>
    cases h
    split at hst
    · rw [List.mem_singleton.1 hst] at hname
      cases hname
    · cases hst
  | _ =>
    cases h
    rw [List.mem_singleton.1 hst] at hname
    cases hname <;> rfl

theorem mem_imageNames_of_state {n : Names} {id : CharacterId} {c : Character} {word : String}
    {path : List String} (hc : p.characters[id]? = some c) (hword : n.characters[id]? = some word)
    (hpath : path ∈ c.sprites.images.map (·.1) ∨ (id, path) ∈ g.placeholders) :
    imageName word path ∈ imageNames p g n := by
  have hmem : ((c, word), id) ∈ casting p n := mem_casting.2 ⟨hc, hword⟩
  refine List.mem_append_left _ (List.mem_append_left _ (List.mem_flatMap.2 ⟨_, hmem, ?_⟩))
  exact List.mem_map_of_mem (mem_statesOf.2 hpath)

/-- **Every image that is drawn is defined.** -/
theorem mem_imageNames_of_declared {n : Names} (hd : g.Declared p) {i : Inst} (hi : i ∈ g.insts)
    {name : String} (hname : drawnName? n i.action = some name) : name ∈ imageNames p g n := by
  have hstate : ∀ {id path}, g.Drawable p id path →
      n.characters[id]?.map (imageName · path) = some name → name ∈ imageNames p g n := by
    rintro id path ⟨c, hc, hpath⟩ hmap
    obtain ⟨word, hword, rfl⟩ := Option.map_eq_some_iff.1 hmap
    exact mem_imageNames_of_state hc hword hpath
  cases haction : i.action with
  | showCharacter id path =>
    rw [haction] at hname
    exact hstate (hd.shows i hi id path haction) hname
  | setState id tags => exact absurd haction (hd.settled i hi id tags)
  | say speaker status content =>
    rw [haction] at hname
    rcases speaker with _ | id
    · cases hname
    · rcases status with _ | ⟨tag, tags⟩
      · cases hname
      · exact hstate (hd.lines i hi id _ content haction (List.cons_ne_nil tag tags)) hname
  | setScene scene =>
    rw [haction] at hname
    cases hname
    obtain ⟨sc, hsc, rfl⟩ := List.mem_map.1 (hd.scenes i hi scene haction)
    exact List.mem_append_left _ (List.mem_append_right _ (List.mem_map.2 ⟨sc, hsc, rfl⟩))
  | showImage image =>
    rw [haction] at hname
    cases hname
    have hcount := hd.images i hi image haction
    have hmem : image ∈ p.images.map (·.id) := List.count_pos_iff.1 (hcount ▸ Nat.one_pos)
    obtain ⟨im, him, rfl⟩ := List.mem_map.1 hmem
    exact List.mem_append_right _ (List.mem_map.2 ⟨im, him, rfl⟩)
  | _ =>
    rw [haction] at hname
    cases hname

/-- Every image that a script puts on screen is defined in it. -/
theorem drawnBy_subset_imagesOf {ls : List Line} (h : lines p g s = .ok ls) (hd : g.Declared p) :
    drawnBy ls ⊆ imagesOf ls := by
  rw [imagesOf_lines h]
  obtain ⟨chapters, hwritten, rfl⟩ := lines_eq_ok h
  rw [drawnBy_append, (of_preamble ..).2, List.nil_append]
  intro name hname
  obtain ⟨l, hl, hdraws⟩ := List.mem_filterMap.1 hname
  rcases writtenFor_chapters hwritten l hl with hbare | ⟨i, hi, sts, hsts, hmem⟩
  · rw [(Statement.isBare_none hbare).2] at hdraws
    cases hdraws
  · exact mem_imageNames_of_declared hd hi (drawnName?_of_statements hsts hmem hdraws)

end Script

/-- The code of a program that was lowered from a sound assembly draws what is declared. -/
theorem Program.Stages.declared {c : CodegenSettings} {a : Assembly} {g : Generated}
    {ls : List Script.Line} {p : Program} {doc : Document} (h : p.Stages c a g ls)
    (ha : a.Sound doc) :
    g.Declared p := by
  have himages : p.ImagesDeclared := by
    rw [h.lowered]
    exact ha.imagesDeclared
  exact Generate.declared_of_visited h.generated himages h.visited h.code

/-- **What is drawn is declared.** The program of every document is generated and written, all
that its generated code draws is declared, and every image that its script puts on screen is
defined in the script. -/
theorem lower_declared (d : Document) (s : Settings) (c : CodegenSettings) :
    ∃ p ds g ls, lower d s = .ok (p, ds) ∧ generate p c = .ok g ∧ Script.lines p g c = .ok ls ∧
      g.Declared p ∧ Script.drawnBy ls ⊆ Script.imagesOf ls := by
  obtain ⟨⟨p, ds⟩, hlower, a, g, ls, ha, -, hstages⟩ := yields_stages d s c
  have hdeclared := hstages.declared (Assembly.sound_of_ofDocument ha)
  exact ⟨p, ds, g, ls, hlower, hstages.generated, hstages.lines, hdeclared,
    Script.drawnBy_subset_imagesOf hstages.lines hdeclared⟩

end Manuscript
