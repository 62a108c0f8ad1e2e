/-
# Names of images

Which images of a script share a name. The name of an image is a word and tags with
spaces between them: the identifier of a character and the tags of a state, or a word
of its own for backgrounds and for displayed images. No character has such a word as
its identifier, and identifiers of characters, of scenes and of displayed images are
kept apart, so images share a name only within one character.

The states of a character are all different, but their tags are only turned into
identifiers and not kept apart. So the names of a script's images differ exactly if no
character has two states whose tags become the same (`Script.nodup_imageNames_iff`).
Two words that differ in case become the same, so a script may define an image twice
(`compile_twoCases_imageNames`).

Key definitions: `Script.TagsDiffer`, `Script.StartsWith`.
Key theorems: `Script.nodup_statesOf`, `Script.nodup_characterImageNames_iff`,
`Script.nodup_imageNames_iff`, `compile_imageNames_nodup_iff`.
-/
import Manuscript.Proofs.Script.Images

namespace Manuscript

namespace Script

open Identifier (Plain)

variable {p : Program} {g : Generated}

/-! ### States -/

/-- The states of a character that have images differ. -/
theorem nodup_statesOf {c : Character} (hc : c.sprites.Unique) (hg : g.placeholders.Nodup)
    (id : CharacterId) : (statesOf g c id).Nodup := by
  refine List.Nodup.append (SpriteTree.nodup_images hc) ?_ ?_
  · have hmissing := (hg.filter (·.1 == id)).filter fun e => !c.sprites.images.any (·.1 == e.2)
    refine List.Nodup.map_on (fun e he e' he' hpath => ?_) hmissing
    have hid : ∀ {e : Placeholder}, e ∈ (g.placeholders.filter (·.1 == id)).filter
        (fun e => !c.sprites.images.any (·.1 == e.2)) → e.1 = id := fun he => by
      simpa using (List.mem_filter.1 (List.mem_filter.1 he).1).2
    exact Prod.ext ((hid he).trans (hid he').symm) hpath
  · intro path htree hmissing
    obtain ⟨e, he, rfl⟩ := List.mem_map.1 hmissing
    obtain ⟨x, hx, hsame⟩ := List.mem_map.1 htree
    have hnot := (List.mem_filter.1 he).2
    rw [Bool.not_eq_true', List.any_eq_false] at hnot
    exact hnot x hx (by simpa using hsame)

/-- No character has two states with images whose tags become the same identifiers. -/
def TagsDiffer (p : Program) (g : Generated) : Prop :=
  ∀ (id : CharacterId) c, p.characters[id]? = some c →
    ∀ path ∈ statesOf g c id, ∀ path' ∈ statesOf g c id,
      path.map Identifier.sanitize = path'.map Identifier.sanitize → path = path'

/-- The images of one character have different names exactly if the tags of its states differ. -/
theorem nodup_map_imageName {states : List (List String)} (h : states.Nodup) {word : String}
    (hword : Plain word.toList) : (states.map (imageName word)).Nodup ↔
      ∀ path ∈ states, ∀ path' ∈ states,
        path.map Identifier.sanitize = path'.map Identifier.sanitize → path = path' := by
  have hname : ∀ path path', imageName word path = imageName word path' ↔
      path.map Identifier.sanitize = path'.map Identifier.sanitize := by
    intro path path'
    refine ⟨fun h => (imageName_inj hword hword h).2, fun h => ?_⟩
    rw [imageName_eq_join, imageName_eq_join, h]
  rw [List.nodup_map_iff_inj_on h]
  simp only [hname]

/-! ### First words -/

/-- The name is made of words with spaces between them, and this is the first. -/
def StartsWith (word name : String) : Prop :=
  ∃ parts, name = Text.join (String.singleton ' ') (word :: parts) ∧
    ∀ part ∈ word :: parts, ' ' ∉ part.toList

/-- A name has one first word. -/
theorem StartsWith.unique {word word' name : String} (h : StartsWith word name)
    (h' : StartsWith word' name) : word = word' := by
  obtain ⟨parts, rfl, hspace⟩ := h
  obtain ⟨parts', hjoin, hspace'⟩ := h'
  have hparts := Text.join_injective (List.cons_ne_nil _ _) (List.cons_ne_nil _ _) hspace hspace'
    hjoin
  exact (List.cons.inj hparts).1

theorem startsWith_imageName {word : String} (h : Plain word.toList) (path : List String) :
    StartsWith word (imageName word path) := by
  refine ⟨_, imageName_eq_join word path, List.forall_mem_cons.2 ⟨plain_space h, fun part hpart => ?_⟩⟩
  obtain ⟨tag, -, rfl⟩ := List.mem_map.1 hpart
  exact plain_space (Identifier.plain_sanitize tag)

theorem startsWith_bg {ident : String} (h : Plain ident.toList) :
    StartsWith "bg" ("bg " ++ ident) :=
  ⟨[ident], rfl, by simpa using plain_space h⟩

theorem startsWith_cg {ident : String} (h : Plain ident.toList) :
    StartsWith "cg" ("cg " ++ ident) :=
  ⟨[ident], rfl, by simpa using plain_space h⟩

/-! ### All images -/

/-- The names of the images of all characters. -/
def characterImageNames (p : Program) (g : Generated) : List String :=
  (casting p (Names.of p g)).flatMap fun e => (statesOf g e.1.1 e.2).map (imageName e.1.2)

theorem plain_of_mem_casting {e : (Character × String) × CharacterId}
    (h : e ∈ casting p (Names.of p g)) : Plain e.1.2.toList :=
  Names.plain_characters p g _ (List.mem_of_getElem? (mem_casting.1 h).2)

/-- Characters have different identifiers. -/
theorem pairwise_casting (p : Program) (g : Generated) :
    (casting p (Names.of p g)).Pairwise fun e e' => e.1.2 ≠ e'.1.2 := by
  have hlength : (Names.of p g).characters.length ≤ p.characters.length :=
    Nat.le_of_eq (Names.covers_of p g).length_characters
  have hwords : (casting p (Names.of p g)).map (fun e => e.1.2) = (Names.of p g).characters :=
    calc (casting p (Names.of p g)).map (fun e => e.1.2)
        = ((casting p (Names.of p g)).map Prod.fst).map Prod.snd := List.map_map.symm
      _ = (p.characters.zip (Names.of p g).characters).map Prod.snd := by
        rw [casting, List.zipIdx_map_fst]
      _ = (Names.of p g).characters := List.map_snd_zip hlength
  have hnodup := Names.nodup_characters p g
  rw [← hwords] at hnodup
  exact List.pairwise_map.1 hnodup

theorem exists_mem_casting {id : CharacterId} {c : Character} (h : p.characters[id]? = some c) :
    ∃ word, ((c, word), id) ∈ casting p (Names.of p g) := by
  have hid : id < (Names.of p g).characters.length := by
    rw [(Names.covers_of p g).length_characters]
    exact (List.getElem?_eq_some_iff.1 h).1
  exact ⟨_, mem_casting.2 ⟨h, List.getElem?_eq_getElem hid⟩⟩

/-- The name of a character's image starts with the identifier of a character. -/
theorem exists_startsWith {name : String} (h : name ∈ characterImageNames p g) :
    ∃ word ∈ (Names.of p g).characters, StartsWith word name := by
  obtain ⟨e, he, hname⟩ := List.mem_flatMap.1 h
  obtain ⟨path, -, rfl⟩ := List.mem_map.1 hname
  exact ⟨e.1.2, List.mem_of_getElem? (mem_casting.1 he).2,
    startsWith_imageName (plain_of_mem_casting he) path⟩

/-- Images of characters have different names exactly if the tags of each character's states
differ. -/
theorem nodup_characterImageNames_iff (hp : ∀ c ∈ p.characters, c.sprites.Unique)
    (hg : g.placeholders.Nodup) : (characterImageNames p g).Nodup ↔ TagsDiffer p g := by
  have hstates : ∀ e ∈ casting p (Names.of p g), (statesOf g e.1.1 e.2).Nodup := fun e he =>
    nodup_statesOf (hp _ (List.mem_of_getElem? (mem_casting.1 he).1)) hg e.2
  have hdisjoint : (casting p (Names.of p g)).Pairwise
      (Function.onFun List.Disjoint fun e => (statesOf g e.1.1 e.2).map (imageName e.1.2)) := by
    refine (pairwise_casting p g).imp_of_mem fun he he' hne name hname hname' => hne ?_
    obtain ⟨path, -, rfl⟩ := List.mem_map.1 hname
    obtain ⟨path', -, hsame⟩ := List.mem_map.1 hname'
    have hstart' := startsWith_imageName (plain_of_mem_casting he') path'
    rw [hsame] at hstart'
    exact (startsWith_imageName (plain_of_mem_casting he) path).unique hstart'
  rw [characterImageNames, List.nodup_flatMap, and_iff_left hdisjoint]
  constructor
  · intro h id c hc
    obtain ⟨word, he⟩ := exists_mem_casting (g := g) hc
    exact (nodup_map_imageName (hstates _ he) (plain_of_mem_casting he)).1 (h _ he)
  · intro h e he
    refine (nodup_map_imageName (hstates e he) (plain_of_mem_casting he)).2 ?_
    exact h e.2 e.1.1 (mem_casting.1 he).1

/-- Scenes have different identifiers. -/
theorem nodup_sceneImageNames (h : (g.scenes.map (·.name)).Nodup) :
    (g.scenes.map fun sc => "bg " ++ (Names.of p g).scene sc.name).Nodup := by
  have hidents := h.map_on (f := fun name => "bg " ++ (Names.of p g).scene name)
    fun a ha b hb hab => identifierOf_inj ha hb (String.append_right_inj _ |>.1 hab)
  rwa [List.map_map] at hidents

/-- **When the images of a script have different names.** Of what scripts are made of, only the
tags of states are not kept apart. -/
theorem nodup_imageNames_iff (hp : ∀ c ∈ p.characters, c.sprites.Unique)
    (hg : g.placeholders.Nodup) (hscenes : (g.scenes.map (·.name)).Nodup)
    (himages : (p.images.map (·.id)).Nodup)
    (hplain : ∀ id ∈ p.images.map (·.id), Plain id.toList) :
    (imageNames p g (Names.of p g)).Nodup ↔ TagsDiffer p g := by
  have hscene : ∀ name ∈ g.scenes.map (fun sc => "bg " ++ (Names.of p g).scene sc.name),
      StartsWith "bg" name := by
    intro name hname
    obtain ⟨sc, -, rfl⟩ := List.mem_map.1 hname
    exact startsWith_bg (plain_identifierOf _ sc.name)
  have himage : ∀ name ∈ p.images.map (fun i => "cg " ++ i.id), StartsWith "cg" name := by
    intro name hname
    obtain ⟨i, hi, rfl⟩ := List.mem_map.1 hname
    exact startsWith_cg (hplain _ (List.mem_map_of_mem hi))
  have himageNames : (p.images.map fun i => "cg " ++ i.id).Nodup := by
    have hids := himages.map (f := fun id => "cg " ++ id) fun _ _ h => String.append_right_inj _ |>.1 h
    rwa [List.map_map] at hids
  have hcharacters : ∀ name ∈ characterImageNames p g,
      ¬ StartsWith "bg" name ∧ ¬ StartsWith "cg" name := by
    intro name hname
    obtain ⟨word, hword, hstart⟩ := exists_startsWith hname
    have hne := Names.characters_ne p g hword
    exact ⟨fun h => hne.1 (hstart.unique h), fun h => hne.2 (hstart.unique h)⟩
  rw [← nodup_characterImageNames_iff hp hg]
  show (characterImageNames p g ++ _ ++ _).Nodup ↔ _
  constructor
  · intro h
    exact (List.nodup_append.1 (List.nodup_append.1 h).1).1
  · intro h
    refine List.nodup_append.2 ⟨List.nodup_append.2 ⟨h, nodup_sceneImageNames hscenes, ?_⟩,
      himageNames, ?_⟩
    · rintro name hname _ hbg rfl
      exact (hcharacters name hname).1 (hscene name hbg)
    · rintro name hname _ hcg rfl
      rcases List.mem_append.1 hname with hname | hname
      · exact (hcharacters name hname).2 (himage name hcg)
      · exact absurd ((hscene name hname).unique (himage name hcg)) (by decide)

end Script

/-- The images of a script that was written from a document have different names exactly if the
tags of states do. -/
theorem Program.Stages.nodup_imagesOf_iff {c : CodegenSettings} {a : Assembly} {g : Generated}
    {ls : List Script.Line} {p : Program} {doc : Document} (h : p.Stages c a g ls)
    (ha : a.Sound doc) :
    (Script.imagesOf ls).Nodup ↔ Script.TagsDiffer p g := by
  rw [Script.imagesOf_lines h.lines]
  have hsprites : ∀ c ∈ p.characters, c.sprites.Unique := by
    rw [h.lowered]
    exact ha.sprites
  have hscenes : (p.scenes.map (·.name)).Nodup := by
    rw [h.lowered]
    exact ha.scenes
  refine Script.nodup_imageNames_iff hsprites (Generate.nodup_placeholders h.generated)
    (Generate.nodup_scenes h.generated hscenes) ?_ ?_
  · rw [h.lowered]
    exact ha.images
  · rw [h.lowered]
    exact ha.plain

/-- **When images share a name.** Every document compiles to a script whose images have different
names exactly if no character has two states with images whose tags become the same. -/
theorem compile_imageNames_nodup_iff (d : Document) (s : Settings) :
    ∃ c g ls, compile d s = .ok c ∧ generate c.program s.codegen = .ok g ∧
      Script.lines c.program g s.codegen = .ok ls ∧
      c.script = Script.render s.codegen.indentWidth ls ∧
      ((Script.imagesOf ls).Nodup ↔ Script.TagsDiffer c.program g) := by
  obtain ⟨c, hc, a, g, ls, ha, hstages, hscript⟩ := yields_compile d s
  exact ⟨c, g, ls, hc, hstages.generated, hstages.lines, hscript,
    hstages.nodup_imagesOf_iff (Assembly.sound_of_ofDocument ha)⟩

/-- A character with two states that differ in case. -/
def twoCases : Document :=
  ⟨"", [.ofString "[Character A]", .ofRows [["x"], ["X"]]]⟩

/-- The images that the script of a compiled document defines. -/
def imagesOfCompiled (s : Settings) (c : Compiled) : Except Fault (List String) := do
  let g ← generate c.program s.codegen
  return Script.imagesOf (← Script.lines c.program g s.codegen)

/-- The two states get images of the same name. -/
theorem compile_twoCases_imageNames : ∃ c g ls, compile twoCases {} = .ok c ∧
    generate c.program {} = .ok g ∧ Script.lines c.program g {} = .ok ls ∧
    c.script = Script.render 4 ls ∧
    Script.imagesOf ls = ["a x", "a x"] ∧ ¬ (Script.imagesOf ls).Nodup := by
  obtain ⟨c, hc, a, g, ls, -, hstages, hscript⟩ := yields_compile twoCases {}
  have hnames : compile twoCases {} >>= imagesOfCompiled {} = .ok ["a x", "a x"] := by
    decide +kernel
  have hls : imagesOfCompiled {} c = .ok (Script.imagesOf ls) :=
    bind_eq_ok.2 ⟨g, hstages.generated, bind_eq_ok.2 ⟨ls, hstages.lines, rfl⟩⟩
  rw [hc] at hnames
  have himages : Script.imagesOf ls = ["a x", "a x"] := Except.ok.inj (hls.symm.trans hnames)
  refine ⟨c, g, ls, hc, hstages.generated, hstages.lines, hscript, himages, ?_⟩
  rw [himages]
  decide

end Manuscript
