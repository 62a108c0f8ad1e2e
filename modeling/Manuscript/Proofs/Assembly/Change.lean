/-
# How an assembly changes

Whatever a command or a line does to an assembly is made up of a few changes,
each with the condition under which it is made: a character is added if none
answers to its name, a step is emitted if the characters it names are there, and
so on (`Assembly.Change`). Properties of assemblies are proved change by change,
and then hold of everything that is put together.

Characters are never taken away (`Assembly.Changes.length_le`), and all that an
assembly names is there (`Assembly.Changes.inRange`).

What commands and lines do for a document is a little less than what changes allow:
sprites grow path by path, a step displays only what was added, and text goes to the
script as it is only from a paragraph of the document that asks for it. These are the
edits (`Assembly.Edit`), and each is a change.

Key definitions: `Speakers.characters`, `Block.GoesVerbatim`, `Assembly.Change`,
`Assembly.Changes`, `Assembly.InRange`, `Assembly.TakenFrom`, `Assembly.Edit`,
`Assembly.Edits`.
Key theorems: `Assembly.Change.inRange`, `Assembly.Edits.changes`,
`Assembly.edits_character`, `Assembly.edits_declareAll`, `Assembly.edits_command`.
-/
import Mathlib.Logic.Relation
import Manuscript.Assembly.Code
import Manuscript.Proofs.Flow.InRange

namespace Manuscript

/-! ### Who may speak -/

/-- The characters between which a mode chooses. -/
def SayMode.characters : SayMode → List CharacterId
  | .standard => []
  | .single c => [c]
  | .rotation cs _ => cs

namespace Speakers

/-- The characters that may speak an unnamed line, now or in another mode. -/
def characters (s : Speakers) : List CharacterId := s.active.toList ++ s.mode.characters

/-- A line is spoken by whom it names or by somebody who may speak, and so are those after it. -/
theorem say_mem {s : Speakers} {named : Option CharacterId} {quoted : Bool} :
    (s.say named quoted).1.toList ⊆ named.toList ++ s.characters ∧
      (s.say named quoted).2.characters ⊆ named.toList ++ s.characters := by
  rcases s with ⟨mode, active⟩
  unfold say
  cases named with
  | some c =>
    dsimp only
    split <;> simp [characters]
  | none =>
    cases mode with
    | standard => cases quoted <;> simp [characters]
    | single c => simp [characters, SayMode.characters]
    | rotation cs next =>
      cases quoted with
      | false => simp [characters]
      | true =>
        dsimp only
        cases hc : cs[next % cs.length]? with
        | none => simp [characters]
        | some c => simp [characters, SayMode.characters, List.mem_of_getElem? hc]

theorem narration_mem (s : Speakers) : s.narration.toList ⊆ s.characters := by
  unfold narration
  split
  · rename_i c hmode
    simp [characters, SayMode.characters, hmode]
  · simp

end Speakers

/-- The block is a paragraph whose text goes to the script as it is. -/
def Block.GoesVerbatim (b : Block) : Prop :=
  b.attachment = none ∧ b.isBlank = false ∧ b.isVerbatim = true

instance (b : Block) : Decidable b.GoesVerbatim :=
  inferInstanceAs (Decidable (b.attachment = none ∧ b.isBlank = false ∧ b.isVerbatim = true))

namespace Assembly

/-! ### Changes -/

/-- One change of an assembly, and when it is made. -/
inductive Change (a : Assembly) : Assembly → Prop where
  | report (d : Diagnostic) : Change a (a.report d)
  | addCharacter (c : Character) : a.findCharacter? c.name = none → Change a (a.addCharacter c).2
  /-- Adds to the sprites of a character. -/
  | insertSprite (id : CharacterId) (insert : Character → SpriteTree) : id < a.characters.length →
    Change a (a.modifyCharacter id fun c => { c with sprites := insert c })
  | addScene (s : Scene) : a.scenes.any (·.name == s.name) = false →
    Change a { a with scenes := a.scenes ++ [s] }
  | emit (step : Step) (loc : Loc) : step.NamesBelow a.characters.length →
    Change a (a.emit step loc)
  | openFunction (name : String) (loc : Loc) : a.procedures.any (·.name == name) = false →
    Change a (a.openFunction name loc)
  /-- What follows is dropped. -/
  | closeFunction : Change a { a with current := none }
  | setMode (mode : SayMode) : (∀ id ∈ mode.characters, id < a.characters.length) →
    Change a { a with speakers := a.speakers.setMode mode }
  | say (named : Option CharacterId) (quoted : Bool) : (∀ id ∈ named, id < a.characters.length) →
    Change a { a with speakers := (a.speakers.say named quoted).2 }
  | addImage (name path : String) : Change a
    { a with
      imageIds := (a.imageIds.claim name).2
      images := a.images ++ [⟨(a.imageIds.claim name).1, path⟩] }

/-- Some changes one after the other. -/
abbrev Changes : Assembly → Assembly → Prop := Relation.ReflTransGen Change

/-- All that an assembly names is there: the characters of its steps and its speakers, and the
function that takes steps. -/
structure InRange (a : Assembly) : Prop where
  ops : ∀ p ∈ a.procedures, ∀ op ∈ p.ops, op.step.NamesBelow a.characters.length
  speakers : ∀ id ∈ a.speakers.characters, id < a.characters.length
  current : ∀ i, a.current = some i → i < a.procedures.length

theorem inRange_fresh (title : String) (diags : List Diagnostic) : (fresh title diags).InRange :=
  ⟨by simp [fresh], by simp [fresh, Speakers.fresh, Speakers.characters, SayMode.characters],
    by simp [fresh]⟩

variable {a b : Assembly}

theorem Change.length_le (h : Change a b) : a.characters.length ≤ b.characters.length := by
  cases h with
  | addCharacter c _ => simp [Assembly.addCharacter]
  | insertSprite id insert _ => simp [modifyCharacter]
  | emit step loc _ =>
    unfold Assembly.emit
    split <;> exact Nat.le_refl _
  | _ => exact Nat.le_refl _

theorem Changes.length_le (h : Changes a b) : a.characters.length ≤ b.characters.length := by
  induction h with
  | refl => exact Nat.le_refl _
  | tail _ hchange ih => exact Nat.le_trans ih hchange.length_le

theorem mem_of_mem_modify {α : Type} {xs : List α} {i : Nat} {f : α → α} {x : α}
    (h : x ∈ xs.modify i f) : x ∈ xs ∨ ∃ y ∈ xs, x = f y := by
  obtain ⟨j, hj⟩ := List.mem_iff_getElem?.1 h
  rw [List.getElem?_modify] at hj
  obtain ⟨y, hy, rfl⟩ := Option.map_eq_some_iff.1 hj
  have hmem := List.mem_of_getElem? hy
  split
  · exact .inr ⟨y, hmem, rfl⟩
  · exact .inl hmem

/-- A change of one element shows only in what it changes. -/
theorem map_modify_eq {α β : Type} {f : α → β} {g : α → α} (h : ∀ x, f (g x) = f x) (xs : List α)
    (i : Nat) : (xs.modify i g).map f = xs.map f := by
  refine List.ext_getElem? fun j => ?_
  rw [List.getElem?_map, List.getElem?_map, List.getElem?_modify]
  cases xs[j]? with
  | none => rfl
  | some x => by_cases hj : i = j <;> simp [hj, h]

/-- A step goes to a function that is there, and the functions stay in range. -/
theorem InRange.emit (ha : a.InRange) {step : Step} (loc : Loc)
    (h : step.NamesBelow a.characters.length) : (a.emit step loc).InRange := by
  unfold Assembly.emit
  split
  · rename_i i hi
    refine ⟨fun p hp op hop => ?_, ha.speakers, fun j hj => ?_⟩
    · rcases mem_of_mem_modify hp with hp | ⟨q, hq, rfl⟩
      · exact ha.ops p hp op hop
      · rcases List.mem_append.1 hop with hop | hop
        · exact ha.ops q hq op hop
        · rw [List.mem_singleton.1 hop]
          exact h
    · simpa using ha.current j hj
  · exact ha

theorem Change.inRange (h : Change a b) (ha : a.InRange) : b.InRange := by
  cases h with
  | report d => exact ⟨ha.ops, ha.speakers, ha.current⟩
  | addCharacter c _ =>
    have hle : a.characters.length ≤ (a.characters ++ [c]).length := by simp
    exact ⟨fun p hp op hop => (ha.ops p hp op hop).mono hle,
      fun id hid => Nat.lt_of_lt_of_le (ha.speakers id hid) hle, ha.current⟩
  | insertSprite id insert _ =>
    have hlen : (a.characters.modify id fun c => { c with sprites := insert c }).length =
      a.characters.length := List.length_modify ..
    exact ⟨fun p hp op hop => hlen ▸ ha.ops p hp op hop, fun id hid => hlen ▸ ha.speakers id hid,
      ha.current⟩
  | addScene s _ => exact ⟨ha.ops, ha.speakers, ha.current⟩
  | emit step loc hstep => exact ha.emit loc hstep
  | openFunction name loc _ =>
    refine ⟨fun p hp => ?_, ha.speakers, fun j hj => ?_⟩
    · rcases List.mem_append.1 hp with hp | hp
      · exact ha.ops p hp
      · rw [List.mem_singleton.1 hp]
        simp
    · obtain rfl : a.procedures.length = j := by simpa [Assembly.openFunction] using hj
      simp [Assembly.openFunction]
  | closeFunction => exact ⟨ha.ops, ha.speakers, by simp⟩
  | setMode mode hmode =>
    refine ⟨ha.ops, fun id hid => ?_, ha.current⟩
    rcases List.mem_append.1 hid with hid | hid
    · exact ha.speakers id (List.mem_append_left _ hid)
    · exact hmode id hid
  | say named quoted hnamed =>
    refine ⟨ha.ops, fun id hid => ?_, ha.current⟩
    rcases List.mem_append.1 (Speakers.say_mem.2 hid) with hid | hid
    · exact hnamed id (Option.mem_toList.1 hid)
    · exact ha.speakers id hid
  | addImage name path => exact ⟨ha.ops, ha.speakers, ha.current⟩

theorem Changes.inRange (h : Changes a b) (ha : a.InRange) : b.InRange := by
  induction h with
  | refl => exact ha
  | tail _ hchange ih => exact hchange.inRange ih

/-! ### Edits -/

/-- A step that displays an image displays one of these, and text that a step puts into the script
as it is is that of a paragraph of the document. -/
def TakenFrom (doc : Document) (ids : List String) : Step → Prop
  | .act (.showImage image) => image ∈ ids
  | .act (.verbatim text) => ∃ b ∈ doc.blocks, b.GoesVerbatim ∧ b.plain = text
  | _ => True

/-- One edit of an assembly for a document: a change that gives a new character no sprites, adds to
sprites by paths, and emits no step that displays what was not added or puts text into the script
that does not go there as it is. -/
inductive Edit (doc : Document) (a : Assembly) : Assembly → Prop where
  | report (d : Diagnostic) : Edit doc a (a.report d)
  | addCharacter (c : Character) : a.findCharacter? c.name = none → c.sprites = .empty →
    Edit doc a (a.addCharacter c).2
  | insertSprite (id : CharacterId) (asset : Character → Asset) (path : List String) :
    id < a.characters.length →
    Edit doc a (a.modifyCharacter id fun c => { c with sprites := c.sprites.insert (asset c) path })
  | addScene (s : Scene) : a.scenes.any (·.name == s.name) = false →
    Edit doc a { a with scenes := a.scenes ++ [s] }
  | emit (step : Step) (loc : Loc) : step.NamesBelow a.characters.length →
    TakenFrom doc (a.images.map (·.id)) step → Edit doc a (a.emit step loc)
  | openFunction (name : String) (loc : Loc) : a.procedures.any (·.name == name) = false →
    Edit doc a (a.openFunction name loc)
  | closeFunction : Edit doc a { a with current := none }
  | setMode (mode : SayMode) : (∀ id ∈ mode.characters, id < a.characters.length) →
    Edit doc a { a with speakers := a.speakers.setMode mode }
  | say (named : Option CharacterId) (quoted : Bool) : (∀ id ∈ named, id < a.characters.length) →
    Edit doc a { a with speakers := (a.speakers.say named quoted).2 }
  | addImage (name path : String) : Edit doc a
    { a with
      imageIds := (a.imageIds.claim name).2
      images := a.images ++ [⟨(a.imageIds.claim name).1, path⟩] }

/-- Some edits one after the other. -/
abbrev Edits (doc : Document) : Assembly → Assembly → Prop := Relation.ReflTransGen (Edit doc)

variable {doc : Document}

theorem Edit.change (h : Edit doc a b) : Change a b := by
  cases h with
  | report d => exact .report d
  | addCharacter c hname _ => exact .addCharacter c hname
  | insertSprite id asset path hid => exact .insertSprite id _ hid
  | addScene s hname => exact .addScene s hname
  | emit step loc hstep _ => exact .emit step loc hstep
  | openFunction name loc hname => exact .openFunction name loc hname
  | closeFunction => exact .closeFunction
  | setMode mode hmode => exact .setMode mode hmode
  | say named quoted hnamed => exact .say named quoted hnamed
  | addImage name path => exact .addImage name path

theorem Edits.changes (h : Edits doc a b) : Changes a b :=
  Relation.ReflTransGen.mono (fun _ _ => Edit.change) _ _ h

theorem Edits.length_le (h : Edits doc a b) : a.characters.length ≤ b.characters.length :=
  h.changes.length_le

theorem edits_foldl {β : Type} {f : Assembly → β → Assembly} (h : ∀ a x, Edits doc a (f a x)) :
    ∀ (xs : List β) (a : Assembly), Edits doc a (xs.foldl f a)
  | [], _ => .refl
  | x :: xs, a => (h a x).trans (edits_foldl h xs (f a x))

/-! ### Characters by name -/

theorem lt_of_findCharacter? {name : String} {id : CharacterId}
    (h : a.findCharacter? name = some id) : id < a.characters.length :=
  (List.findIdx?_eq_some_iff_getElem.1 h).1

/-- The character of a name is there once it was asked for. -/
theorem edits_character (a : Assembly) (name : String) (code : Code) (loc : Loc) :
    Edits doc a (a.character name code loc).2 ∧
      (a.character name code loc).1 < (a.character name code loc).2.characters.length := by
  unfold character
  cases h : a.findCharacter? name with
  | some id => exact ⟨.refl, lt_of_findCharacter? h⟩
  | none =>
    refine ⟨.tail (.single (.report _)) (.addCharacter _ h rfl), ?_⟩
    simp [addCharacter, Assembly.report]

theorem edits_charactersOf (code : Code) (loc : Loc) : ∀ (names : List String) (a : Assembly),
    Edits doc a (a.charactersOf code loc names).2 ∧
      ∀ id ∈ (a.charactersOf code loc names).1,
        id < (a.charactersOf code loc names).2.characters.length
  | [], a => ⟨.refl, by simp [charactersOf]⟩
  | name :: rest, a => by
    obtain ⟨hfirst, hid⟩ := edits_character a name code loc
    obtain ⟨hrest, hids⟩ := edits_charactersOf code loc rest (a.character name code loc).2
    refine ⟨hfirst.trans hrest, List.forall_mem_cons.2 ⟨?_, hids⟩⟩
    exact Nat.lt_of_lt_of_le hid hrest.length_le

/-! ### Declarations -/

theorem edits_addState {id : CharacterId} (h : id < a.characters.length) (state : String)
    (file : Option String) : Edits doc a (a.addState id state file) := by
  unfold addState
  split
  · exact .refl
  · exact .single (.insertSprite id _ _ h)

theorem edits_addStates {id : CharacterId} (h : id < a.characters.length)
    (attachment : Option Attachment) : Edits doc a (a.addStates id attachment) := by
  unfold addStates
  generalize (attachment.map Attachment.pairs).getD [] = pairs
  induction pairs generalizing a with
  | nil => exact .refl
  | cons pair rest ih =>
    have hfirst : Edits doc a
        (a.addState id pair.1 (if pair.2.isEmpty then none else some pair.2)) := edits_addState h _ _
    exact hfirst.trans (ih (Nat.lt_of_lt_of_le h hfirst.length_le))

theorem edits_colorOf (a : Assembly) (c : Command) (k : Keyword) :
    Edits doc a (a.colorOf c k).2 ∧ (a.colorOf c k).2.characters = a.characters := by
  unfold colorOf
  split
  · exact ⟨.refl, rfl⟩
  · split
    · exact ⟨.refl, rfl⟩
    · exact ⟨.single (.report _), rfl⟩

theorem edits_newCharacter (c : Command) {name : String} (h : a.findCharacter? name = none) :
    Edits doc a (a.newCharacter c name).2 ∧
      (a.newCharacter c name).1 < (a.newCharacter c name).2.characters.length := by
  obtain ⟨hname, hnames⟩ := edits_colorOf a c .nameColor
  obtain ⟨hcontent, hcontents⟩ := edits_colorOf (a.colorOf c .nameColor).2 c .color
  refine ⟨(hname.trans hcontent).tail (.addCharacter _ ?_ rfl), ?_⟩
  · rw [findCharacter?, hcontents, hnames]
    exact h
  · simp [newCharacter, addCharacter]

theorem edits_declareCharacter (a : Assembly) (c : Command) :
    Edits doc a (a.declareCharacter c) := by
  unfold declareCharacter
  split
  · exact .single (.report _)
  · rename_i name _
    dsimp only
    cases h : a.findCharacter? name with
    | some id =>
      have hid := lt_of_findCharacter? h
      exact .trans (.single (.report _)) (edits_addStates (a := a.report _) hid _)
    | none =>
      obtain ⟨hnew, hid⟩ := edits_newCharacter c h
      exact hnew.trans (edits_addStates hid _)

theorem edits_declareSprite (a : Assembly) (c : Command) (media : List Media) :
    Edits doc a (a.declareSprite c media) := by
  unfold declareSprite
  split
  · exact .single (.report _)
  · rename_i name _
    obtain ⟨hchar, hid⟩ := edits_character a name .characterUnresolved c.loc
    refine hchar.trans ?_
    dsimp only
    generalize a.character name .characterUnresolved c.loc = r at hid
    rcases r with ⟨id, a⟩
    split
    · have hstate : Edits doc a (a.addState id ‹String› (c.keyword? .image >>= Arg.asset? media)) :=
        edits_addState hid _ _
      exact hstate.trans (edits_addStates (Nat.lt_of_lt_of_le hid hstate.length_le) _)
    · split
      · exact .trans (.single (.report _)) (edits_addStates (a := a.report _) hid _)
      · exact edits_addStates hid _

theorem edits_declareScene (a : Assembly) (c : Command) (media : List Media) :
    Edits doc a (a.declareScene c media) := by
  unfold declareScene
  split
  · exact .single (.report _)
  · split
    · exact .single (.report _)
    · rename_i h
      exact .single (.addScene ⟨_, _⟩ (by simpa using h))

/-- The declarations of a document. -/
theorem edits_declareAll (d : Document) (items : List Item) (a : Assembly) :
    Edits doc a (declareAll d items a) := by
  refine .trans (edits_foldl (fun a e => ?_) _ a) (edits_foldl (fun a e => ?_) _ _)
  · unfold characterStage
    split
    · exact edits_declareCharacter a _
    · exact .refl
  · unfold sceneryStage
    split
    · exact edits_declareSprite a _ _
    · exact edits_declareScene a _ _
    · exact .refl

/-! ### Commands -/

theorem edits_functionCommand (a : Assembly) (c : Command) : Edits doc a (a.functionCommand c) := by
  unfold functionCommand
  split
  · exact .single (.report _)
  · split
    · exact .tail (.single (.report _)) .closeFunction
    · rename_i h
      exact .single (.openFunction _ _ (by simpa using h))

theorem edits_sayModeCommand (a : Assembly) (c : Command) : Edits doc a (a.sayModeCommand c) := by
  unfold sayModeCommand
  dsimp only
  split
  · exact .single (.report _)
  · split
    case h_1 | h_2 => exact .single (.setMode .standard (by simp [SayMode.characters]))
    case h_3 | h_4 =>
      split
      · rename_i name _
        obtain ⟨hchar, hid⟩ := edits_character a (Text.trimmed name) .characterUnresolved c.loc
        exact hchar.tail (.setMode (.single _) (by simpa [SayMode.characters] using hid))
      · exact .single (.report _)
    case h_5 | h_6 =>
      split
      · exact .single (.report _)
      · obtain ⟨hchars, hids⟩ := edits_charactersOf .characterUnresolved c.loc (rotationNames c) a
        exact hchars.tail (.setMode (.rotation _ 0) hids)
    case h_7 => exact .single (.report _)

/-- A step that names no character is emitted, or what is wrong with it is reported. -/
theorem edits_emitOr (a : Assembly) (c : Command) {β : Type} (x : Except Diagnostic β)
    {step : β → Step} (h : ∀ y n, (step y).NamesBelow n) (ht : ∀ y ids, TakenFrom doc ids (step y)) :
    Edits doc a (a.emitOr c (x.map step)) := by
  cases x with
  | ok y => exact .single (.emit _ _ (h y _) (ht y _))
  | error d => exact .single (.report d)

theorem takenFrom_of_characters {action : Action} {id : CharacterId} {ids : List String}
    (h : action.characters = [id]) : TakenFrom doc ids (.act action) := by
  cases action with
  | showImage image => cases h
  | verbatim text => cases h
  | _ => trivial

/-- A step about a character is emitted once the character is there. -/
theorem edits_characterStep (a : Assembly) (c : Command) (step : CharacterId → Action)
    (h : ∀ id, (step id).characters = [id]) : Edits doc a (a.characterStep c step) := by
  unfold characterStep
  split
  · exact .single (.report _)
  · rename_i name _
    obtain ⟨hchar, hid⟩ := edits_character a name .characterUnresolved c.loc
    refine hchar.tail (.emit _ _ ?_ (takenFrom_of_characters (h _)))
    intro id hmem
    rw [h, List.mem_singleton] at hmem
    exact hmem ▸ hid

theorem edits_setStateCommand (a : Assembly) (c : Command) : Edits doc a (a.setStateCommand c) := by
  unfold setStateCommand
  split
  · exact .single (.report _)
  · split
    · exact .single (.report _)
    · exact edits_characterStep a c (.setState · _) fun _ => rfl

theorem edits_channelOf (a : Assembly) (c : Command) : Edits doc a (a.channelOf c).2 := by
  unfold channelOf
  split
  · exact .refl
  · split
    · exact .refl
    · exact .single (.report _)

theorem edits_playCommand (a : Assembly) (c : Command) (media : List Media) :
    Edits doc a (a.playCommand c media) := by
  unfold playCommand
  split
  · exact .single (.report _)
  · split
    · exact .single (.report _)
    · exact (edits_channelOf a c).tail (.emit _ _ (Action.namesBelow_of_eq_nil rfl _) trivial)

theorem edits_bodyCommand (a : Assembly) (c : Command) (kind : CommandKind) (media : List Media) :
    Edits doc a (a.bodyCommand c kind media) := by
  cases kind with
  | label => exact edits_emitOr a c _ (fun _ _ => trivial) fun _ _ => trivial
  | jump => exact edits_emitOr a c _ (fun _ _ => trivial) fun _ _ => trivial
  | call => exact edits_emitOr a c _ (fun _ _ => trivial) fun _ _ => trivial
  | ret => exact .single (.emit _ _ trivial trivial)
  | branch => exact edits_emitOr a c _ (fun _ _ => trivial) fun _ _ => trivial
  | switchScene => exact edits_emitOr a c _ (fun _ => Action.namesBelow_of_eq_nil rfl) fun _ _ => trivial
  | showCharacter => exact edits_characterStep a c (.showCharacter · c.stateTags) fun _ => rfl
  | hideCharacter => exact edits_characterStep a c .hideCharacter fun _ => rfl
  | setState => exact edits_setStateCommand a c
  | play => exact edits_playCommand a c media
  | comment => exact .single (.emit _ _ (Action.namesBelow_of_eq_nil rfl _) trivial)
  | _ => exact .refl

/-- A command that is not disabled. -/
theorem edits_command (a : Assembly) (c : Command) (media : List Media) :
    Edits doc a (a.command c media) := by
  unfold command
  split
  · exact .single (.report _)
  · exact edits_functionCommand a c
  · exact edits_sayModeCommand a c
  · split
    · exact .refl
    · exact edits_bodyCommand a c _ media

end Assembly
end Manuscript
