/-
# Who is cast

The characters of an assembly, without their sprites, are its cast. Whatever a command
or a line does to the cast is made up of steps that leave it as it is or add one
character at its end, whose name nobody in it answers to (`Assembly.Meets`). A character
that was only mentioned is added implicitly and reported, one report each.

The names in the cast are those that the document mentions: the bare values of commands,
the speakers that a command lists or singles out, and the speakers of lines
(`Item.Mentions`).

Key definitions: `Assembly.cast`, `Assembly.strangers`, `Assembly.Meets`,
`Assembly.Casts`, `Assembly.WellCast`, `Command.SinglesOut`, `Item.Mentions`.
Key theorems: `Assembly.Casts.grows`, `Assembly.findCharacter?_of_grows`,
`Assembly.Casts.wellCast`, `Assembly.casts_command`, `Assembly.casts_item`,
`Assembly.casts_ofDocument`.
-/
import Manuscript.Proofs.Assembly.Opened
import Manuscript.Proofs.Line.Names

namespace Manuscript

/-- The character without its sprites. -/
def Character.bare (c : Character) : Character := { c with sprites := .empty }

@[simp] theorem Character.name_bare (c : Character) : c.bare.name = c.name := rfl

@[simp] theorem Character.aliases_bare (c : Character) : c.bare.aliases = c.aliases := rfl

@[simp] theorem Character.implicit_bare (c : Character) : c.bare.implicit = c.implicit := rfl

/-- A report under this code says that a character was declared implicitly. -/
def Code.tellsStranger : Code → Bool
  | .sayerImplicit | .characterUnresolved => true
  | _ => false

/-! ### Who is mentioned -/

/-- The command hands every unnamed line to one speaker. -/
structure Command.SinglesOut (c : Command) (speaker : String) : Prop where
  kind : CommandKind.lookup? c.name = some .sayMode
  mode : ∃ mode, c.positionalText "mode" = .ok mode ∧ Text.lowercase mode ∈ ["single", "长发言"]
  speaker : c.keywordText? .speaker = some speaker

/-- The command mentions somebody by this name. -/
def Command.Mentions (c : Command) (name : String) : Prop :=
  (∃ arg, c.positionalText arg = .ok name) ∨ name ∈ Assembly.rotationNames c ∨
    ∃ speaker, c.SinglesOut speaker ∧ name = Text.trimmed speaker

/-- The item mentions somebody by this name. -/
def Item.Mentions (it : Item) (name : String) : Prop :=
  match it.content with
  | .commands cs => ∃ c ∈ cs.filter (!·.disabled), c.Mentions name
  | .say s => s.speakerText = some name
  | _ => False

theorem Item.mentions_of_mem_enabled {it : Item} {e : Item.Enabled} (he : e ∈ it.enabled)
    {name : String} (h : e.command.Mentions name) : it.Mentions name := by
  obtain ⟨cs, hcs, hmem, -⟩ := exists_of_mem_enabled he
  rw [Mentions, hcs]
  exact ⟨e.command, hmem, h⟩

namespace Assembly

/-! ### The cast -/

/-- The characters without their sprites. -/
def cast (a : Assembly) : List Character := a.characters.map Character.bare

/-- How many reports say that a character was declared implicitly. -/
def strangers (a : Assembly) : Nat := a.diags.countP (·.code.tellsStranger)

/-- One step of putting an assembly together, as far as its cast goes: nobody is added, or one
character with a name that `P` allows and that nobody answers to. -/
inductive Meets (P : String → Prop) (a : Assembly) : Assembly → Prop
  | nobody {b : Assembly} : b.cast = a.cast → b.strangers = a.strangers → Meets P a b
  | somebody {b : Assembly} (c : Character) : P c.name → "" ∉ c.aliases →
    a.findCharacter? c.name = none → b.cast = a.cast ++ [c.bare] →
    b.strangers = a.strangers + c.implicit.toNat → Meets P a b

/-- Some steps one after the other. -/
abbrev Casts (P : String → Prop) : Assembly → Assembly → Prop := Relation.ReflTransGen (Meets P)

variable {P : String → Prop} {a b : Assembly}

/-- Who answers to a name can be told from the cast. -/
theorem findCharacter?_eq (a : Assembly) (name : String) :
    a.findCharacter? name = a.cast.findIdx? (·.answersTo name) := by
  rw [cast, List.findIdx?_map]
  rfl

theorem Meets.grows (h : Meets P a b) : a.cast <+: b.cast := by
  cases h with
  | nobody hcast _ => exact hcast ▸ List.prefix_rfl
  | somebody c _ _ _ hcast _ => rw [hcast]; exact List.prefix_append _ _

/-- **The cast only grows at its end.** -/
theorem Casts.grows (h : Casts P a b) : a.cast <+: b.cast := by
  induction h with
  | refl => exact List.prefix_rfl
  | tail _ hmeets ih => exact ih.trans hmeets.grows

/-- **A name that was resolved stays resolved**, to the same character. -/
theorem findCharacter?_of_grows (h : a.cast <+: b.cast) {name : String} {id : CharacterId}
    (hid : a.findCharacter? name = some id) : b.findCharacter? name = some id := by
  obtain ⟨more, hmore⟩ := h
  rw [findCharacter?_eq] at hid ⊢
  rw [← hmore, List.findIdx?_append, hid]
  rfl

/-- The characters of an assembly can be told apart by their names, the names are allowed, and
as many are implicit as were reported. -/
structure WellCast (P : String → Prop) (a : Assembly) : Prop where
  names : ∀ c ∈ a.cast, P c.name
  aliases : ∀ c ∈ a.cast, "" ∉ c.aliases
  apart : a.cast.Pairwise fun c c' => c.answersTo c'.name = false
  implicit : a.cast.countP (·.implicit) = a.strangers

theorem answersTo_eq_false_of_find {name : String} (h : a.findCharacter? name = none) :
    ∀ c ∈ a.cast, c.answersTo name = false := by
  rw [findCharacter?_eq, List.findIdx?_eq_none_iff] at h
  exact h

theorem Meets.wellCast (h : Meets P a b) (ha : a.WellCast P) : b.WellCast P := by
  cases h with
  | nobody hcast hstrangers =>
    exact ⟨hcast ▸ ha.names, hcast ▸ ha.aliases, hcast ▸ ha.apart,
      by rw [hcast, hstrangers, ha.implicit]⟩
  | somebody c hname haliases hfind hcast hstrangers =>
    constructor
    · rw [hcast]
      exact List.forall_mem_append.2 ⟨ha.names, by simpa using hname⟩
    · rw [hcast]
      exact List.forall_mem_append.2 ⟨ha.aliases, by simpa using haliases⟩
    · rw [hcast]
      refine List.pairwise_append.2 ⟨ha.apart, List.pairwise_singleton _ _, fun d hd e he => ?_⟩
      rw [List.mem_singleton.1 he]
      exact answersTo_eq_false_of_find hfind d hd
    · rw [hcast, hstrangers, List.countP_append, ha.implicit]
      cases hc : c.implicit <;> simp [hc]

/-- **The cast stays well formed.** -/
theorem Casts.wellCast (h : Casts P a b) (ha : a.WellCast P) : b.WellCast P := by
  induction h with
  | refl => exact ha
  | tail _ hmeets ih => exact hmeets.wellCast ih

/-! ### Steps that add nobody -/

theorem casts_of_eq (hcharacters : b.characters = a.characters) (hdiags : b.diags = a.diags) :
    Casts P a b :=
  .single (.nobody (by rw [cast, hcharacters, cast]) (by rw [strangers, hdiags, strangers]))

theorem casts_report {d : Diagnostic} (h : d.code.tellsStranger = false) : Casts P a (a.report d) :=
  .single (.nobody rfl (by simp [strangers, Assembly.report, h]))

theorem casts_emit (step : Step) (loc : Loc) : Casts P a (a.emit step loc) := by
  rw [emit_eq]
  exact casts_of_eq rfl rfl

theorem casts_foldl {β : Type} {f : Assembly → β → Assembly} : ∀ {xs : List β} {a : Assembly},
    (∀ a, ∀ x ∈ xs, Casts P a (f a x)) → Casts P a (xs.foldl f a)
  | [], _, _ => .refl
  | x :: xs, a, h => by
    rw [List.foldl_cons]
    exact (h a x List.mem_cons_self).trans
      (casts_foldl fun b y hy => h b y (List.mem_cons_of_mem x hy))

/-- A change of sprites leaves the cast as it is. -/
theorem casts_modifyCharacter (id : CharacterId) {f : Character → Character}
    (h : ∀ c, (f c).bare = c.bare) : Casts P a (a.modifyCharacter id f) :=
  .single (.nobody (map_modify_eq h a.characters id) rfl)

theorem casts_addState (id : CharacterId) (state : String) (file : Option String) :
    Casts P a (a.addState id state file) := by
  unfold addState
  split
  · exact .refl
  · exact casts_modifyCharacter id fun c => rfl

theorem casts_addStates (id : CharacterId) (attachment : Option Attachment) :
    Casts P a (a.addStates id attachment) :=
  casts_foldl fun _ x _ => casts_addState id x.1 _

theorem casts_colorOf (c : Command) (k : Keyword) :
    Casts P a (a.colorOf c k).2 ∧ (a.colorOf c k).2.characters = a.characters := by
  unfold colorOf
  split
  · exact ⟨.refl, rfl⟩
  · split
    · exact ⟨.refl, rfl⟩
    · exact ⟨casts_report rfl, rfl⟩

theorem casts_channelOf (c : Command) : Casts P a (a.channelOf c).2 := by
  unfold channelOf
  split
  · exact .refl
  · split
    · exact .refl
    · exact casts_report rfl

theorem casts_displayImage (name path : String) (i : Nat) :
    Casts P a (a.displayImage name path i) := by
  have himage : Casts P a { a with
      imageIds := (a.imageIds.claim name).2
      images := a.images ++ [⟨(a.imageIds.claim name).1, path⟩] } := casts_of_eq rfl rfl
  exact himage.trans (casts_emit _ _)

theorem casts_display (b : Block) (i : Nat) : Casts P a (a.display b i) := by
  unfold display
  split
  · split
    · exact casts_displayImage _ _ i
    · exact casts_displayImage _ _ i
  · exact casts_foldl fun _ path _ => casts_displayImage _ path i

/-- What is wrong with a command is no report of a stranger. -/
theorem tellsStranger_of_positionalText {c : Command} {arg : String} {d : Diagnostic}
    (h : c.positionalText arg = .error d) : d.code.tellsStranger = false := by
  unfold Command.positionalText at h
  split at h
  · cases h
    rfl
  · cases h
  · split at h
    · split at h <;> cases h
      rfl
    · cases h
      rfl

theorem tellsStranger_of_branchArms {c : Command} {d : Diagnostic} (h : branchArms c = .error d) :
    d.code.tellsStranger = false := by
  unfold branchArms at h
  split at h
  · cases h
    rfl
  · split at h
    · cases h
      rfl
    · split at h <;> cases h
      rfl

/-! ### Declarations -/

/-- **A name that is mentioned is known from then on**; who was not known is added. -/
theorem casts_character {name : String} (h : P name) (code : Code)
    (hcode : code.tellsStranger = true) (loc : Loc) : Casts P a (a.character name code loc).2 := by
  unfold character
  cases hfind : a.findCharacter? name with
  | some id => exact .refl
  | none =>
    refine .single (.somebody { Character.ofName name with implicit := true } h
      (by simp [Character.ofName]) hfind ?_ ?_)
    · simp [cast, addCharacter, Assembly.report]
    · simp [strangers, addCharacter, Assembly.report, Diagnostic.make, hcode]

theorem casts_charactersOf (code : Code) (hcode : code.tellsStranger = true) (loc : Loc) :
    ∀ {names : List String} {a : Assembly}, (∀ name ∈ names, P name) →
      Casts P a (a.charactersOf code loc names).2
  | [], _, _ => .refl
  | name :: rest, a, h => by
    obtain ⟨hname, hrest⟩ := List.forall_mem_cons.1 h
    exact (casts_character hname code hcode loc).trans (casts_charactersOf code hcode loc hrest)

theorem casts_newCharacter (c : Command) {name : String} (h : P name)
    (hfind : a.findCharacter? name = none) : Casts P a (a.newCharacter c name).2 := by
  obtain ⟨hname, hnames⟩ := casts_colorOf (P := P) (a := a) c .nameColor
  obtain ⟨hcontent, hcontents⟩ := casts_colorOf (P := P) (a := (a.colorOf c .nameColor).2) c .color
  refine (hname.trans hcontent).tail (.somebody
    ⟨name, ((c.keywordText? .otherNames).map Text.listItems).getD [], (a.colorOf c .nameColor).1,
      ((a.colorOf c .nameColor).2.colorOf c .color).1, .empty, false⟩ h ?_ ?_ ?_ rfl)
  · cases c.keywordText? .otherNames with
    | none => simp
    | some text => exact fun hmem => (Text.isName_of_mem_listItems hmem).1 rfl
  · rw [Assembly.findCharacter?, hcontents, hnames]
    exact hfind
  · simp [cast, newCharacter, addCharacter, Character.ofName]

section Commands

variable {c : Command} (hc : ∀ name, c.Mentions name → P name)

include hc

theorem casts_declareCharacter : Casts P a (a.declareCharacter c) := by
  unfold declareCharacter
  split
  · rename_i d hd
    exact casts_report (tellsStranger_of_positionalText hd)
  · rename_i name hname
    dsimp only
    cases hfind : a.findCharacter? name with
    | some id => exact .trans (casts_report rfl) (casts_addStates id _)
    | none =>
      exact (casts_newCharacter c (hc name (.inl ⟨_, hname⟩)) hfind).trans (casts_addStates _ _)

theorem casts_declareSprite (media : List Media) : Casts P a (a.declareSprite c media) := by
  unfold declareSprite
  split
  · rename_i d hd
    exact casts_report (tellsStranger_of_positionalText hd)
  · rename_i name hname
    refine .trans (casts_character (hc name (.inl ⟨_, hname⟩)) .characterUnresolved rfl c.loc) ?_
    dsimp only
    generalize a.character name .characterUnresolved c.loc = r
    rcases r with ⟨id, a⟩
    split
    · exact .trans (casts_addState id _ _) (casts_addStates id _)
    · split
      · exact .trans (casts_report rfl) (casts_addStates id _)
      · exact casts_addStates id _

omit hc in
theorem casts_declareScene (media : List Media) : Casts P a (a.declareScene c media) := by
  unfold declareScene
  split
  · rename_i d hd
    exact casts_report (tellsStranger_of_positionalText hd)
  · split
    · exact casts_report rfl
    · exact casts_of_eq rfl rfl

/-! ### Commands -/

omit hc in
theorem casts_functionCommand : Casts P a (a.functionCommand c) := by
  unfold functionCommand
  split
  · rename_i d hd
    exact casts_report (tellsStranger_of_positionalText hd)
  · split
    · exact .trans (casts_report rfl) (casts_of_eq rfl rfl)
    · exact casts_of_eq rfl rfl

theorem casts_sayModeCommand (hkind : CommandKind.lookup? c.name = some .sayMode) :
    Casts P a (a.sayModeCommand c) := by
  unfold sayModeCommand
  dsimp only
  split
  · rename_i d hd
    exact casts_report (tellsStranger_of_positionalText hd)
  · rename_i mode hmode
    have hsingle : ∀ speaker, c.keywordText? .speaker = some speaker →
        Text.lowercase mode ∈ ["single", "长发言"] → P (Text.trimmed speaker) := fun speaker hspeaker h =>
      hc _ (.inr (.inr ⟨speaker, ⟨hkind, ⟨mode, hmode, h⟩, hspeaker⟩, rfl⟩))
    split
    case h_1 | h_2 => exact casts_of_eq rfl rfl
    case h_3 heq | h_4 heq =>
      split
      · rename_i speaker hspeaker
        exact .trans (casts_character (hsingle speaker hspeaker (by simp [heq]))
          .characterUnresolved rfl c.loc) (casts_of_eq rfl rfl)
      · exact casts_report rfl
    case h_5 | h_6 =>
      split
      · exact casts_report rfl
      · exact .trans (casts_charactersOf .characterUnresolved rfl c.loc fun name hname =>
          hc name (.inr (.inl hname))) (casts_of_eq rfl rfl)
    case h_7 => exact casts_report rfl

omit hc in
theorem casts_emitOr {x : Except Diagnostic Step}
    (h : ∀ d, x = .error d → d.code.tellsStranger = false) : Casts P a (a.emitOr c x) := by
  cases x with
  | ok step => exact casts_emit _ _
  | error d => exact casts_report (h d rfl)

omit hc in
theorem casts_emitOr_positionalText (arg : String) (step : String → Step) :
    Casts P a (a.emitOr c ((c.positionalText arg).map step)) := by
  refine casts_emitOr fun d hd => ?_
  cases h : c.positionalText arg with
  | ok name => rw [h] at hd; cases hd
  | error e => rw [h] at hd; cases hd; exact tellsStranger_of_positionalText h

theorem casts_characterStep (step : CharacterId → Action) : Casts P a (a.characterStep c step) := by
  unfold characterStep
  split
  · rename_i d hd
    exact casts_report (tellsStranger_of_positionalText hd)
  · rename_i name hname
    exact .trans (casts_character (hc name (.inl ⟨_, hname⟩)) .characterUnresolved rfl c.loc) (casts_emit _ _)

theorem casts_setStateCommand : Casts P a (a.setStateCommand c) := by
  unfold setStateCommand
  split
  · rename_i d hd
    exact casts_report (tellsStranger_of_positionalText hd)
  · split
    · exact casts_report rfl
    · exact casts_characterStep hc _

omit hc in
theorem casts_playCommand (media : List Media) : Casts P a (a.playCommand c media) := by
  unfold playCommand
  split
  · exact casts_report rfl
  · split
    · exact casts_report rfl
    · exact .trans (casts_channelOf c) (casts_emit _ _)

theorem casts_bodyCommand (kind : CommandKind) (media : List Media) :
    Casts P a (a.bodyCommand c kind media) := by
  cases kind with
  | label => exact casts_emitOr_positionalText "name" .label
  | jump => exact casts_emitOr_positionalText "target" .jump
  | call => exact casts_emitOr_positionalText "function" .call
  | ret => exact casts_emit _ _
  | branch =>
    refine casts_emitOr fun d hd => ?_
    cases h : branchArms c with
    | ok arms => rw [h] at hd; cases hd
    | error e => rw [h] at hd; cases hd; exact tellsStranger_of_branchArms h
  | switchScene => exact casts_emitOr_positionalText "scene" (.act <| .setScene ·)
  | showCharacter => exact casts_characterStep hc (.showCharacter · c.stateTags)
  | hideCharacter => exact casts_characterStep hc .hideCharacter
  | setState => exact casts_setStateCommand hc
  | play => exact casts_playCommand media
  | comment => exact casts_emit _ _
  | _ => exact .refl

/-- **A command adds nobody but whom it mentions.** -/
theorem casts_command (media : List Media) : Casts P a (a.command c media) := by
  unfold command
  split
  · exact casts_report rfl
  · exact casts_functionCommand
  · rename_i hkind
    exact casts_sayModeCommand hc hkind
  · split
    · exact .refl
    · exact casts_bodyCommand hc _ media

end Commands

/-! ### Items -/

theorem casts_spoken {s : SayLine} (h : ∀ name, s.speakerText = some name → P name) (i : Nat) :
    Casts P a (a.spoken s i).2 := by
  unfold spoken
  cases hname : s.speakerText with
  | none => exact casts_of_eq rfl rfl
  | some name =>
    exact .trans (casts_character (h name hname) .sayerImplicit rfl (.ofBlock i))
      (casts_of_eq rfl rfl)

/-- **An item adds nobody but whom it mentions.** -/
theorem casts_item {d : Document} {it : Item} (h : item d a it = .ok b)
    (hit : ∀ name, it.Mentions name → P name) : Casts P a b := by
  by_cases hcommands : it.isCommands = true
  · obtain ⟨cs, hcs⟩ := Item.exists_commands hcommands
    rw [item_of_commands hcs] at h
    cases h
    refine casts_foldl fun a c hc => casts_command (fun name hname => hit name ?_) _
    rw [Item.Mentions, hcs]
    exact ⟨c, hc, hname⟩
  · rw [Bool.not_eq_true] at hcommands
    by_cases hcurrent : a.current = none
    · rw [item_of_current_none hcommands hcurrent] at h
      cases h
      exact .refl
    · rcases it with ⟨block, content⟩
      have hnone : ¬ a.current.isNone = true := by simpa using hcurrent
      unfold item at h
      cases content with
      | commands cs => simp [Item.isCommands] at hcommands
      | say s =>
        dsimp only at h
        rw [if_neg hnone, say_eq, bind_eq_ok] at h
        obtain ⟨content, -, ⟨⟩⟩ := h
        exact (casts_spoken hit block).trans (casts_emit _ _)
      | narration =>
        dsimp only at h
        rw [if_neg hnone, narrate_eq, bind_eq_ok] at h
        obtain ⟨content, -, ⟨⟩⟩ := h
        exact casts_emit _ _
      | verbatim =>
        dsimp only at h
        rw [if_neg hnone] at h
        cases h
        exact casts_emit _ _
      | display =>
        dsimp only at h
        rw [if_neg hnone] at h
        cases h
        exact casts_display _ block

theorem casts_characterStage {e : Item.Enabled} (h : ∀ name, e.command.Mentions name → P name) :
    Casts P a (a.characterStage e) := by
  unfold characterStage
  split
  · exact casts_declareCharacter h
  · exact .refl

theorem casts_sceneryStage (d : Document) {e : Item.Enabled}
    (h : ∀ name, e.command.Mentions name → P name) : Casts P a (sceneryStage d a e) := by
  unfold sceneryStage
  split
  · exact casts_declareSprite h _
  · exact casts_declareScene _
  · exact .refl

theorem casts_defaultFunction (s : FrontendSettings) (d : Document) (items : List Item) :
    Casts P a (defaultFunction s d items a) := by
  unfold defaultFunction
  split
  · exact .refl
  · exact casts_of_eq rfl rfl

theorem casts_declareAll (d : Document) {items : List Item}
    (h : ∀ it ∈ items, ∀ name, it.Mentions name → P name) : Casts P a (declareAll d items a) := by
  have hcommand : ∀ e ∈ items.flatMap Item.enabled, ∀ name, e.command.Mentions name → P name := by
    intro e he name hname
    obtain ⟨it, hit, he⟩ := List.mem_flatMap.1 he
    exact h it hit name (Item.mentions_of_mem_enabled he hname)
  exact .trans (casts_foldl fun _ e he => casts_characterStage (hcommand e he))
    (casts_foldl fun _ e he => casts_sceneryStage d (hcommand e he))

theorem casts_items {d : Document} {items : List Item} (h : items.foldlM (item d) a = .ok b)
    (hitems : ∀ it ∈ items, ∀ name, it.Mentions name → P name) : Casts P a b :=
  of_foldlM (P := Casts P a) (fun _ it hit _ hitem ha => ha.trans (casts_item hitem (hitems it hit)))
    h .refl

end Assembly

/-! ### Reports of reading -/

/-- The reports of taking a line as a command line. -/
def Bracketed.diags : Bracketed → List Diagnostic
  | .absent => []
  | .commands _ ds => ds
  | .nameless d => [d]

theorem Command.code_of_parse? {interior : String} {loc : Loc} {element : Nat} {c : Command}
    {ds : List Diagnostic} (h : parse? interior loc element = some (c, ds)) :
    ∀ d ∈ ds, d.code = .unrecognizedCommand := by
  obtain ⟨⟨name, rest⟩, -, hparse⟩ := Option.bind_eq_some_iff.1 h
  dsimp only at hparse
  split at hparse <;> cases hparse
  · simp
  · simp [Diagnostic.make]

theorem Bracketed.code_of_ofSegments (line : List Char) (block : Nat) : ∀ segments : List Segment,
    ∀ d ∈ (ofSegments line block segments).diags, d.code = .unrecognizedCommand
  | [] => by simp [ofSegments, diags]
  | s :: segments => by
    have ih := code_of_ofSegments line block segments
    rw [ofSegments]
    split
    · simp [diags, Segment.namelessDiag, Diagnostic.make]
    · rename_i c ds hcommand
      obtain ⟨⟨parsed, es⟩, hparse, heq⟩ := Option.map_eq_some_iff.1 hcommand
      cases heq
      split
      · rename_i cs es hrest
        rw [hrest] at ih
        exact List.forall_mem_append.2 ⟨Command.code_of_parse? hparse, ih⟩
      · exact ih

/-- Reading a line reports what is no command, and nothing else. -/
theorem Line.code_of_read (text : String) (block limit : Nat) :
    ∀ d ∈ (read text block limit).2, d.code = .unrecognizedCommand := by
  have hline : ∀ d ∈ (Bracketed.ofLine text block).diags, d.code = .unrecognizedCommand := by
    unfold Bracketed.ofLine
    split
    · simp [Bracketed.diags]
    · exact Bracketed.code_of_ofSegments _ _ _
  unfold read
  split
  · simp
  · split
    · rename_i heq
      rwa [heq] at hline
    · rename_i heq
      rwa [heq] at hline
    · simp

namespace Item

theorem code_of_step {limit : Nat} {r : Reading} (b : Block) (i : Nat)
    (h : ∀ d ∈ r.diags, d.code = .unrecognizedCommand) :
    ∀ d ∈ (r.step limit b i).diags, d.code = .unrecognizedCommand := by
  have hblock : ∀ d ∈ (ofBlock? limit i b).2, d.code = .unrecognizedCommand := by
    unfold ofBlock?
    split_ifs
    · simp
    · simp
    · simp
    · exact Line.code_of_read _ _ _
  unfold Reading.step
  split
  · exact h
  · exact List.forall_mem_append.2 ⟨h, hblock⟩

theorem code_of_readFrom {limit : Nat} : ∀ (bs : List Block) (i : Nat) {r : Reading},
    (∀ d ∈ r.diags, d.code = .unrecognizedCommand) →
    ∀ d ∈ (readFrom limit i bs r).diags, d.code = .unrecognizedCommand
  | [], _, _, h => h
  | b :: bs, i, _, h => code_of_readFrom bs (i + 1) (code_of_step b i h)

theorem code_of_ofDocument (limit : Nat) (d : Document) :
    ∀ e ∈ (ofDocument limit d).diags, e.code = .unrecognizedCommand := by
  rw [ofDocument_eq]
  exact code_of_readFrom d.blocks 0 (by simp)

end Item

/-! ### Documents -/

namespace Assembly

variable {P : String → Prop} {a : Assembly} {s : FrontendSettings} {d : Document}

/-- Nobody is cast when a document was only read. -/
theorem wellCast_fresh (P : String → Prop) (limit : Nat) (d : Document) :
    (fresh d.title (Item.ofDocument limit d).diags).WellCast P := by
  have hstrangers : (fresh d.title (Item.ofDocument limit d).diags).strangers = 0 := by
    refine List.countP_eq_zero.2 fun e he => ?_
    simp [Item.code_of_ofDocument limit d e he, Code.tellsStranger]
  constructor
  · simp [cast, fresh]
  · simp [cast, fresh]
  · simp [cast, fresh]
  · rw [hstrangers]
    rfl

/-- **The cast of a document is whom it mentions.** -/
theorem casts_ofDocument (h : ofDocument s d = .ok a)
    (hitems : ∀ it ∈ (Item.ofDocument s.maxNameChars d).items, ∀ name, it.Mentions name → P name) :
    Casts P (fresh d.title (Item.ofDocument s.maxNameChars d).diags) a :=
  ((casts_defaultFunction s d _).trans (casts_declareAll d hitems)).trans (casts_items h hitems)

theorem wellCast_of_ofDocument (h : ofDocument s d = .ok a)
    (hitems : ∀ it ∈ (Item.ofDocument s.maxNameChars d).items, ∀ name, it.Mentions name → P name) :
    a.WellCast P :=
  (casts_ofDocument h hitems).wellCast (wellCast_fresh P s.maxNameChars d)

end Assembly
end Manuscript
