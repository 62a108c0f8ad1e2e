/-
# Places do not matter

The places that commands and lines come from are written into steps, functions and
reports, and nothing is ever decided by them. So what an item does to two assemblies that
are equal up to places and reports (`Assembly.Alike`) is equal up to places and reports,
even if the item stands at different places, as long as it carries the same and is of the
same block (`Item.page`).

Key definitions: `Procedure.unlocated`, `Command.moved`, `ItemContent.unlocated`, `Page`,
`Order`, `Item.page`, `Item.Enabled.order`, `Assembly.unlocated`, `Assembly.Alike`.
Key theorems: `Assembly.Alike.character`, `Assembly.Alike.characterStage`,
`Assembly.Alike.sceneryStage`, `Assembly.Alike.command`, `Assembly.Alike.item`,
`Assembly.Alike.items`.
-/
import Manuscript.Proofs.Assembly.Emitted

namespace Manuscript

/-! ### Without places -/

/-- The step at no place in particular. -/
def Op.unlocated (op : Op) : Op := { op with loc := .ofBlock 0 }

/-- The function and its steps at no place in particular. -/
def Procedure.unlocated (p : Procedure) : Procedure := ⟨p.name, p.ops.map Op.unlocated, .ofBlock 0⟩

namespace Command

/-- The command at another place. -/
def moved (c : Command) (l : Loc) : Command := { c with loc := l }

/-- The command at no place in particular. -/
def unlocated (c : Command) : Command := c.moved (.ofBlock 0)

theorem exists_moved {c c' : Command} (h : c.unlocated = c'.unlocated) : ∃ l, c' = c.moved l := by
  refine ⟨c'.loc, ?_⟩
  have hmoved : c.unlocated.moved c'.loc = c'.unlocated.moved c'.loc := by rw [h]
  exact hmoved.symm

variable (c : Command) (l : Loc)

/-- The bare value of a command does not depend on its place, but what is wrong with it is reported
there. -/
theorem positionalText_moved (arg : String) :
    (∃ name, c.positionalText arg = .ok name ∧ (c.moved l).positionalText arg = .ok name) ∨
      ∃ d e, c.positionalText arg = .error d ∧ (c.moved l).positionalText arg = .error e := by
  rcases c with ⟨name, ⟨positional, keywords⟩, rawArgs, disabled, attachment, loc⟩
  unfold positionalText moved
  dsimp only
  split
  · exact .inr ⟨_, _, rfl, rfl⟩
  · exact .inl ⟨_, rfl, rfl⟩
  · split
    · split
      · exact .inr ⟨_, _, rfl, rfl⟩
      · exact .inl ⟨_, rfl, rfl⟩
    · exact .inr ⟨_, _, rfl, rfl⟩

theorem branchArms_moved :
    (∃ arms, Assembly.branchArms c = .ok arms ∧ Assembly.branchArms (c.moved l) = .ok arms) ∨
      ∃ d e, Assembly.branchArms c = .error d ∧ Assembly.branchArms (c.moved l) = .error e := by
  rcases c with ⟨name, args, rawArgs, disabled, attachment, loc⟩
  unfold Assembly.branchArms moved
  dsimp only
  split
  · exact .inr ⟨_, _, rfl, rfl⟩
  · split
    · exact .inr ⟨_, _, rfl, rfl⟩
    · split
      · exact .inr ⟨_, _, rfl, rfl⟩
      · exact .inl ⟨_, rfl, rfl⟩

end Command

/-- The content with its commands at no place in particular. -/
def ItemContent.unlocated : ItemContent → ItemContent
  | .commands cs => .commands (cs.map Command.unlocated)
  | .say s => .say s
  | .narration => .narration
  | .verbatim => .verbatim
  | .display => .display

/-- Contents that are equal up to places are equal, or command lines that are. -/
theorem ItemContent.unlocated_eq_iff {x y : ItemContent} : x.unlocated = y.unlocated ↔
    x = y ∨ ∃ cs cs', x = .commands cs ∧ y = .commands cs' ∧
      cs.map Command.unlocated = cs'.map Command.unlocated := by
  constructor
  · intro h
    cases x <;> cases y <;> simp_all [unlocated]
  · rintro (rfl | ⟨cs, cs', rfl, rfl, h⟩)
    · rfl
    · rw [unlocated, unlocated, h]

/-- What an item is without its place: its block, and what it carries. -/
structure Page where
  source : Block
  content : ItemContent

/-- What a command that is not disabled is without its place: the media of its block, the command
and its kind. -/
structure Order where
  media : List Media
  command : Command
  kind : CommandKind

namespace Item

/-- The page of an item. -/
def page (d : Document) (it : Item) : Page := ⟨it.source d, it.content.unlocated⟩

/-- The order of a command. -/
def Enabled.order (d : Document) (e : Enabled) : Order :=
  ⟨Assembly.mediaOf d e.block, e.command.unlocated, e.kind⟩

theorem mediaOf_block (d : Document) (it : Item) :
    Assembly.mediaOf d it.block = (it.source d).media := by
  unfold Assembly.mediaOf source
  cases d.blocks[it.block]? <;> rfl

end Item

namespace Assembly

/-- The assembly without places and reports. -/
def unlocated (a : Assembly) : Assembly :=
  { a with procedures := a.procedures.map Procedure.unlocated, diags := [] }

/-- The assemblies are equal up to places and reports. -/
def Alike (a b : Assembly) : Prop := a.unlocated = b.unlocated

theorem unlocated_emit (a : Assembly) (step : Step) (loc : Loc) :
    (a.emit step loc).unlocated = a.unlocated.emit step (.ofBlock 0) := by
  rw [emit_eq, emit_eq]
  simp only [unlocated, withCode]
  rw [map_addOps (g := Op.unlocated) fun p ops => by simp [Procedure.unlocated]]
  rfl

theorem unlocated_openFunction (a : Assembly) (name : String) (loc : Loc) :
    (a.openFunction name loc).unlocated = a.unlocated.openFunction name (.ofBlock 0) := by
  simp [unlocated, openFunction, Procedure.unlocated]

namespace Alike

variable {a b : Assembly} (h : Alike a b)

include h

theorem field {α : Type} (f : Assembly → α) : f a.unlocated = f b.unlocated := congrArg f h

/-- What changes neither places nor reports keeps assemblies alike. -/
theorem update {f : Assembly → Assembly} (hf : ∀ a, (f a).unlocated = f a.unlocated) :
    Alike (f a) (f b) := by
  rw [Alike, hf, hf, h]

theorem characters : a.characters = b.characters := h.field Assembly.characters

theorem scenes : a.scenes = b.scenes := h.field Assembly.scenes

theorem images : a.images = b.images := h.field Assembly.images

theorem current : a.current = b.current := h.field Assembly.current

theorem speakers : a.speakers = b.speakers := h.field Assembly.speakers

theorem imageIds : a.imageIds = b.imageIds := h.field Assembly.imageIds

theorem procedures : a.procedures.map Procedure.unlocated = b.procedures.map Procedure.unlocated :=
  h.field Assembly.procedures

theorem findCharacter? (name : String) : a.findCharacter? name = b.findCharacter? name := by
  rw [Assembly.findCharacter?, Assembly.findCharacter?, h.characters]

/-! ### Steps -/

theorem report (d e : Diagnostic) : Alike (a.report d) (b.report e) := h

theorem withSpeakers (s : Speakers) : Alike { a with speakers := s } { b with speakers := s } :=
  h.update (f := fun a => { a with speakers := s }) fun _ => rfl

theorem setMode (mode : SayMode) : Alike { a with speakers := a.speakers.setMode mode }
    { b with speakers := b.speakers.setMode mode } := by
  rw [h.speakers]
  exact h.withSpeakers _

theorem emit (step : Step) (l l' : Loc) : Alike (a.emit step l) (b.emit step l') := by
  rw [Alike, unlocated_emit, unlocated_emit, h]

theorem addCharacter (c : Character) : (a.addCharacter c).1 = (b.addCharacter c).1 ∧
    Alike (a.addCharacter c).2 (b.addCharacter c).2 :=
  ⟨congrArg List.length h.characters, h.update (f := fun a => (a.addCharacter c).2) fun _ => rfl⟩

theorem modifyCharacter (id : CharacterId) (f : Character → Character) :
    Alike (a.modifyCharacter id f) (b.modifyCharacter id f) :=
  h.update (f := fun a => a.modifyCharacter id f) fun _ => rfl

theorem character (name : String) (code : Code) (l l' : Loc) :
    (a.character name code l).1 = (b.character name code l').1 ∧
      Alike (a.character name code l).2 (b.character name code l').2 := by
  unfold Assembly.character
  rw [h.findCharacter?]
  cases b.findCharacter? name with
  | some id => exact ⟨rfl, h⟩
  | none => exact (h.report _ _).addCharacter _

omit h in
theorem charactersOf (code : Code) (l l' : Loc) : ∀ (names : List String) {a b : Assembly},
    Alike a b → (a.charactersOf code l names).1 = (b.charactersOf code l' names).1 ∧
      Alike (a.charactersOf code l names).2 (b.charactersOf code l' names).2
  | [], _, _, h => ⟨rfl, h⟩
  | name :: rest, a, b, h => by
    obtain ⟨hid, hfirst⟩ := h.character name code l l'
    obtain ⟨hids, hrest⟩ := charactersOf code l l' rest hfirst
    exact ⟨congrArg₂ List.cons hid hids, hrest⟩

omit h in
/-- What each step of two folds keeps alike, the folds keep alike. -/
theorem foldl {β γ : Type} {R : β → γ → Prop} {f : Assembly → β → Assembly}
    {g : Assembly → γ → Assembly}
    (hstep : ∀ {a b x y}, R x y → Alike a b → Alike (f a x) (g b y)) {xs : List β} {ys : List γ}
    (hxs : List.Forall₂ R xs ys) : ∀ {a b : Assembly}, Alike a b →
      Alike (xs.foldl f a) (ys.foldl g b) := by
  induction hxs with
  | nil => exact fun h => h
  | cons hx _ ih => exact fun h => ih (hstep hx h)

/-! ### Declarations -/

theorem addState (id : CharacterId) (state : String) (file : Option String) :
    Alike (a.addState id state file) (b.addState id state file) := by
  unfold Assembly.addState
  cases Text.words state with
  | nil => exact h
  | cons word words => exact h.modifyCharacter id _

theorem addStates (id : CharacterId) (attachment : Option Attachment) :
    Alike (a.addStates id attachment) (b.addStates id attachment) :=
  foldl (R := Eq) (fun hx h => hx ▸ h.addState id _ _) (List.forall₂_refl _) h

variable (c : Command) (l : Loc)

theorem colorOf (k : Keyword) : (a.colorOf c k).1 = (b.colorOf (c.moved l) k).1 ∧
    Alike (a.colorOf c k).2 (b.colorOf (c.moved l) k).2 := by
  have hkeyword : (c.moved l).keyword? k = c.keyword? k := rfl
  unfold Assembly.colorOf
  rw [hkeyword]
  cases c.keyword? k with
  | none => exact ⟨rfl, h⟩
  | some v =>
    dsimp only
    cases v.text? >>= Color.parse? with
    | none => exact ⟨rfl, h.report _ _⟩
    | some color => exact ⟨rfl, h⟩

theorem newCharacter (name : String) :
    (a.newCharacter c name).1 = (b.newCharacter (c.moved l) name).1 ∧
      Alike (a.newCharacter c name).2 (b.newCharacter (c.moved l) name).2 := by
  obtain ⟨hnameColor, hfirst⟩ := h.colorOf c l .nameColor
  obtain ⟨hcolor, hsecond⟩ := hfirst.colorOf c l .color
  unfold Assembly.newCharacter
  dsimp only
  rw [hnameColor, hcolor]
  exact hsecond.addCharacter _

theorem declareCharacter : Alike (a.declareCharacter c) (b.declareCharacter (c.moved l)) := by
  unfold Assembly.declareCharacter
  rcases c.positionalText_moved l "name" with ⟨name, hc, hc'⟩ | ⟨d, e, hc, hc'⟩
  · rw [hc, hc']
    dsimp only
    rw [h.findCharacter?]
    cases b.findCharacter? name with
    | some id => exact (h.report _ _).addStates id _
    | none =>
      obtain ⟨hid, hnew⟩ := h.newCharacter c l name
      dsimp only
      rw [hid]
      exact hnew.addStates _ _
  · rw [hc, hc']
    exact h.report d e

theorem declareSprite (media : List Media) :
    Alike (a.declareSprite c media) (b.declareSprite (c.moved l) media) := by
  have hstate : ((c.moved l).keywordText? .state).or (c.moved l).callText? =
      (c.keywordText? .state).or c.callText? := rfl
  unfold Assembly.declareSprite
  rcases c.positionalText_moved l "character" with ⟨name, hc, hc'⟩ | ⟨d, e, hc, hc'⟩
  · obtain ⟨hid, hchar⟩ := h.character name .characterUnresolved c.loc l
    rw [hc, hc', hstate]
    dsimp only
    have hloc : (c.moved l).loc = l := rfl
    rw [hloc, hid]
    refine Alike.addStates ?_ _ _
    cases (c.keywordText? .state).or c.callText? with
    | some state => exact hchar.addState _ _ _
    | none =>
      have hattachment : (c.moved l).attachment = c.attachment := rfl
      dsimp only
      rw [hattachment]
      split
      · exact hchar.report _ _
      · exact hchar
  · rw [hc, hc']
    exact h.report d e

theorem declareScene (media : List Media) :
    Alike (a.declareScene c media) (b.declareScene (c.moved l) media) := by
  unfold Assembly.declareScene
  rcases c.positionalText_moved l "name" with ⟨name, hc, hc'⟩ | ⟨d, e, hc, hc'⟩
  · rw [hc, hc']
    dsimp only
    rw [h.scenes]
    split
    · exact h.report _ _
    · exact h.update (f := fun a => { a with scenes := b.scenes ++ [_] }) fun _ => rfl
  · rw [hc, hc']
    exact h.report d e

/-! ### Commands -/

theorem functionCommand : Alike (a.functionCommand c) (b.functionCommand (c.moved l)) := by
  have hany : ∀ name, a.procedures.any (·.name == name) = b.procedures.any (·.name == name) := by
    intro name
    have hunlocated := congrArg (List.any · (·.name == name)) h.procedures
    simpa [List.any_map, Function.comp_def, Procedure.unlocated] using hunlocated
  unfold Assembly.functionCommand
  rcases c.positionalText_moved l "name" with ⟨name, hc, hc'⟩ | ⟨d, e, hc, hc'⟩
  · rw [hc, hc']
    dsimp only
    rw [hany]
    split
    · exact h.update (f := fun a => { a with current := none }) fun _ => rfl
    · rw [Alike, unlocated_openFunction, unlocated_openFunction, h]
  · rw [hc, hc']
    exact h.report d e

theorem sayModeCommand : Alike (a.sayModeCommand c) (b.sayModeCommand (c.moved l)) := by
  have hspeaker : (c.moved l).keywordText? .speaker = c.keywordText? .speaker := rfl
  have hnames : rotationNames (c.moved l) = rotationNames c := rfl
  unfold Assembly.sayModeCommand
  rcases c.positionalText_moved l "mode" with ⟨mode, hc, hc'⟩ | ⟨d, e, hc, hc'⟩
  · rw [hc, hc']
    dsimp only
    split
    case h_1 | h_2 => exact h.setMode .standard
    case h_3 | h_4 =>
      rw [hspeaker]
      cases c.keywordText? .speaker with
      | none => exact h.report _ _
      | some name =>
        obtain ⟨hid, hchar⟩ := h.character (Text.trimmed name) .characterUnresolved c.loc l
        dsimp only
        rw [hid]
        exact hchar.setMode _
    case h_5 | h_6 =>
      rw [hnames]
      cases rotationNames c with
      | nil => exact h.report _ _
      | cons name rest =>
        obtain ⟨hids, hchars⟩ := charactersOf .characterUnresolved c.loc l (name :: rest) h
        dsimp only
        rw [hids]
        exact hchars.setMode _
    case h_7 => exact h.report _ _
  · rw [hc, hc']
    exact h.report d e

theorem emitOr {β : Type} {x y : Except Diagnostic β} (step : β → Step)
    (hxy : (∃ v, x = .ok v ∧ y = .ok v) ∨ ∃ d e, x = .error d ∧ y = .error e) :
    Alike (a.emitOr c (x.map step)) (b.emitOr (c.moved l) (y.map step)) := by
  rcases hxy with ⟨v, rfl, rfl⟩ | ⟨d, e, rfl, rfl⟩
  · exact h.emit (step v) c.loc l
  · exact h.report d e

theorem characterStep (step : CharacterId → Action) :
    Alike (a.characterStep c step) (b.characterStep (c.moved l) step) := by
  unfold Assembly.characterStep
  rcases c.positionalText_moved l "character" with ⟨name, hc, hc'⟩ | ⟨d, e, hc, hc'⟩
  · obtain ⟨hid, hchar⟩ := h.character name .characterUnresolved c.loc l
    rw [hc, hc']
    dsimp only
    rw [hid]
    exact hchar.emit _ _ _
  · rw [hc, hc']
    exact h.report d e

theorem setStateCommand : Alike (a.setStateCommand c) (b.setStateCommand (c.moved l)) := by
  have htags : (c.moved l).stateTags = c.stateTags := rfl
  unfold Assembly.setStateCommand
  rcases c.positionalText_moved l "character" with ⟨name, hc, hc'⟩ | ⟨d, e, hc, hc'⟩
  · rw [hc, hc', htags]
    cases c.stateTags with
    | nil => exact h.report _ _
    | cons tag tags => exact h.characterStep c l _
  · rw [hc, hc']
    exact h.report d e

theorem channelOf : (a.channelOf c).1 = (b.channelOf (c.moved l)).1 ∧
    Alike (a.channelOf c).2 (b.channelOf (c.moved l)).2 := by
  have hkeyword : (c.moved l).keyword? .channel = c.keyword? .channel := rfl
  unfold Assembly.channelOf
  rw [hkeyword]
  cases c.keyword? .channel with
  | none => exact ⟨rfl, h⟩
  | some v =>
    dsimp only
    cases v.text? >>= Channel.parse? with
    | none => exact ⟨rfl, h.report _ _⟩
    | some channel => exact ⟨rfl, h⟩

theorem playCommand (media : List Media) :
    Alike (a.playCommand c media) (b.playCommand (c.moved l) media) := by
  have hpositional : (c.moved l).args.positional = c.args.positional := rfl
  unfold Assembly.playCommand
  rw [hpositional]
  cases c.args.positional with
  | none => exact h.report _ _
  | some v =>
    dsimp only
    cases v.asset? media with
    | none => exact h.report _ _
    | some asset =>
      obtain ⟨hchannel, hrest⟩ := h.channelOf c l
      dsimp only
      rw [hchannel]
      exact hrest.emit _ _ _

theorem bodyCommand (kind : CommandKind) (media : List Media) :
    Alike (a.bodyCommand c kind media) (b.bodyCommand (c.moved l) kind media) := by
  cases kind with
  | label => exact h.emitOr c l _ (c.positionalText_moved l _)
  | jump => exact h.emitOr c l _ (c.positionalText_moved l _)
  | call => exact h.emitOr c l _ (c.positionalText_moved l _)
  | ret => exact h.emit _ _ _
  | branch => exact h.emitOr c l _ (c.branchArms_moved l)
  | switchScene => exact h.emitOr c l _ (c.positionalText_moved l _)
  | showCharacter => exact h.characterStep c l _
  | hideCharacter => exact h.characterStep c l _
  | setState => exact h.setStateCommand c l
  | play => exact h.playCommand c l media
  | comment => exact h.emit _ _ _
  | _ => exact h

/-- **A command does the same at every place.** -/
theorem command (media : List Media) :
    Alike (a.command c media) (b.command (c.moved l) media) := by
  have hname : (c.moved l).name = c.name := rfl
  unfold Assembly.command
  rw [hname, h.current]
  split
  · exact h.report _ _
  · exact h.functionCommand c l
  · exact h.sayModeCommand c l
  · split
    · exact h
    · exact h.bodyCommand c l _ media

/-! ### Lines -/

theorem spoken (s : SayLine) (i j : Nat) : (a.spoken s i).1 = (b.spoken s j).1 ∧
    Alike (a.spoken s i).2 (b.spoken s j).2 := by
  unfold Assembly.spoken
  cases s.speakerText with
  | none =>
    dsimp only
    rw [h.speakers]
    exact ⟨rfl, h.withSpeakers _⟩
  | some name =>
    obtain ⟨hid, hchar⟩ := h.character name .sayerImplicit (.ofBlock i) (.ofBlock j)
    dsimp only
    rw [hid, hchar.speakers]
    exact ⟨rfl, hchar.withSpeakers _⟩

theorem displayImage (name path : String) (i j : Nat) :
    Alike (a.displayImage name path i) (b.displayImage name path j) := by
  unfold Assembly.displayImage
  rw [h.imageIds]
  refine emit ?_ _ _ _
  exact h.update (f := fun a => { a with imageIds := _, images := a.images ++ [_] }) fun _ => rfl

theorem displayNumbered (path : String) (i j : Nat) :
    Alike (a.displayImage s!"img{a.images.length + 1}" path i)
      (b.displayImage s!"img{b.images.length + 1}" path j) := by
  rw [h.images]
  exact h.displayImage _ path i j

theorem display (source : Block) (i j : Nat) : Alike (a.display source i) (b.display source j) := by
  unfold Assembly.display
  split
  · split
    · exact h.displayNumbered _ i j
    · exact h.displayImage _ _ i j
  · exact foldl (R := Eq) (fun hx h => hx ▸ h.displayNumbered _ i j) (List.forall₂_refl _) h

/-! ### Items -/

end Alike

variable {d e : Document} {it it' : Item} {a b a' b' : Assembly}

/-- Lists that are equal under two functions have equal elements. -/
theorem forall₂_of_map_eq {α β γ : Type} {f : α → γ} {g : β → γ} {xs : List α} {ys : List β}
    (h : xs.map f = ys.map g) : List.Forall₂ (fun x y => f x = g y) xs ys := by
  rwa [← List.forall₂_eq_eq_eq, List.forall₂_map_left_iff, List.forall₂_map_right_iff] at h

theorem Alike.commands (media : List Media) {cs cs' : List Command} (h : Alike a b)
    (hcs : cs.map Command.unlocated = cs'.map Command.unlocated) :
    Alike ((cs.filter (!·.disabled)).foldl (fun a c => a.command c media) a)
      ((cs'.filter (!·.disabled)).foldl (fun a c => a.command c media) b) := by
  have hfilter : (cs.filter (!·.disabled)).map Command.unlocated =
      (cs'.filter (!·.disabled)).map Command.unlocated := by
    have hmap := congrArg (List.filter (!·.disabled)) hcs
    rwa [List.filter_map, List.filter_map] at hmap
  refine Alike.foldl (fun {a b x y} hxy h => ?_) (forall₂_of_map_eq hfilter) h
  obtain ⟨l, rfl⟩ := Command.exists_moved hxy
  exact h.command x l media

/-- A line does the same at every place. -/
theorem Alike.line (h : Alike a b) (hsource : it.source d = it'.source e)
    (hcontent : it.content = it'.content) (hcommands : it.isCommands = false)
    (hanone : ¬ a.current.isNone = true) (hbnone : ¬ b.current.isNone = true)
    (ha : Assembly.item d a it = .ok a') (hb : Assembly.item e b it' = .ok b') : Alike a' b' := by
  rcases it with ⟨i, content⟩
  rcases it' with ⟨j, content'⟩
  cases hcontent
  unfold Item.source at hsource
  unfold Assembly.item at ha hb
  dsimp only at ha hb hsource
  rw [← hsource] at hb
  generalize d.blocks[i]?.getD .empty = source at ha hb
  cases content with
  | commands cs => simp [Item.isCommands] at hcommands
  | say s =>
    obtain ⟨hspeaker, hspoken⟩ := h.spoken s i j
    dsimp only at ha hb
    rw [if_neg hanone, say_eq, bind_eq_ok] at ha
    rw [if_neg hbnone, say_eq, bind_eq_ok] at hb
    obtain ⟨content, hcontent, ⟨⟩⟩ := ha
    obtain ⟨content', hcontent', ⟨⟩⟩ := hb
    rw [hcontent] at hcontent'
    cases hcontent'
    rw [hspeaker]
    exact hspoken.emit _ _ _
  | narration =>
    dsimp only at ha hb
    rw [if_neg hanone, narrate_eq, bind_eq_ok] at ha
    rw [if_neg hbnone, narrate_eq, bind_eq_ok] at hb
    obtain ⟨content, hcontent, ⟨⟩⟩ := ha
    obtain ⟨content', hcontent', ⟨⟩⟩ := hb
    rw [hcontent] at hcontent'
    cases hcontent'
    rw [h.speakers]
    exact h.emit _ _ _
  | verbatim =>
    dsimp only at ha hb
    rw [if_neg hanone] at ha
    rw [if_neg hbnone] at hb
    cases ha
    cases hb
    exact h.emit _ _ _
  | display =>
    dsimp only at ha hb
    rw [if_neg hanone] at ha
    rw [if_neg hbnone] at hb
    cases ha
    cases hb
    exact h.display source i j

/-- **An item does the same at every place.** -/
theorem Alike.item (h : Alike a b) (hpage : it.page d = it'.page e)
    (ha : Assembly.item d a it = .ok a') (hb : Assembly.item e b it' = .ok b') : Alike a' b' := by
  obtain ⟨hsource, hcontent⟩ := Page.mk.inj hpage
  by_cases hcommands : it.isCommands = true
  · obtain ⟨cs, hcs⟩ := Item.exists_commands hcommands
    obtain ⟨cs', hcs', hmap⟩ : ∃ cs', it'.content = .commands cs' ∧
        cs.map Command.unlocated = cs'.map Command.unlocated := by
      rcases ItemContent.unlocated_eq_iff.1 hcontent with heq | ⟨_, cs', hx, hy, hmap⟩
      · exact ⟨cs, heq ▸ hcs, rfl⟩
      · rw [hcs] at hx
        cases hx
        exact ⟨cs', hy, hmap⟩
    rw [item_of_commands hcs] at ha
    rw [item_of_commands hcs'] at hb
    cases ha
    cases hb
    rw [hsource]
    exact h.commands _ hmap
  · rw [Bool.not_eq_true] at hcommands
    have heq : it.content = it'.content := by
      rcases ItemContent.unlocated_eq_iff.1 hcontent with heq | ⟨cs, cs', hx, -⟩
      · exact heq
      · simp [Item.isCommands, hx] at hcommands
    have hcommands' : it'.isCommands = false := by
      rw [← hcommands, Item.isCommands, Item.isCommands, heq]
    by_cases hnone : b.current = none
    · -- no function takes the line, in neither of the two
      rw [item_of_current_none hcommands (h.current.trans hnone)] at ha
      rw [item_of_current_none hcommands' hnone] at hb
      cases ha
      cases hb
      exact h
    · have hbnone : ¬ b.current.isNone = true := by simpa using hnone
      exact h.line hsource heq hcommands (h.current ▸ hbnone) hbnone ha hb

theorem Alike.items {items items' : List Item}
    (hpages : List.Forall₂ (fun it it' => it.page d = it'.page e) items items') :
    ∀ {a b : Assembly}, Alike a b → items.foldlM (Assembly.item d) a = .ok a' →
      items'.foldlM (Assembly.item e) b = .ok b' → Alike a' b' := by
  induction hpages with
  | nil =>
    intro a b h ha hb
    cases ha
    cases hb
    exact h
  | cons hpage _ ih =>
    intro a b h ha hb
    rw [List.foldlM_cons, bind_eq_ok] at ha hb
    obtain ⟨a₁, hfirst, ha⟩ := ha
    obtain ⟨b₁, hfirst', hb⟩ := hb
    exact ih (h.item hpage hfirst hfirst') ha hb

theorem Alike.characterStage (h : Alike a b) {x y : Item.Enabled} (horder : x.order d = y.order e) :
    Alike (a.characterStage x) (b.characterStage y) := by
  obtain ⟨-, hcommand, hkind⟩ := Order.mk.inj horder
  obtain ⟨l, hmoved⟩ := Command.exists_moved hcommand
  unfold Assembly.characterStage
  rw [hmoved, ← hkind]
  split
  · exact h.declareCharacter x.command l
  · exact h

theorem Alike.sceneryStage (h : Alike a b) {x y : Item.Enabled} (horder : x.order d = y.order e) :
    Alike (Assembly.sceneryStage d a x) (Assembly.sceneryStage e b y) := by
  obtain ⟨hmedia, hcommand, hkind⟩ := Order.mk.inj horder
  obtain ⟨l, hmoved⟩ := Command.exists_moved hcommand
  unfold Assembly.sceneryStage
  rw [hmoved, ← hkind, ← hmedia]
  split
  · exact h.declareSprite x.command l _
  · exact h.declareScene x.command l _
  · exact h

end Assembly
end Manuscript
