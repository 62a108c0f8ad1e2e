/-
# What a command emits

The functions of an assembly are written and never read: apart from the names of
the functions, nothing that a command or a line does depends on the steps that were
emitted before. So an assembly is its code, the functions and the one that takes
steps, and the rest. A command that opens no function changes the rest in a way
that does not depend on the code, and adds the same steps to any code
(`Assembly.Emits`). A line adds the steps that its block gives (`Item.Gives`).

Key definitions: `Assembly.withCode`, `Assembly.addOps`, `Step.Silent`, `Item.Gives`,
`Assembly.Emits`, `Assembly.Adds`, `Assembly.spoken`.
Key theorems: `Assembly.character_withCode`, `Assembly.declareAll_withCode`,
`Assembly.emitsSilently_bodyCommand`, `Assembly.exists_command_withCode`,
`Assembly.adds_of_item`, `Assembly.item_cases`.
-/
import Manuscript.Assembly.Code
import Manuscript.Proofs.Program.InRange

namespace Manuscript

/-- The step is no spoken line. -/
def Step.Silent : Step → Prop
  | .act (.say ..) => False
  | _ => True

/-- The step displays an image, and comes from the block. -/
def Op.Displays (op : Op) (block : Nat) : Prop :=
  op.loc = .ofBlock block ∧ ∃ image, op.step = .act (.showImage image)

namespace Item

/-- The item is a command line. -/
def isCommands (it : Item) : Bool :=
  match it.content with
  | .commands _ => true
  | _ => false

theorem exists_commands {it : Item} (h : it.isCommands = true) :
    ∃ cs, it.content = .commands cs := by
  rcases it with ⟨block, content⟩
  cases content with
  | commands cs => exact ⟨cs, rfl⟩
  | _ => cases h

/-- The block of an item. -/
def source (d : Document) (it : Item) : Block := d.blocks[it.block]?.getD .empty

/-- The steps that a block gives: a line with its content cut out of the block, the text of the
block as it is, or one step for each of its images. -/
inductive Gives (d : Document) : Item → List Op → Prop
  | say {block : Nat} {s : SayLine} {content : StyledText} (speaker : Option CharacterId)
      (h : Assembly.contentOf (source d ⟨block, .say s⟩).text s.content = .ok content) :
      Gives d ⟨block, .say s⟩ [⟨.act (.say speaker s.statusTags content), .ofBlock block⟩]
  | narration {block : Nat} {content : StyledText} (speaker : Option CharacterId)
      (h : (source d ⟨block, .narration⟩).text.trim = .ok content) :
      Gives d ⟨block, .narration⟩ [⟨.act (.say speaker [] content), .ofBlock block⟩]
  | verbatim {block : Nat} : Gives d ⟨block, .verbatim⟩
      [⟨.act (.verbatim (source d ⟨block, .verbatim⟩).plain), .ofBlock block⟩]
  | display {block : Nat} {ops : List Op}
      (hlength : ops.length = (source d ⟨block, .display⟩).imagePaths.length)
      (hops : ∀ op ∈ ops, op.Displays block) : Gives d ⟨block, .display⟩ ops

end Item

namespace Assembly

/-- The assembly with other code. -/
def withCode (a : Assembly) (ps : List Procedure) (current : Option FunctionId) : Assembly :=
  { a with procedures := ps, current := current }

/-- The functions with steps added to the one that takes them, if there is one. -/
def addOps (current : Option FunctionId) (ops : List Op) (ps : List Procedure) : List Procedure :=
  match current with
  | some i => ps.modify i fun p => { p with ops := p.ops ++ ops }
  | none => ps

@[simp] theorem addOps_nil (current : Option FunctionId) (ps : List Procedure) :
    addOps current [] ps = ps := by
  cases current with
  | none => rfl
  | some i =>
    have hid : (fun p : Procedure => { p with ops := p.ops ++ [] }) = id := by
      funext p
      simp
    rw [addOps, hid, List.modify_id]

theorem addOps_addOps (current : Option FunctionId) (new more : List Op) (ps : List Procedure) :
    addOps current more (addOps current new ps) = addOps current (new ++ more) ps := by
  cases current with
  | none => rfl
  | some i =>
    simp only [addOps, List.modify_modify_eq]
    congr 1
    funext p
    simp

/-- A function of procedures that goes through their steps goes through the steps that are added. -/
theorem map_addOps {f : Procedure → Procedure} {g : Op → Op}
    (h : ∀ p ops, f { p with ops := p.ops ++ ops } = { f p with ops := (f p).ops ++ ops.map g })
    (current : Option FunctionId) (ops : List Op) (ps : List Procedure) :
    (addOps current ops ps).map f = addOps current (ops.map g) (ps.map f) := by
  cases current with
  | none => rfl
  | some i =>
    refine List.ext_getElem? fun j => ?_
    simp only [addOps, List.getElem?_map, List.getElem?_modify]
    cases ps[j]? with
    | none => rfl
    | some p => by_cases hij : i = j <;> simp [hij, h]

variable (a : Assembly) (ps : List Procedure) (cur : Option FunctionId)

@[simp] theorem withCode_self : a.withCode a.procedures a.current = a := rfl

@[simp] theorem withCode_withCode (ps' : List Procedure) (cur' : Option FunctionId) :
    (a.withCode ps cur).withCode ps' cur' = a.withCode ps' cur' := rfl

@[simp] theorem procedures_withCode : (a.withCode ps cur).procedures = ps := rfl

@[simp] theorem current_withCode : (a.withCode ps cur).current = cur := rfl

/-- A step goes to the code. -/
@[simp] theorem emit_withCode (step : Step) (loc : Loc) :
    (a.withCode ps cur).emit step loc = a.withCode (addOps cur [⟨step, loc⟩] ps) cur := by
  cases cur <;> rfl

theorem emit_eq (step : Step) (loc : Loc) :
    a.emit step loc = a.withCode (addOps a.current [⟨step, loc⟩] a.procedures) a.current :=
  a.emit_withCode a.procedures a.current step loc

/-! ### The rest does not depend on the code -/

@[simp] theorem report_withCode (d : Diagnostic) :
    (a.withCode ps cur).report d = (a.report d).withCode ps cur := rfl

@[simp] theorem findCharacter?_withCode (name : String) :
    (a.withCode ps cur).findCharacter? name = a.findCharacter? name := rfl

@[simp] theorem addCharacter_withCode (c : Character) : (a.withCode ps cur).addCharacter c =
    ((a.addCharacter c).1, (a.addCharacter c).2.withCode ps cur) := rfl

@[simp] theorem character_withCode (name : String) (code : Code) (loc : Loc) :
    (a.withCode ps cur).character name code loc =
      ((a.character name code loc).1, (a.character name code loc).2.withCode ps cur) := by
  unfold character
  rw [findCharacter?_withCode]
  cases a.findCharacter? name <;> rfl

theorem charactersOf_withCode (code : Code) (loc : Loc) : ∀ (names : List String) (a : Assembly),
    (a.withCode ps cur).charactersOf code loc names =
      ((a.charactersOf code loc names).1, (a.charactersOf code loc names).2.withCode ps cur)
  | [], _ => rfl
  | name :: rest, a => by
    simp only [charactersOf, character_withCode, charactersOf_withCode code loc rest]

@[simp] theorem addState_withCode (id : CharacterId) (state : String) (file : Option String) :
    (a.withCode ps cur).addState id state file = (a.addState id state file).withCode ps cur := by
  unfold addState
  split <;> rfl

/-- What each step of a fold does to the rest, the fold does. -/
theorem foldl_withCode {β : Type} {f : Assembly → β → Assembly}
    (h : ∀ a x, f (a.withCode ps cur) x = (f a x).withCode ps cur) : ∀ (xs : List β) (a : Assembly),
    xs.foldl f (a.withCode ps cur) = (xs.foldl f a).withCode ps cur
  | [], _ => rfl
  | x :: xs, a => by rw [List.foldl_cons, h, foldl_withCode h xs, List.foldl_cons]

@[simp] theorem addStates_withCode (id : CharacterId) (attachment : Option Attachment) :
    (a.withCode ps cur).addStates id attachment = (a.addStates id attachment).withCode ps cur :=
  foldl_withCode ps cur (fun a x => addState_withCode a ps cur id x.1 _) _ a

@[simp] theorem colorOf_withCode (c : Command) (k : Keyword) :
    (a.withCode ps cur).colorOf c k = ((a.colorOf c k).1, (a.colorOf c k).2.withCode ps cur) := by
  unfold colorOf
  split
  · rfl
  · split <;> rfl

@[simp] theorem newCharacter_withCode (c : Command) (name : String) :
    (a.withCode ps cur).newCharacter c name =
      ((a.newCharacter c name).1, (a.newCharacter c name).2.withCode ps cur) := by
  simp [newCharacter]

theorem declareCharacter_withCode (c : Command) :
    (a.withCode ps cur).declareCharacter c = (a.declareCharacter c).withCode ps cur := by
  unfold declareCharacter
  cases c.positionalText "name" with
  | error d => rfl
  | ok name =>
    dsimp only
    rw [findCharacter?_withCode]
    cases a.findCharacter? name with
    | some id =>
      dsimp only
      rw [report_withCode, addStates_withCode]
    | none =>
      dsimp only
      rw [newCharacter_withCode, addStates_withCode]

theorem declareSprite_withCode (c : Command) (media : List Media) :
    (a.withCode ps cur).declareSprite c media = (a.declareSprite c media).withCode ps cur := by
  unfold declareSprite
  cases c.positionalText "character" with
  | error d => rfl
  | ok name =>
    dsimp only
    rw [character_withCode]
    dsimp only
    split
    · rw [addState_withCode, addStates_withCode]
    · split
      · rw [report_withCode, addStates_withCode]
      · rw [addStates_withCode]

theorem declareScene_withCode (c : Command) (media : List Media) :
    (a.withCode ps cur).declareScene c media = (a.declareScene c media).withCode ps cur := by
  unfold declareScene
  cases c.positionalText "name" with
  | error d => rfl
  | ok name =>
    show (if a.scenes.any (·.name == name) then _ else _) = withCode (if _ then _ else _) ps cur
    split <;> rfl

/-- **Declarations do not depend on the code**, and leave it as it is. -/
theorem declareAll_withCode (d : Document) (items : List Item) :
    declareAll d items (a.withCode ps cur) = (declareAll d items a).withCode ps cur := by
  have hcharacter : ∀ (a : Assembly) (e : Item.Enabled),
      (a.withCode ps cur).characterStage e = (a.characterStage e).withCode ps cur := by
    intro a e
    unfold characterStage
    split
    · exact declareCharacter_withCode ..
    · rfl
  have hscenery : ∀ (a : Assembly) (e : Item.Enabled),
      sceneryStage d (a.withCode ps cur) e = (sceneryStage d a e).withCode ps cur := by
    intro a e
    unfold sceneryStage
    split
    · exact declareSprite_withCode ..
    · exact declareScene_withCode ..
    · rfl
  unfold declareAll
  dsimp only
  rw [foldl_withCode ps cur hcharacter, foldl_withCode ps cur hscenery]

theorem channelOf_withCode (c : Command) :
    (a.withCode ps cur).channelOf c = ((a.channelOf c).1, (a.channelOf c).2.withCode ps cur) := by
  unfold channelOf
  split
  · rfl
  · split <;> rfl

theorem sayModeCommand_withCode (c : Command) :
    (a.withCode ps cur).sayModeCommand c = (a.sayModeCommand c).withCode ps cur := by
  unfold sayModeCommand
  dsimp only
  cases c.positionalText "mode" with
  | error d => rfl
  | ok mode =>
    dsimp only
    split
    case h_1 | h_2 => rfl
    case h_3 | h_4 =>
      cases c.keywordText? .speaker with
      | none => rfl
      | some name =>
        dsimp only
        rw [character_withCode]
        rfl
    case h_5 | h_6 =>
      cases rotationNames c with
      | nil => rfl
      | cons name rest =>
        dsimp only
        rw [charactersOf_withCode]
        rfl
    case h_7 => rfl

/-! ### Commands -/

variable {a}

/-- The operation adds the steps to any code and does nothing else to the code, nor depends on
it. -/
def Emits (f : Assembly → Assembly) (a : Assembly) (ops : List Op) : Prop :=
  ∀ ps cur, f (a.withCode ps cur) = (f a).withCode (addOps cur ops ps) cur

/-- The operation adds steps that are no spoken lines. -/
def EmitsSilently (f : Assembly → Assembly) (a : Assembly) : Prop := ∃ ops : List Op,
  (∀ op ∈ ops, op.step.Silent) ∧ Emits f a ops

theorem Emits.comp {f g : Assembly → Assembly} {new more : List Op} (hf : Emits f a new)
    (hg : Emits g (f a) more) : Emits (g ∘ f) a (new ++ more) := by
  intro ps cur
  show g (f (a.withCode ps cur)) = (g (f a)).withCode _ cur
  rw [hf, hg, addOps_addOps]

theorem emitsSilently_of_withCode {f : Assembly → Assembly}
    (h : ∀ ps cur, f (a.withCode ps cur) = (f a).withCode ps cur) : EmitsSilently f a :=
  ⟨[], by simp, fun ps cur => by rw [h, addOps_nil]⟩

/-- An operation that ends with a step. -/
theorem emits_of_emit {f g : Assembly → Assembly} {step : Step} {loc : Loc}
    (hf : ∀ ps cur, f (a.withCode ps cur) = ((g a).withCode ps cur).emit step loc) :
    Emits f a [⟨step, loc⟩] := by
  have ha : f a = (g a).withCode (addOps a.current [⟨step, loc⟩] a.procedures) a.current := by
    rw [← emit_withCode, ← hf, withCode_self]
  intro ps cur
  rw [hf, ha, emit_withCode, withCode_withCode]

theorem emitsSilently_of_emit {f g : Assembly → Assembly} (step : Step) (loc : Loc)
    (hf : ∀ ps cur, f (a.withCode ps cur) = ((g a).withCode ps cur).emit step loc)
    (hsilent : step.Silent) : EmitsSilently f a :=
  ⟨[⟨step, loc⟩], by simpa using hsilent, emits_of_emit hf⟩

theorem emitsSilently_emitOr (c : Command) {β : Type} (x : Except Diagnostic β) {step : β → Step}
    (h : ∀ y, (step y).Silent) : EmitsSilently (emitOr · c (x.map step)) a := by
  cases x with
  | ok y => exact emitsSilently_of_emit (g := id) (step y) c.loc (fun ps cur => rfl) (h y)
  | error d => exact emitsSilently_of_withCode fun ps cur => rfl

theorem emitsSilently_characterStep (c : Command) (step : CharacterId → Action)
    (h : ∀ id, (Step.act (step id)).Silent) : EmitsSilently (characterStep · c step) a := by
  unfold characterStep
  cases c.positionalText "character" with
  | error d => exact emitsSilently_of_withCode fun ps cur => rfl
  | ok name =>
    refine emitsSilently_of_emit (g := fun a => (a.character name .characterUnresolved c.loc).2)
      _ c.loc (fun ps cur => ?_) (h (a.character name .characterUnresolved c.loc).1)
    simp only [character_withCode]

theorem emitsSilently_setStateCommand (c : Command) : EmitsSilently (setStateCommand · c) a := by
  unfold setStateCommand
  cases c.positionalText "character" with
  | error d => exact emitsSilently_of_withCode fun ps cur => rfl
  | ok name =>
    cases c.stateTags with
    | nil => exact emitsSilently_of_withCode fun ps cur => rfl
    | cons tag tags => exact emitsSilently_characterStep c (.setState · (tag :: tags)) fun _ => trivial

theorem emitsSilently_playCommand (c : Command) (media : List Media) : EmitsSilently (playCommand · c media) a := by
  unfold playCommand
  cases c.args.positional with
  | none => exact emitsSilently_of_withCode fun ps cur => rfl
  | some v =>
    dsimp only
    cases v.asset? media with
    | none => exact emitsSilently_of_withCode fun ps cur => rfl
    | some asset =>
      refine emitsSilently_of_emit (g := fun a => (a.channelOf c).2)
        (.act (.play (a.channelOf c).1 asset)) c.loc (fun ps cur => ?_) trivial
      simp only [channelOf_withCode]

theorem emitsSilently_bodyCommand (c : Command) (kind : CommandKind) (media : List Media) :
    EmitsSilently (bodyCommand · c kind media) a := by
  cases kind with
  | label => exact emitsSilently_emitOr c _ fun _ => trivial
  | jump => exact emitsSilently_emitOr c _ fun _ => trivial
  | call => exact emitsSilently_emitOr c _ fun _ => trivial
  | ret => exact emitsSilently_of_emit (g := id) .ret c.loc (fun ps cur => rfl) trivial
  | branch => exact emitsSilently_emitOr c _ fun _ => trivial
  | switchScene => exact emitsSilently_emitOr c _ fun _ => trivial
  | showCharacter =>
    exact emitsSilently_characterStep c (.showCharacter · c.stateTags) fun _ => trivial
  | hideCharacter => exact emitsSilently_characterStep c .hideCharacter fun _ => trivial
  | setState => exact emitsSilently_setStateCommand c
  | play => exact emitsSilently_playCommand c media
  | comment =>
    exact emitsSilently_of_emit (g := id) (.act (.comment (Text.unquoted c.rawArgs))) c.loc
      (fun ps cur => rfl) trivial
  | _ => exact emitsSilently_of_withCode fun ps cur => rfl

theorem command_of_function {c : Command} (h : CommandKind.lookup? c.name = some .function)
    (a : Assembly) (media : List Media) : a.command c media = a.functionCommand c := by
  unfold command
  rw [h]

/-- **A command that opens no function** does the same with any code that takes steps or with any
that does not, and adds the same steps to it. -/
theorem exists_command_withCode {c : Command} (hkind : CommandKind.lookup? c.name ≠ some .function)
    (media : List Media) : ∃ ops : List Op, (∀ op ∈ ops, op.step.Silent) ∧
      ∀ ps cur, cur.isNone = a.current.isNone →
        (a.withCode ps cur).command c media =
          (a.command c media).withCode (addOps cur ops ps) cur := by
  unfold command
  split
  · exact ⟨[], by simp, fun ps cur _ => by simp⟩
  · rename_i hfunction
    exact absurd hfunction hkind
  · exact ⟨[], by simp, fun ps cur _ => by rw [sayModeCommand_withCode, addOps_nil]⟩
  · rename_i kind _ _ _
    by_cases hidle : a.current.isNone = true
    · refine ⟨[], by simp, fun ps cur hcur => ?_⟩
      rw [current_withCode, hcur, if_pos hidle, if_pos hidle, addOps_nil]
    · obtain ⟨ops, hsilent, hops⟩ := emitsSilently_bodyCommand (a := a) c kind media
      refine ⟨ops, hsilent, fun ps cur hcur => ?_⟩
      rw [current_withCode, hcur, if_neg hidle, if_neg hidle]
      exact hops ps cur

/-! ### Lines -/

/-- Who speaks a line, and the assembly once it is known. -/
def spoken (a : Assembly) (s : SayLine) (i : Nat) : Option CharacterId × Assembly :=
  let (named, a) := match s.speakerText with
    | some name => let (id, a) := a.character name .sayerImplicit (.ofBlock i); (some id, a)
    | none => (none, a)
  let (speaker, speakers) := a.speakers.say named s.contentQuoted
  (speaker, { a with speakers })

/-- A spoken line is its content, cut out of the block, said by the one who speaks. -/
theorem say_eq (a : Assembly) (s : SayLine) (b : Block) (i : Nat) :
    a.say s b i = contentOf b.text s.content >>= fun content => .ok
      ((a.spoken s i).2.emit (.act (.say (a.spoken s i).1 s.statusTags content)) (.ofBlock i)) := by
  unfold say spoken
  cases s.speakerText <;> rfl

theorem spoken_withCode (s : SayLine) (i : Nat) : (a.withCode ps cur).spoken s i =
    ((a.spoken s i).1, (a.spoken s i).2.withCode ps cur) := by
  unfold spoken
  cases s.speakerText with
  | none => rfl
  | some name =>
    dsimp only
    rw [character_withCode]
    rfl

/-- A narrated line is the text of the block. -/
theorem narrate_eq (a : Assembly) (b : Block) (i : Nat) :
    a.narrate b i = b.text.trim >>= fun content =>
      .ok (a.emit (.act (.say a.speakers.narration [] content)) (.ofBlock i)) := rfl

/-! ### Images -/

section Display

variable (name : Assembly → String) (hname : ∀ a ps cur, name (a.withCode ps cur) = name a)

include hname

theorem exists_emits_displayImage (a : Assembly) (path : String) (i : Nat) :
    ∃ op, op.Displays i ∧ Emits (fun a => a.displayImage (name a) path i) a [op] := by
  refine ⟨⟨.act (.showImage (a.imageIds.claim (name a)).1), .ofBlock i⟩, ⟨rfl, _, rfl⟩, ?_⟩
  refine emits_of_emit (g := fun a =>
    { a with
      imageIds := (a.imageIds.claim (name a)).2
      images := a.images ++ [⟨(a.imageIds.claim (name a)).1, path⟩] }) fun ps cur => ?_
  rw [hname]
  rfl

theorem exists_emits_displayImages (i : Nat) : ∀ (paths : List String) (a : Assembly),
    ∃ ops : List Op, ops.length = paths.length ∧ (∀ op ∈ ops, op.Displays i) ∧
      Emits (fun a => paths.foldl (fun a path => a.displayImage (name a) path i) a) a ops
  | [], _ => ⟨[], rfl, by simp, fun ps cur => by rw [addOps_nil]; rfl⟩
  | path :: rest, a => by
    obtain ⟨op, hop, hfirst⟩ := exists_emits_displayImage name hname a path i
    obtain ⟨ops, hlength, hops, hrest⟩ := exists_emits_displayImages i rest
      (a.displayImage (name a) path i)
    exact ⟨op :: ops, by simp [hlength], List.forall_mem_cons.2 ⟨hop, hops⟩, hfirst.comp hrest⟩

end Display

/-- **A block displays each of its images once.** -/
theorem exists_emits_display (a : Assembly) (b : Block) (i : Nat) : ∃ ops : List Op,
    ops.length = b.imagePaths.length ∧ (∀ op ∈ ops, op.Displays i) ∧ Emits (display · b i) a ops := by
  unfold display
  split
  · rename_i path heq
    by_cases hcaption : (captionOf b).isEmpty = true
    · obtain ⟨op, hop, hemits⟩ := exists_emits_displayImage
        (fun a => s!"img{a.images.length + 1}") (fun _ _ _ => rfl) a path i
      refine ⟨[op], by simp [heq], by simpa using hop, ?_⟩
      simpa only [hcaption, if_true] using hemits
    · obtain ⟨op, hop, hemits⟩ := exists_emits_displayImage
        (fun _ => captionOf b) (fun _ _ _ => rfl) a path i
      refine ⟨[op], by simp [heq], by simpa using hop, ?_⟩
      simpa only [hcaption, Bool.false_eq_true, if_false] using hemits
  · exact exists_emits_displayImages (fun a => s!"img{a.images.length + 1}")
      (fun _ _ _ => rfl) i _ a

/-! ### Steps that are added -/

variable {b c : Assembly}

/-- The code is the same but for steps that were added. -/
structure Adds (ops : List Op) (a b : Assembly) : Prop where
  procedures : b.procedures = addOps a.current ops a.procedures
  current : b.current = a.current

theorem Adds.refl (a : Assembly) : Adds [] a a := ⟨(addOps_nil _ _).symm, rfl⟩

theorem Adds.trans {new more : List Op} (hab : Adds new a b) (hbc : Adds more b c) :
    Adds (new ++ more) a c := by
  refine ⟨?_, hbc.current.trans hab.current⟩
  rw [hbc.procedures, hab.procedures, hab.current, addOps_addOps]

/-- What an operation adds to any code it adds to the code that is there. -/
theorem Emits.adds {f : Assembly → Assembly} {ops : List Op} (h : Emits f a ops) :
    Adds ops a (f a) := by
  have ha := h a.procedures a.current
  rw [withCode_self] at ha
  exact ⟨by rw [ha]; rfl, by rw [ha]; rfl⟩

theorem adds_emit (a : Assembly) (step : Step) (loc : Loc) :
    Adds [⟨step, loc⟩] a (a.emit step loc) := by
  rw [emit_eq]
  exact ⟨rfl, rfl⟩

theorem adds_spoken (a : Assembly) (s : SayLine) (i : Nat) : Adds [] a (a.spoken s i).2 := by
  have h := spoken_withCode (a := a) a.procedures a.current s i
  rw [withCode_self] at h
  exact ⟨by rw [h, addOps_nil]; rfl, by rw [h]; rfl⟩

/-- Declarations leave the code as it is. -/
theorem adds_declareAll (d : Document) (items : List Item) (a : Assembly) :
    Adds [] a (declareAll d items a) := by
  have h := declareAll_withCode a a.procedures a.current d items
  rw [withCode_self] at h
  exact ⟨by rw [h, addOps_nil]; rfl, by rw [h]; rfl⟩

theorem adds_command {c : Command} (h : CommandKind.lookup? c.name ≠ some .function)
    (media : List Media) :
    ∃ ops : List Op, (∀ op ∈ ops, op.step.Silent) ∧ Adds ops a (a.command c media) := by
  obtain ⟨ops, hsilent, hops⟩ := exists_command_withCode (a := a) h media
  have ha := hops a.procedures a.current rfl
  rw [withCode_self] at ha
  exact ⟨ops, hsilent, by rw [ha]; rfl, by rw [ha]; rfl⟩

variable {d : Document} {it : Item}

theorem item_of_commands {cs : List Command} (h : it.content = .commands cs) (a : Assembly) :
    item d a it = .ok ((cs.filter (!·.disabled)).foldl
      (fun a c => a.command c (it.source d).media) a) := by
  unfold item
  rw [h]
  rfl

theorem item_of_current_none (hcommands : it.isCommands = false) (h : a.current = none) :
    item d a it = .ok a := by
  rcases it with ⟨block, content⟩
  unfold item
  rw [h]
  cases content with
  | commands cs => simp [Item.isCommands] at hcommands
  | _ => rfl

/-- **What a block gives is added** to the function that takes steps. -/
theorem adds_of_item (h : item d a it = .ok b) (hcommands : it.isCommands = false)
    (hcurrent : a.current ≠ none) : ∃ ops, Adds ops a b ∧ it.Gives d ops := by
  rcases it with ⟨block, content⟩
  have hnone : ¬ a.current.isNone = true := by simpa using hcurrent
  unfold item at h
  cases content with
  | commands cs => simp [Item.isCommands] at hcommands
  | say s =>
    dsimp only at h
    rw [if_neg hnone, say_eq, bind_eq_ok] at h
    obtain ⟨content, hcontent, ⟨⟩⟩ := h
    exact ⟨_, (adds_spoken a s block).trans (adds_emit ..), .say _ hcontent⟩
  | narration =>
    dsimp only at h
    rw [if_neg hnone, narrate_eq, bind_eq_ok] at h
    obtain ⟨content, hcontent, ⟨⟩⟩ := h
    exact ⟨_, adds_emit .., .narration _ hcontent⟩
  | verbatim =>
    dsimp only at h
    rw [if_neg hnone] at h
    cases h
    exact ⟨_, adds_emit .., .verbatim⟩
  | display =>
    dsimp only at h
    rw [if_neg hnone] at h
    cases h
    obtain ⟨ops, hlength, hops, hemits⟩ :=
      exists_emits_display a (d.blocks[block]?.getD .empty) block
    exact ⟨ops, hemits.adds, .display hlength hops⟩

/-- **What an item does**: its commands are run one after the other, or what its block gives is
added, if there is a function that takes steps. -/
theorem item_cases (h : item d a it = .ok b) :
    (∃ cs, it.content = .commands cs ∧
      b = (cs.filter (!·.disabled)).foldl (fun a c => a.command c (it.source d).media) a) ∨
    it.isCommands = false ∧
      (a.current = none ∧ b = a ∨ ∃ ops, Adds ops a b ∧ it.Gives d ops) := by
  by_cases hcommands : it.isCommands = true
  · obtain ⟨cs, hcs⟩ := Item.exists_commands hcommands
    rw [item_of_commands hcs] at h
    exact .inl ⟨cs, hcs, (Except.ok.inj h).symm⟩
  · rw [Bool.not_eq_true] at hcommands
    refine .inr ⟨hcommands, ?_⟩
    by_cases hcurrent : a.current = none
    · rw [item_of_current_none hcommands hcurrent] at h
      exact .inl ⟨hcurrent, (Except.ok.inj h).symm⟩
    · exact .inr (adds_of_item h hcommands hcurrent)

end Assembly
end Manuscript
