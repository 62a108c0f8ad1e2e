/-
# Declarations

Characters, sprites and scenes are declared by commands anywhere in the document,
before anything else is carried out: first all characters, then all sprites and
scenes. A character's first declaration fixes its style; later ones only add
sprite states. A scene's first declaration holds.

Key definitions: `Assembly.declareCharacter`, `Assembly.declareSprite`,
`Assembly.declareScene`, `Assembly.declareAll`.
-/
import Manuscript.Assembly.Basic

namespace Manuscript.Assembly

/-- Adds a sprite state to a character. Without a file its art is a placeholder that says
the name and the state; a blank state adds nothing. -/
def addState (a : Assembly) (id : CharacterId) (state : String) (file : Option String) : Assembly :=
  match Text.words state with
  | [] => a
  | path =>
    a.modifyCharacter id fun c =>
      let asset := match file with
        | some f => Asset.file f
        | none => Asset.placeholder (c.name ++ " " ++ Text.join " " path)
      { c with sprites := c.sprites.insert asset path }

/-- Adds the sprite states of a table or list, each with its file or none. -/
def addStates (a : Assembly) (id : CharacterId) (attachment : Option Attachment) : Assembly :=
  ((attachment.map Attachment.pairs).getD []).foldl
    (fun a (state, file) => a.addState id state (if file.isEmpty then none else some file)) a

/-- The colour that a keyword gives; a value that is no colour is reported. -/
def colorOf (a : Assembly) (c : Command) (k : Keyword) : Option Color × Assembly :=
  match c.keyword? k with
  | none => (none, a)
  | some v =>
    match v.text? >>= Color.parse? with
    | some color => (some color, a)
    | none => (none, a.report (c.invalid k.english v.render))

/-- Adds a character with the aliases and colours of its declaration. -/
def newCharacter (a : Assembly) (c : Command) (name : String) : CharacterId × Assembly :=
  let aliases := ((c.keywordText? .otherNames).map Text.listItems).getD []
  let (nameColor, a) := a.colorOf c .nameColor
  let (contentColor, a) := a.colorOf c .color
  a.addCharacter { Character.ofName name with aliases, nameColor, contentColor }

/-- Declares a character, with the sprite states of its table or list. -/
def declareCharacter (a : Assembly) (c : Command) : Assembly :=
  match c.positionalText "name" with
  | .error d => a.report d
  | .ok name =>
    let (id, a) := match a.findCharacter? name with
      | some id => (id, a.report (.make .characterDuplicate [("name", name)] (some c.loc)))
      | none => a.newCharacter c name
    a.addStates id c.attachment

/-- Declares sprite states of a character: the one that the command names, and those of its
table or list. -/
def declareSprite (a : Assembly) (c : Command) (media : List Media) : Assembly :=
  match c.positionalText "character" with
  | .error d => a.report d
  | .ok name =>
    let (id, a) := a.character name .characterUnresolved c.loc
    let a := match (c.keywordText? .state).or c.callText? with
      | some state => a.addState id state (c.keyword? .image >>= Arg.asset? media)
      | none => if c.attachment.isNone then a.report (c.missing "state") else a
    a.addStates id c.attachment

/-- Declares a scene with its background. -/
def declareScene (a : Assembly) (c : Command) (media : List Media) : Assembly :=
  match c.positionalText "name" with
  | .error d => a.report d
  | .ok name =>
    if a.scenes.any (·.name == name) then
      a.report (.make .sceneDuplicate [("name", name)] (some c.loc))
    else
      let background := (c.keyword? .background >>= Arg.asset? media).map Asset.file
      { a with scenes := a.scenes ++ [⟨name, background⟩] }

/-- The media of a block of the document. -/
def mediaOf (d : Document) (block : Nat) : List Media := (d.blocks[block]?.map (·.media)).getD []

/-- Carries out a command if it declares a character. -/
def characterStage (a : Assembly) (e : Item.Enabled) : Assembly :=
  match e.kind with
  | .character => a.declareCharacter e.command
  | _ => a

/-- Carries out a command if it declares a sprite or a scene. -/
def sceneryStage (d : Document) (a : Assembly) (e : Item.Enabled) : Assembly :=
  match e.kind with
  | .sprite => a.declareSprite e.command (mediaOf d e.block)
  | .scene => a.declareScene e.command (mediaOf d e.block)
  | _ => a

/-- Carries out all declarations of a document. -/
def declareAll (d : Document) (items : List Item) (a : Assembly) : Assembly :=
  let commands := items.flatMap Item.enabled
  commands.foldl (sceneryStage d) (commands.foldl characterStage a)

end Manuscript.Assembly
