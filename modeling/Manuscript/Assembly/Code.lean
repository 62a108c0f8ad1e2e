/-
# Assembling code

The items of a document in order become the steps of its functions. What stands
before the first function is dropped, apart from commands that open a function or
change who speaks. A document that opens no function becomes one function named
for its title.

Key definitions: `Assembly.command`, `Assembly.item`, `Assembly.ofDocument`.
-/
import Manuscript.Assembly.Declare

namespace Manuscript.Assembly

/-- Opens the function of a command. A name that is taken is reported, and what follows is
dropped until the next function. -/
def functionCommand (a : Assembly) (c : Command) : Assembly :=
  match c.positionalText "name" with
  | .error d => a.report d
  | .ok name =>
    if a.procedures.any (·.name == name) then
      { a.report (.make .functionDuplicate [("name", name)] (some c.loc)) with current := none }
    else a.openFunction name c.loc

/-- The names that a command lists as speakers. -/
def rotationNames (c : Command) : List String :=
  ((c.keywordText? .speakers).map Text.listItems).getD []
    ++ match c.attachment with
      | some (.list items) => (items.map Text.trimmed).filter (!·.isEmpty)
      | _ => []

/-- Changes who speaks. -/
def sayModeCommand (a : Assembly) (c : Command) : Assembly :=
  let setMode (a : Assembly) (mode : SayMode) : Assembly :=
    { a with speakers := a.speakers.setMode mode }
  match c.positionalText "mode" with
  | .error d => a.report d
  | .ok mode =>
    match Text.lowercase mode with
    | "default" | "默认" => setMode a .standard
    | "single" | "长发言" =>
      match c.keywordText? .speaker with
      | some name =>
        let (id, a) := a.character (Text.trimmed name) .characterUnresolved c.loc
        setMode a (.single id)
      | none => a.report (c.missing "speaker")
    | "rotation" | "交替" =>
      match rotationNames c with
      | [] => a.report (c.missing "speakers")
      | names =>
        let (ids, a) := a.charactersOf .characterUnresolved c.loc names
        setMode a (.rotation ids 0)
    | _ => a.report (c.invalid "mode" mode)

/-- The arms of a branch: every row or item has a text and a target, and there is one. -/
def branchArms (c : Command) : Except Diagnostic (List (String × String)) :=
  match c.attachment with
  | none => .error (c.missing "options")
  | some a =>
    match a.pairs with
    | [] => .error (c.missing "options")
    | arms =>
      match arms.find? fun (text, target) => text.isEmpty || target.isEmpty with
      | some (text, target) => .error (c.invalid "options" (text ++ "|" ++ target))
      | none => .ok arms

/-- Adds the step of a command, or the report of what is wrong with it. -/
def emitOr (a : Assembly) (c : Command) : Except Diagnostic Step → Assembly
  | .ok step => a.emit step c.loc
  | .error d => a.report d

/-- Adds the step of a command about a character. -/
def characterStep (a : Assembly) (c : Command) (step : CharacterId → Action) : Assembly :=
  match c.positionalText "character" with
  | .error d => a.report d
  | .ok name =>
    let (id, a) := a.character name .characterUnresolved c.loc
    a.emit (.act (step id)) c.loc

/-- Adds the step that changes a character's state; the state must be given. -/
def setStateCommand (a : Assembly) (c : Command) : Assembly :=
  match c.positionalText "character" with
  | .error d => a.report d
  | .ok _ =>
    match c.stateTags with
    | [] => a.report (c.missing "state")
    | tags => a.characterStep c (.setState · tags)

/-- The channel of a command; one that is not known is reported, and music is taken. -/
def channelOf (a : Assembly) (c : Command) : Channel × Assembly :=
  match c.keyword? .channel with
  | none => (.music, a)
  | some v =>
    match v.text? >>= Channel.parse? with
    | some channel => (channel, a)
    | none => (.music, a.report (c.invalid "channel" v.render))

/-- Adds the step that plays a sound. -/
def playCommand (a : Assembly) (c : Command) (media : List Media) : Assembly :=
  match c.args.positional with
  | none => a.report (c.missing "asset")
  | some v =>
    match v.asset? media with
    | none => a.report (c.invalid "asset" v.render)
    | some asset =>
      let (channel, a) := a.channelOf c
      a.emit (.act (.play channel asset)) c.loc

/-- Carries out a command inside a function. -/
def bodyCommand (a : Assembly) (c : Command) (kind : CommandKind) (media : List Media) : Assembly :=
  match kind with
  | .label => a.emitOr c ((c.positionalText "name").map .label)
  | .jump => a.emitOr c ((c.positionalText "target").map .jump)
  | .call => a.emitOr c ((c.positionalText "function").map .call)
  | .ret => a.emit .ret c.loc
  | .branch => a.emitOr c ((branchArms c).map .branch)
  | .switchScene => a.emitOr c ((c.positionalText "scene").map (.act <| .setScene ·))
  | .showCharacter => a.characterStep c (.showCharacter · c.stateTags)
  | .hideCharacter => a.characterStep c .hideCharacter
  | .setState => a.setStateCommand c
  | .play => a.playCommand c media
  | .comment => a.emit (.act (.comment (Text.unquoted c.rawArgs))) c.loc
  | .function | .sayMode | .character | .sprite | .scene => a

/-- Carries out a command that is not disabled. -/
def command (a : Assembly) (c : Command) (media : List Media) : Assembly :=
  match CommandKind.lookup? c.name with
  | none => a.report (.make .commandUnknown [("name", c.name)] (some c.loc))
  | some .function => a.functionCommand c
  | some .sayMode => a.sayModeCommand c
  | some kind => if a.current.isNone then a else a.bodyCommand c kind media

/-- The parts of a block's text at the fields of a spoken line, one after the other. -/
def contentOf (text : StyledText) (fields : List Field) : Except Fault StyledText := do
  let joined ← fields.foldlM (fun out f => return out.append (← text.slice f.span)) StyledText.empty
  joined.trim

/-- Adds a spoken line. -/
def say (a : Assembly) (s : SayLine) (b : Block) (i : Nat) : Except Fault Assembly := do
  let loc := Loc.ofBlock i
  let (named, a) := match s.speakerText with
    | some name => let (id, a) := a.character name .sayerImplicit loc; (some id, a)
    | none => (none, a)
  let (speaker, speakers) := a.speakers.say named s.contentQuoted
  let content ← contentOf b.text s.content
  let a : Assembly := { a with speakers }
  return a.emit (.act (.say speaker s.statusTags content)) loc

/-- Adds a line of narration. -/
def narrate (a : Assembly) (b : Block) (i : Nat) : Except Fault Assembly := do
  let content ← b.text.trim
  return a.emit (.act (.say a.speakers.narration [] content)) (.ofBlock i)

/-- Displays an image under a name of its own. -/
def displayImage (a : Assembly) (name path : String) (i : Nat) : Assembly :=
  let (id, imageIds) := a.imageIds.claim name
  let a : Assembly := { a with imageIds, images := a.images ++ [⟨id, path⟩] }
  a.emit (.act (.showImage id)) (.ofBlock i)

/-- The text of a block that displays images, without its medium marks. -/
def captionOf (b : Block) : String :=
  String.ofList (Text.trim (b.text.plainChars.filter (!Mark.isElement ·)))

/-- Displays the images of a block. A single image is named for its caption, others by their
number in the program. -/
def display (a : Assembly) (b : Block) (i : Nat) : Assembly :=
  match b.imagePaths, captionOf b with
  | [path], caption =>
    if caption.isEmpty then a.displayImage s!"img{a.images.length + 1}" path i
    else a.displayImage caption path i
  | paths, _ =>
    paths.foldl (fun a path => a.displayImage s!"img{a.images.length + 1}" path i) a

/-- Carries out an item of the document. -/
def item (d : Document) (a : Assembly) (it : Item) : Except Fault Assembly :=
  let b := d.blocks[it.block]?.getD .empty
  match it.content with
  | .commands cs => .ok ((cs.filter (!·.disabled)).foldl (fun a c => a.command c b.media) a)
  | content =>
    if a.current.isNone then .ok a
    else match content with
      | .say s => a.say s b it.block
      | .narration => a.narrate b it.block
      | .verbatim => .ok (a.emit (.act (.verbatim b.plain)) (.ofBlock it.block))
      | .display => .ok (a.display b it.block)
      | .commands _ => .ok a

/-- Opens a function for a document that opens none itself. -/
def defaultFunction (s : FrontendSettings) (d : Document) (items : List Item) (a : Assembly) :
    Assembly :=
  if (items.flatMap Item.enabled).any (·.kind == .function) then a
  else
    let title := Text.trimmed d.title
    a.openFunction (if title.isEmpty then s.defaultFunctionName else title) (.ofBlock 0)

/-- Puts the program of a document together. -/
def ofDocument (s : FrontendSettings) (d : Document) : Except Fault Assembly :=
  let reading := Item.ofDocument s.maxNameChars d
  let a := defaultFunction s d reading.items (fresh d.title reading.diags)
  reading.items.foldlM (item d) (declareAll d reading.items a)

end Manuscript.Assembly
