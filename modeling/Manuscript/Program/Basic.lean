/-
# Programs

What a document says, apart from its layout: the characters with their sprites,
the scenes, the images to display, and the functions. A function is a graph of
blocks; a block is a list of instructions and a terminator that says where
control goes.

Key definitions: `Action`, `Inst`, `Terminator`, `BasicBlock`, `FlowGraph`,
`Character`, `Program`.
-/
import Manuscript.Diagnostic
import Manuscript.Document.Basic
import Manuscript.Program.Sprite
import Manuscript.Text.Lowercase

namespace Manuscript

/-- A character by its place in the list of characters. -/
abbrev CharacterId := Nat

/-- A function by its place in the list of functions. -/
abbrev FunctionId := Nat

/-- A block by its place in its function. -/
abbrev BlockId := Nat

/-- Where sound is played. -/
inductive Channel where
  | music
  | sound
  | voice
deriving Repr, DecidableEq

namespace Channel

/-- Reads the name of a channel, in any case. -/
def parse? (s : String) : Option Channel :=
  match Text.lowercase (Text.trimmed s) with
  | "music" | "bgm" | "音乐" => some music
  | "sound" | "sfx" | "音效" => some sound
  | "voice" | "语音" => some voice
  | _ => none

/-- The word for a channel. -/
def render : Channel → String
  | music => "music"
  | sound => "sound"
  | voice => "voice"

end Channel

/-- What an instruction does. -/
inductive Action where
  /-- A line of a speaker, or of the narrator. -/
  | say (speaker : Option CharacterId) (status : List String) (content : StyledText)
  /-- Puts a character on screen. In a document the tags are as written; in generated code
  they are the whole state. -/
  | showCharacter (character : CharacterId) (tags : List String)
  | hideCharacter (character : CharacterId)
  /-- Changes the state of a character, on screen or off. -/
  | setState (character : CharacterId) (tags : List String)
  /-- Changes the scene, which empties the stage. -/
  | setScene (scene : String)
  /-- Drops the scene and empties the stage. -/
  | clearScene
  /-- Displays an image of the program. -/
  | showImage (image : String)
  | play (channel : Channel) (asset : String)
  /-- Text that goes to the script as it is. -/
  | verbatim (text : String)
  | comment (text : String)
deriving Repr, DecidableEq

/-- What an action is called in a diagnostic. -/
def Action.describe : Action → String
  | say .. => "say"
  | showCharacter .. => "show"
  | hideCharacter .. => "hide"
  | setState .. => "state"
  | setScene .. | clearScene => "scene"
  | showImage .. => "display"
  | play .. => "play"
  | verbatim .. => "passthrough"
  | comment .. => "comment"

/-- An instruction: an action, and the place in the document it comes from. -/
structure Inst where
  action : Action
  loc : Loc
deriving Repr, DecidableEq

/-- Where an arm of a branch leads. -/
inductive Target where
  | block (block : BlockId)
  | function (function : FunctionId)
deriving Repr, DecidableEq

/-- An arm of a branch: the text offered, and where it leads. -/
structure Arm where
  text : String
  target : Target
deriving Repr, DecidableEq

/-- How a block ends. -/
inductive Terminator where
  | jumpFunction (function : FunctionId)
  /-- Calls a function and continues in the next block. -/
  | call (function : FunctionId)
  | jump (block : BlockId)
  | branch (arms : List Arm)
  | ret
deriving Repr, DecidableEq

namespace Terminator

/-- The block an arm leads to, if it stays in the function. -/
def armBlock? (a : Arm) : Option BlockId :=
  match a.target with
  | .block b => some b
  | .function _ => none

/-- The blocks of the function that control may go to, arm by arm; `next` is the block that
follows. -/
def successors (next : BlockId) : Terminator → List BlockId
  | call _ => [next]
  | jump b => [b]
  | branch arms => arms.filterMap armBlock?
  | jumpFunction _ | ret => []

end Terminator

/-- A block of a function. -/
structure BasicBlock where
  label : Option String
  insts : List Inst
  terminator : Terminator
deriving Repr, DecidableEq

/-- An edge into a block: the block it comes from, and the arm if that block branches. -/
structure Edge where
  source : BlockId
  arm : Option Nat
deriving Repr, DecidableEq

/-- A function as a graph of blocks; control enters at the first. -/
structure FlowGraph where
  name : String
  blocks : List BasicBlock
  loc : Loc
deriving Repr, DecidableEq

namespace FlowGraph

/-- The first block with the label. -/
def labelBlock? (f : FlowGraph) (label : String) : Option BlockId :=
  f.blocks.findIdx? (·.label == some label)

/-- The edges from block `i` to block `target`, arm by arm. -/
def edgesFrom (target i : BlockId) (t : Terminator) : List Edge :=
  match t with
  | .branch arms =>
    arms.zipIdx.filterMap fun (arm, k) =>
      if arm.target = .block target then some ⟨i, some k⟩ else none
  | t => (t.successors (i + 1)).filterMap fun b => if b = target then some ⟨i, none⟩ else none

/-- The edges into a block, by the block they come from and then by arm. -/
def edgesInto (f : FlowGraph) (target : BlockId) : List Edge :=
  f.blocks.zipIdx.flatMap fun (b, i) => edgesFrom target i b.terminator

/-- The edges into every block. -/
def predecessors (f : FlowGraph) : List (List Edge) :=
  (List.range f.blocks.length).map f.edgesInto

end FlowGraph

/-- A character of the story. -/
structure Character where
  name : String
  aliases : List String
  nameColor : Option Color
  contentColor : Option Color
  sprites : SpriteTree
  /-- The character was mentioned and never declared. -/
  implicit : Bool
deriving Repr, DecidableEq

namespace Character

/-- A character of which only the name is known. -/
def ofName (name : String) : Character := ⟨name, [], none, none, .empty, false⟩

/-- The character has this name or alias. -/
def answersTo (c : Character) (name : String) : Bool := c.name == name || c.aliases.contains name

end Character

/-- A scene, with its background if it has one. -/
structure Scene where
  name : String
  background : Option Asset
deriving Repr, DecidableEq

/-- An image that a paragraph displays. -/
structure DisplayImage where
  id : String
  path : String
deriving Repr, DecidableEq

/-- A program. -/
structure Program where
  title : String
  characters : List Character
  scenes : List Scene
  images : List DisplayImage
  functions : List FlowGraph
deriving Repr, DecidableEq

namespace Program

/-- The character with this index. -/
def character (p : Program) (id : CharacterId) : Except Fault Character :=
  (Fault.noCharacter id).unless p.characters[id]?

/-- The first character that answers to a name. -/
def findCharacter? (p : Program) (name : String) : Option CharacterId :=
  p.characters.findIdx? (·.answersTo name)

/-- The first scene with a name. -/
def findScene? (p : Program) (name : String) : Option Scene := p.scenes.find? (·.name == name)

/-- The first function with a name. -/
def findFunction? (p : Program) (name : String) : Option FunctionId :=
  p.functions.findIdx? (·.name == name)

end Program
end Manuscript
