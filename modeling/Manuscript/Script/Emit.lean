/-
# Writing the script

The script of a program: a header, the characters, the images, and the functions
one after the other. A function is a label, the statements of its first block,
and so on for its other blocks; a jump to the next block is left out, since
control gets there by itself.

Key definitions: `Script.preamble`, `Script.functionLines`, `Script.lines`,
`Script.emit`.
-/
import Manuscript.Script.Names

namespace Manuscript.Script

/-- Lines at one depth. -/
def atDepth (depth : Nat) (statements : List Statement) : List Line := statements.map (⟨depth, ·⟩)

/-- The lines, closed by a blank line if there are any. -/
def closed (ls : List Line) : List Line := if ls.isEmpty then [] else ls ++ [⟨0, .blank⟩]

/-- The comment at the top of the script. -/
def header (p : Program) (s : CodegenSettings) : List Line :=
  if s.headerComment then
    closed (atDepth 0 [.comment
      ("Generated from \"" ++ p.title ++ "\". Edits will be lost on recompilation.")])
  else []

/-- The definitions of the characters. -/
def defines (p : Program) (n : Names) : List Line :=
  closed (atDepth 0 ((p.characters.zip n.characters).map fun (c, name) => .define name c))

/-- The text of the placeholder of a state. -/
def stateText (c : Character) (path : List String) : String := c.name ++ " " ++ Text.join " " path

/-- The art of a state in a sprite tree. -/
def spriteArt (s : CodegenSettings) (c : Character) (path : List String) : Option Asset → Art
  | some (.file f) => .file f
  | some (.placeholder text) => .placeholder s.characterPlaceholderBase text
  | none => .placeholder s.characterPlaceholderBase (stateText c path)

/-- The images of a character: those of its tree, then the states shown without art that are
not among them. -/
def characterImages (s : CodegenSettings) (g : Generated) (c : Character) (id : CharacterId)
    (name : String) : List Statement :=
  let images := c.sprites.images
  let missing := (g.placeholders.filter (·.1 == id)).filter
    fun (_, path) => !images.any (·.1 == path)
  images.map (fun (path, asset) => .image (imageName name path) (spriteArt s c path asset))
    ++ missing.map fun (_, path) =>
      .image (imageName name path)
        (.placeholder s.characterPlaceholderBase (Text.trimmed (stateText c path)))

/-- The art of a scene. -/
def sceneArt (s : CodegenSettings) (sc : Scene) : Art :=
  match sc.background with
  | some (.file f) => .file f
  | some (.placeholder text) => .placeholder s.scenePlaceholderBase text
  | none => .placeholder s.scenePlaceholderBase sc.name

/-- All image statements: of characters, scenes and displayed images. -/
def images (p : Program) (g : Generated) (s : CodegenSettings) (n : Names) : List Statement :=
  (p.characters.zip n.characters).zipIdx.flatMap
      (fun ((c, name), id) => characterImages s g c id name)
    ++ g.scenes.map (fun sc => .image ("bg " ++ n.scene sc.name) (sceneArt s sc))
    ++ p.images.map fun i => .image ("cg " ++ i.id) (.file i.path)

/-- Everything before the functions. -/
def preamble (p : Program) (g : Generated) (s : CodegenSettings) (n : Names) : List Line :=
  header p s ++ defines p n ++ closed (atDepth 0 (images p g s n))

/-- The statements of an instruction. -/
def statements (s : CodegenSettings) (n : Names) (i : Inst) : Except Fault (List Statement) :=
  match i.action with
  | .say none _ content => .ok [.say none none content]
  | .say (some id) [] content => do
    return [.say (some (← n.character id)) none content]
  | .say (some id) status content => do
    return [.say (some (← n.character id)) (some (imageTags status)) content]
  | .showCharacter id path | .setState id path => do
    return [.showImage (imageName (← n.character id) path)]
  | .hideCharacter id => do return [.hideImage (← n.character id)]
  | .setScene scene => .ok [.scene (some (n.scene scene))]
  | .clearScene => .ok [.scene none]
  | .showImage image => .ok [.showImage ("cg " ++ image)]
  | .play channel path => .ok [.play channel path]
  | .verbatim text => .ok ((Text.lines text).map .verbatim)
  | .comment text => .ok (if s.emitComments then [.comment text] else [])

/-- The lines of instructions at a depth. -/
def instLines (s : CodegenSettings) (n : Names) (depth : Nat) (is : List Inst) :
    Except Fault (List Line) := do
  return (← is.mapM (statements s n)).flatten.map (⟨depth, ·⟩)

/-- The label that a target is written as. A block without a label is written as its
function. -/
def targetLabel (n : Names) (id : FunctionId) (f : GeneratedFunction) :
    Target → Except Fault String
  | .block b => do
    let block ← (Fault.noBlock b).unless f.blocks[b]?
    return (n.label? id block).getD (n.functions[id]?.getD "")
  | .function g => n.function g

/-- The lines of the arms of a menu, each with its patch and its jump. -/
def armLines (s : CodegenSettings) (n : Names) (id : FunctionId) (f : GeneratedFunction) :
    List (Arm × List Inst) → Except Fault (List Line)
  | [] => .ok []
  | (arm, patch) :: rest => do
    let patchLines ← instLines s n 3 patch
    let target ← targetLabel n id f arm.target
    let rest ← armLines s n id f rest
    return ⟨2, .choice arm.text⟩ :: (patchLines ++ ⟨3, .jump target⟩ :: rest)

/-- The lines of the terminator of block `i`. -/
def terminatorLines (s : CodegenSettings) (n : Names) (id : FunctionId) (f : GeneratedFunction)
    (i : BlockId) (b : GeneratedBlock) : Except Fault (List Line) :=
  match b.terminator with
  | .jumpFunction g => do return [⟨1, .jump (← n.function g)⟩]
  | .call g => do return [⟨1, .call (← n.function g)⟩]
  | .jump t => if t = i + 1 then .ok [] else do return [⟨1, .jump (← targetLabel n id f (.block t))⟩]
  | .branch arms => do return ⟨1, .menu⟩ :: (← armLines s n id f (arms.zip b.armPatches))
  | .ret => .ok [⟨1, .ret⟩]

/-- The label of block `i`: the first block has that of its function. -/
def blockLabel? (n : Names) (id : FunctionId) (i : BlockId) (b : GeneratedBlock) : Option String :=
  if i = 0 then some (n.functions[id]?.getD "") else n.label? id b

/-- The lines of block `i`. A label with nothing below it gets an empty statement. -/
def blockLines (s : CodegenSettings) (n : Names) (id : FunctionId) (f : GeneratedFunction)
    (b : GeneratedBlock) (i : BlockId) : Except Fault (List Line) := do
  let body ← instLines s n 1 (b.body ++ b.patch)
  let exit ← terminatorLines s n id f i b
  match blockLabel? n id i b, body ++ exit with
  | some l, [] => return [⟨0, .label l⟩, ⟨1, .pass⟩]
  | some l, ls => return ⟨0, .label l⟩ :: ls
  | none, ls => return ls

/-- The lines of a function. -/
def functionLines (s : CodegenSettings) (n : Names) (f : GeneratedFunction) (id : FunctionId) :
    Except Fault (List Line) := do
  let blocks ← f.blocks.zipIdx.mapM fun (b, i) => blockLines s n id f b i
  return blocks.flatten ++ [⟨0, .blank⟩]

/-- The lines of the script of a program. -/
def lines (p : Program) (g : Generated) (s : CodegenSettings) : Except Fault (List Line) := do
  let n := Names.of p g
  let functions ← g.functions.zipIdx.mapM fun (f, id) => functionLines s n f id
  return preamble p g s n ++ functions.flatten

/-- The script of a program. -/
def emit (p : Program) (g : Generated) (s : CodegenSettings) : Except Fault String := do
  return render s.indentWidth (← lines p g s)

end Manuscript.Script
