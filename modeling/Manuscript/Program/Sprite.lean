/-
# Sprite trees

The states of a character's sprite form a tree: each level is one choice among
names that exclude each other, and a state is a path of names from the root to a
leaf. The first name at a level is the choice made when none is given. A path
that leads to an inner node may have art of its own.

A level is kept as its first name with the levels below it and the rest of the
level beside it.

Key definitions: `SpriteTree`, `SpriteTree.insert`, `SpriteTree.images`,
`SpriteTree.defaultPath`, `SpriteTree.isComplete`, `SpriteTree.resolve?`.
-/

namespace Manuscript

/-- Where art comes from. -/
inductive Asset where
  | file (path : String)
  /-- Drawn by the engine with this text. -/
  | placeholder (text : String)
deriving Repr, DecidableEq

/-- A level of the states of a sprite, with all levels below it. -/
inductive SpriteTree where
  | empty
  /-- A name, its art, the level below it, and the rest of its own level. -/
  | node (name : String) (asset : Option Asset) (children siblings : SpriteTree)
deriving Repr, DecidableEq

namespace SpriteTree

/-- The level has no name. -/
def isEmpty : SpriteTree → Bool
  | empty => true
  | node .. => false

/-- The names of a level. -/
def names : SpriteTree → List String
  | empty => []
  | node name _ _ siblings => name :: siblings.names

/-- The level below a name. -/
def child? (name : String) : SpriteTree → Option SpriteTree
  | empty => none
  | node n _ children siblings => if n = name then some children else siblings.child? name

/-- The level below a path. -/
def below? : List String → SpriteTree → Option SpriteTree
  | [], t => some t
  | name :: path, t => (t.child? name).bind (below? path)

/-- The path of the first names down to a leaf. -/
def defaultPath : SpriteTree → List String
  | empty => []
  | node name _ children _ => name :: children.defaultPath

/-- The tree that holds one path. -/
def chain (asset : Asset) : List String → SpriteTree
  | [] => empty
  | [name] => node name (some asset) empty empty
  | name :: next :: path => node name none (chain asset (next :: path)) empty

/-- Adds a path with its art, or gives a path new art. The empty path changes nothing. -/
def insert (asset : Asset) : List String → SpriteTree → SpriteTree
  | path, empty => chain asset path
  | [], t => t
  | name :: path, node n a children siblings =>
    if n = name then
      match path with
      | [] => node n (some asset) children siblings
      | next :: path => node n a (insert asset (next :: path) children) siblings
    else node n a children (insert asset (name :: path) siblings)
termination_by structural _ t => t

/-- The path leads to a leaf. -/
def isComplete (t : SpriteTree) (path : List String) : Bool :=
  !path.isEmpty && t.below? path == some empty

/-- The path continued by first names down to a leaf. -/
def descend (t : SpriteTree) (path : List String) : List String :=
  match t.below? path with
  | some level => path ++ level.defaultPath
  | none => path

/-- The level below a path holds the name. -/
def offers (t : SpriteTree) (name : String) (path : List String) : Bool :=
  match t.below? path with
  | some level => level.names.contains name
  | none => false

/-- Applies one tag to a path: the tag replaces the choice at the highest level that offers
it, and the levels below fall back to their first names. -/
def applyTag? (t : SpriteTree) (path : List String) (tag : String) : Option (List String) :=
  ((List.range (path.length + 1)).find? fun depth => t.offers tag (path.take depth)).map
    fun depth => t.descend (path.take depth ++ [tag])

/-- The state to start from: the current one if it is complete, else the default. -/
def startPath (t : SpriteTree) (current : List String) : List String :=
  if t.isComplete current then current else t.defaultPath

/-- Applies tags to the current state; none if a tag names nothing. -/
def resolve? (t : SpriteTree) (current tags : List String) : Option (List String) :=
  tags.foldlM t.applyTag? (t.startPath current)

/-- The paths below `above` that have art or are leaves, each with its art, a name before
what is below it. -/
def imagesBelow (above : List String) : SpriteTree → List (List String × Option Asset)
  | empty => []
  | node name asset children siblings =>
    let path := above ++ [name]
    (if asset.isSome || children.isEmpty then [(path, asset)] else [])
      ++ children.imagesBelow path ++ siblings.imagesBelow above

/-- The paths that have art or are leaves. -/
def images (t : SpriteTree) : List (List String × Option Asset) := t.imagesBelow []

end SpriteTree
end Manuscript
