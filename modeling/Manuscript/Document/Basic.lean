/-
# Documents

A document is a title and a list of blocks: paragraphs of styled text with the
paragraph style that says how to read them, the table or list that a block may
be instead, and the media it embeds. In the text an embedded medium is marked by
one character; the n-th mark of a block stands for its n-th medium.

Key definitions: `Document`, `Block`, `Attachment`, `Media`, `elementMark`.
-/
import Manuscript.Document.Styled

namespace Manuscript

/-- The character that stands for an embedded medium in a text. -/
def elementMark : Char := '￼'

/-- How a paragraph is aligned. -/
inductive Alignment where
  | left
  | center
  | right
  | justify
deriving Repr, DecidableEq

/-- The styling of a whole paragraph. -/
structure ParagraphStyle where
  align : Alignment
  background : Option Color
deriving Repr, DecidableEq

namespace ParagraphStyle

/-- A paragraph on the left without a background. -/
def standard : ParagraphStyle := ⟨.left, none⟩

end ParagraphStyle

/-- A table by its rows, or a list by its items. -/
inductive Attachment where
  | table (rows : List (List String))
  | list (items : List String)
deriving Repr, DecidableEq

/-- What an embedded medium is. -/
inductive MediaKind where
  | image
  | audio
deriving Repr, DecidableEq

/-- An embedded medium by its path. -/
structure Media where
  path : String
  kind : MediaKind
deriving Repr, DecidableEq

/-- A block of a document: a paragraph, a table or a list. -/
structure Block where
  text : StyledText
  paragraph : ParagraphStyle
  attachment : Option Attachment
  media : List Media
deriving Repr, DecidableEq

namespace Block

/-- The block that holds nothing. -/
def empty : Block := ⟨.empty, .standard, none, []⟩

/-- A paragraph of unstyled text. -/
def ofString (s : String) : Block := { empty with text := .ofString s }

/-- A paragraph of the runs as they are. -/
def ofRuns (runs : List Run) : Block := { empty with text := ⟨runs⟩ }

/-- A table. -/
def ofRows (rows : List (List String)) : Block := { empty with attachment := some (.table rows) }

/-- A list. -/
def ofItems (items : List String) : Block := { empty with attachment := some (.list items) }

/-- The block with a medium more. -/
def addMedia (b : Block) (m : Media) : Block := { b with media := b.media ++ [m] }

/-- The block's text without its styles. -/
def plain (b : Block) : String := b.text.plain

/-- The block has nothing to read, attach or display. -/
def isBlank (b : Block) : Bool :=
  b.attachment.isNone && b.media.isEmpty && Text.allBlank b.plain

/-- The block has a background other than white: its text goes to the script as it is. -/
def isVerbatim (b : Block) : Bool :=
  match b.paragraph.background with
  | some c => c ≠ Color.white
  | none => false

/-- The paths of the images that the block embeds. -/
def imagePaths (b : Block) : List String :=
  (b.media.filter (·.kind == .image)).map (·.path)

/-- The block is a centred paragraph with an image. -/
def isDisplay (b : Block) : Bool :=
  b.paragraph.align == .center && b.media.any (·.kind == .image)

end Block

/-- A document. -/
structure Document where
  title : String
  blocks : List Block
deriving Repr, DecidableEq

end Manuscript
