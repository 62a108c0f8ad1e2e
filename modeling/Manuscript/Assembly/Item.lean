/-
# Items

The blocks of a document that carry something, in order, each read as what it is.
A table or list belongs to the command right before it: to the last command of
the item before, if that is a command line whose last command has no table or
list yet. Blank blocks carry nothing.

Key definitions: `Item`, `Item.ofBlock?`, `Item.attach`, `Item.ofDocument`.
-/
import Manuscript.Command.Access
import Manuscript.Line.Basic

namespace Manuscript

/-- What a block carries. -/
inductive ItemContent where
  | commands (commands : List Command)
  | say (say : SayLine)
  | narration
  | verbatim
  | display
deriving Repr

/-- A block by its place in the document, and what it carries. -/
structure Item where
  block : Nat
  content : ItemContent
deriving Repr

namespace Item

/-- What a line carries; a blank one carries nothing. -/
def ofLine? : Line → Option ItemContent
  | .commands cs => some (.commands cs)
  | .say s => some (.say s)
  | .narration => some .narration
  | .blank => none

/-- What a block without a table or list carries, with the reports of reading it. -/
def ofBlock? (limit i : Nat) (b : Block) : Option ItemContent × List Diagnostic :=
  if b.isBlank then (none, [])
  else if b.isVerbatim then (some .verbatim, [])
  else if b.isDisplay then (some .display, [])
  else
    let (line, ds) := Line.read b.plain i limit
    (ofLine? line, ds)

/-- Gives a table or list to the last command, unless it has one. -/
def attachLast (a : Attachment) : List Command → List Command
  | [] => []
  | [c] => [if c.attachment.isNone then { c with attachment := some a } else c]
  | c :: d :: rest => c :: attachLast a (d :: rest)

/-- Gives a table or list to the last item, if that is a command line. -/
def attach (a : Attachment) : List Item → List Item
  | [] => []
  | [⟨block, .commands cs⟩] => [⟨block, .commands (attachLast a cs)⟩]
  | [item] => [item]
  | x :: y :: rest => x :: attach a (y :: rest)

/-- The items read so far, and the reports of reading them. -/
structure Reading where
  items : List Item
  diags : List Diagnostic
deriving Repr

/-- Reads one block more. -/
def Reading.step (limit : Nat) (r : Reading) (b : Block) (i : Nat) : Reading :=
  match b.attachment with
  | some a => { r with items := attach a r.items }
  | none =>
    let (content, ds) := ofBlock? limit i b
    ⟨r.items ++ (content.map (⟨i, ·⟩)).toList, r.diags ++ ds⟩

/-- The items of a document, and the reports of reading them. -/
def ofDocument (limit : Nat) (d : Document) : Reading :=
  d.blocks.zipIdx.foldl (fun r (b, i) => r.step limit b i) ⟨[], []⟩

/-- A command of the document that is not disabled, with the place of its block and its
kind. -/
structure Enabled where
  block : Nat
  command : Command
  kind : CommandKind
deriving Repr

/-- The commands of an item that are not disabled and are known. -/
def enabled (item : Item) : List Enabled :=
  match item.content with
  | .commands cs =>
    (cs.filter (!·.disabled)).filterMap fun c =>
      (CommandKind.lookup? c.name).map (⟨item.block, c, ·⟩)
  | _ => []

end Item
end Manuscript
