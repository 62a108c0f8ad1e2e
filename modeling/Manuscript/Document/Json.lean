/-
# Documents as JSON

How a document is written in JSON, and how it is read back. Reading allows the
fields that have a usual value to be left out, ignores fields it does not know,
and takes an array of the fields in their order for any record. Writing writes
every field.

Key definitions: `Document.ofJson?`, `Document.parse?`, `Document.toJson`.
-/
import Manuscript.Document.Basic
import Manuscript.Json.Printer
import Manuscript.Json.Reader

namespace Manuscript

/-- The field read by `f`, or its usual value if it is absent. -/
def Json.orElse {α : Type} (usual : α) (f : Json → Option α) : Option Json → Option α
  | none => some usual
  | some j => f j

namespace Color

/-- Reads a colour. -/
def ofJson? (j : Json) : Option Color := j.string? >>= parse?

/-- Writes a colour. -/
def toJson (c : Color) : Json := .string (some c.render)

end Color

namespace Style

/-- Reads a style. -/
def ofJson? (j : Json) : Option Style := do
  match ← j.fields? ["bold", "italic", "color"] with
  | [bold, italic, color] =>
    let bold ← Json.orElse false Json.bool? bold
    let italic ← Json.orElse false Json.bool? italic
    let color ← Json.orElse none (Json.nullable? Color.ofJson?) color
    some ⟨bold, italic, color⟩
  | _ => none

/-- Writes a style. -/
def toJson (s : Style) : Json := .object [
  (some "bold", .bool s.bold), (some "italic", .bool s.italic),
  (some "color", (s.color.map Color.toJson).getD .null)]

end Style

namespace Run

/-- Reads a run. -/
def ofJson? (j : Json) : Option Run := do
  match ← j.fields? ["text", "style"] with
  | [some text, style] =>
    let text ← text.string?
    let style ← Json.orElse Style.plain Style.ofJson? style
    some ⟨text, style⟩
  | _ => none

/-- Writes a run. -/
def toJson (r : Run) : Json := .object [
  (some "text", .string (some r.text)), (some "style", r.style.toJson)]

end Run

namespace StyledText

/-- Reads a styled text from its runs. -/
def ofJson? (j : Json) : Option StyledText := (j.list? Run.ofJson?).map (⟨·⟩)

/-- Writes a styled text as its runs. -/
def toJson (t : StyledText) : Json := .array (t.runs.map Run.toJson)

end StyledText

namespace Alignment

/-- Reads an alignment. -/
def ofJson? (j : Json) : Option Alignment := do
  match ← j.word? with
  | "left" => some left
  | "center" => some center
  | "right" => some right
  | "justify" => some justify
  | _ => none

/-- The word for an alignment. -/
def render : Alignment → String
  | left => "left"
  | center => "center"
  | right => "right"
  | justify => "justify"

end Alignment

namespace ParagraphStyle

/-- Reads a paragraph style. -/
def ofJson? (j : Json) : Option ParagraphStyle := do
  match ← j.fields? ["align", "background"] with
  | [align, background] =>
    let align ← Json.orElse .left Alignment.ofJson? align
    let background ← Json.orElse none (Json.nullable? Color.ofJson?) background
    some ⟨align, background⟩
  | _ => none

/-- Writes a paragraph style. -/
def toJson (p : ParagraphStyle) : Json := .object [
  (some "align", .string (some p.align.render)),
  (some "background", (p.background.map Color.toJson).getD .null)]

end ParagraphStyle

namespace Attachment

/-- Reads a table or a list. -/
def ofJson? (j : Json) : Option Attachment := do
  match ← j.entry? with
  | ("table", v) => (v.list? (·.list? Json.string?)).map table
  | ("list", v) => (v.list? Json.string?).map list
  | _ => none

/-- Writes strings as an array. -/
def strings (ss : List String) : Json := .array (ss.map fun s => .string (some s))

/-- Writes a table or a list. -/
def toJson : Attachment → Json
  | table rows => .object [(some "table", .array (rows.map strings))]
  | list items => .object [(some "list", strings items)]

end Attachment

namespace MediaKind

/-- Reads the kind of a medium. -/
def ofJson? (j : Json) : Option MediaKind := do
  match ← j.word? with
  | "image" => some image
  | "audio" => some audio
  | _ => none

/-- The word for a kind of medium. -/
def render : MediaKind → String
  | image => "image"
  | audio => "audio"

end MediaKind

namespace Media

/-- Reads a medium. -/
def ofJson? (j : Json) : Option Media := do
  match ← j.fields? ["path", "kind"] with
  | [some path, kind] =>
    let path ← path.string?
    let kind ← Json.orElse .image MediaKind.ofJson? kind
    some ⟨path, kind⟩
  | _ => none

/-- Writes a medium. -/
def toJson (m : Media) : Json := .object [
  (some "path", .string (some m.path)), (some "kind", .string (some m.kind.render))]

end Media

namespace Block

/-- Reads a block. -/
def ofJson? (j : Json) : Option Block := do
  match ← j.fields? ["runs", "paragraph", "attachment", "media"] with
  | [runs, paragraph, attachment, media] =>
    let text ← Json.orElse .empty StyledText.ofJson? runs
    let paragraph ← Json.orElse .standard ParagraphStyle.ofJson? paragraph
    let attachment ← Json.orElse none (Json.nullable? Attachment.ofJson?) attachment
    let media ← Json.orElse [] (Json.list? Media.ofJson?) media
    some ⟨text, paragraph, attachment, media⟩
  | _ => none

/-- Writes a block. -/
def toJson (b : Block) : Json := .object [
  (some "runs", b.text.toJson), (some "paragraph", b.paragraph.toJson),
  (some "attachment", (b.attachment.map Attachment.toJson).getD .null),
  (some "media", .array (b.media.map Media.toJson))]

end Block

namespace Document

/-- Reads a document. -/
def ofJson? (j : Json) : Option Document := do
  match ← j.fields? ["title", "blocks"] with
  | [title, some blocks] =>
    let title ← Json.orElse "" Json.string? title
    let blocks ← blocks.list? Block.ofJson?
    some ⟨title, blocks⟩
  | _ => none

/-- Writes a document. -/
def toJson (d : Document) : Json := .object [
  (some "title", .string (some d.title)), (some "blocks", .array (d.blocks.map Block.toJson))]

/-- Reads a document from JSON text. -/
def parse? (s : String) : Option Document := Json.parse? s >>= ofJson?

/-- Writes a document as JSON text. -/
def render (d : Document) : String := d.toJson.render

end Document
end Manuscript
