/-
# Documents are read back from JSON

A document that is written as JSON is read back as it was, whatever its texts, styles,
colours, tables, lists and media are, and in either layout
(`Document.parse?_printed`). Reading the value that was written gives back each part
from its own fields (`*.ofJson?_toJson`), and the value holds only what a text can hold
(`*.textual_toJson`), so its text is read as the value.

Key theorems: `Color.parse?_render`, `Block.ofJson?_toJson`, `Document.ofJson?_toJson`,
`Document.textual_toJson`, `Document.parse?_printed`.
-/
import Manuscript.Document.Json
import Manuscript.Proofs.Json.Written
import Manuscript.Proofs.Text.Trim

namespace Manuscript

/-! ### Colours -/

/-- A text without blanks is trimmed. -/
theorem Text.trim_of_forall {cs : List Char} (h : ∀ c ∈ cs, Text.isBlank c = false) :
    Text.trim cs = cs := by
  have hstart : ∀ {ds : List Char}, (∀ c ∈ ds, Text.isBlank c = false) → Text.trimStart ds = ds :=
    fun hds => Text.trimStart_of_startsOff fun c hc => hds c (List.mem_of_mem_head? hc)
  have hend := @hstart cs.reverse fun c hc => h c (List.mem_reverse.1 hc)
  unfold Text.trimStart at hend
  rw [Text.trim, hstart h, Text.trimEnd, hend, List.reverse_reverse]

namespace Color

theorem byte?_digits (b : UInt8) :
    byte? (Text.hexDigit (b.toNat / 16)) (Text.hexDigit (b.toNat % 16)) = some b := by
  have hlt : b.toNat < 256 := b.toNat_lt
  have hsum : 16 * (b.toNat / 16) + b.toNat % 16 = b.toNat := by omega
  simp only [byte?, Text.hexDigit?_hexDigit (show b.toNat / 16 < 16 by omega),
    Text.hexDigit?_hexDigit (show b.toNat % 16 < 16 by omega), Option.bind_eq_bind,
    Option.bind_some, hsum, UInt8.ofNat_toNat]

theorem ofDigits?_digits (c : Color) :
    ofDigits? (digits c.red ++ digits c.green ++ digits c.blue) = some c := by
  simp only [digits, List.cons_append, List.nil_append, ofDigits?, byte?_digits,
    Option.bind_eq_bind, Option.bind_some]

/-- **A colour is read back.** -/
theorem parse?_render (c : Color) : parse? c.render = some c := by
  have hblank : ∀ d ∈ c.render.toList, Text.isBlank d = false :=
    forall_mem_render (by decide) (by decide) c
  rw [parse?, Text.trim_of_forall hblank, render, String.toList_ofList]
  exact ofDigits?_digits c

example : render ⟨171, 205, 239⟩ = "#abcdef" ∧ parse? "#ABCDEF" = some ⟨171, 205, 239⟩ := by
  decide

theorem ofJson?_toJson (c : Color) : ofJson? c.toJson = some c := by
  simp [ofJson?, toJson, Json.string?, parse?_render]

end Color

/-! ### Values that stand for nothing -/

namespace Json

theorem nullable?_getD {α : Type} {f : Json → Option α} {g : α → Json}
    (h : ∀ a, f (g a) = some a) (hnull : ∀ a, g a ≠ .null) (o : Option α) :
    nullable? f ((o.map g).getD .null) = some o := by
  cases o with
  | none => rfl
  | some a =>
    have hne := hnull a
    rw [Option.map_some, Option.getD_some]
    unfold nullable?
    split
    · rename_i heq
      exact absurd heq hne
    · rw [h, Option.map_some]

theorem textual_getD {α : Type} {g : α → Json} (h : ∀ a, Textual (g a)) (o : Option α) :
    Textual ((o.map g).getD .null) := by
  cases o with
  | none => exact .null
  | some a => exact h a

theorem mapM_map {α : Type} {f : Json → Option α} {g : α → Json} (h : ∀ a, f (g a) = some a)
    (xs : List α) : (xs.map g).mapM f = some xs := by
  induction xs with
  | nil => rfl
  | cons x xs ih => simp [h, ih]

theorem list?_map {α : Type} {f : Json → Option α} {g : α → Json} (h : ∀ a, f (g a) = some a)
    (xs : List α) : list? f (.array (xs.map g)) = some xs := mapM_map h xs

theorem textual_emptyObject : Textual (.object []) := .object (by simp) (by simp)

/-- An entry in front of an object. -/
theorem Textual.entry {name : String} {j : Json} {entries : List (Option String × Json)}
    (hj : Textual j) (h : Textual (.object entries)) :
    Textual (.object ((some name, j) :: entries)) := by
  cases h with
  | object hnames hvalues =>
    exact .object (List.forall_mem_cons.2 ⟨rfl, hnames⟩) (List.forall_mem_cons.2 ⟨hj, hvalues⟩)

theorem textual_map {α : Type} {g : α → Json} (h : ∀ a, Textual (g a)) (xs : List α) :
    Textual (.array (xs.map g)) := by
  refine .array fun j hj => ?_
  obtain ⟨a, -, rfl⟩ := List.mem_map.1 hj
  exact h a

end Json

/-! ### Styled text -/

theorem Style.ofJson?_toJson (s : Style) : Style.ofJson? s.toJson = some s := by
  have hcolor := Json.nullable?_getD Color.ofJson?_toJson (by simp [Color.toJson]) s.color
  simp [ofJson?, toJson, Json.fields?, Json.valuesOf, Json.orElse, Json.bool?, hcolor]

theorem Run.ofJson?_toJson (r : Run) : Run.ofJson? r.toJson = some r := by
  simp [ofJson?, toJson, Json.fields?, Json.valuesOf, Json.orElse, Json.string?,
    Style.ofJson?_toJson]

theorem StyledText.ofJson?_toJson (t : StyledText) : StyledText.ofJson? t.toJson = some t := by
  rw [ofJson?, toJson, Json.list?_map Run.ofJson?_toJson, Option.map_some]

/-! ### Blocks -/

theorem Alignment.ofJson?_string (a : Alignment) :
    Alignment.ofJson? (.string (some a.render)) = some a := by
  cases a <;> simp [ofJson?, render, Json.word?]

theorem ParagraphStyle.ofJson?_toJson (p : ParagraphStyle) :
    ParagraphStyle.ofJson? p.toJson = some p := by
  have hbackground := Json.nullable?_getD Color.ofJson?_toJson (by simp [Color.toJson]) p.background
  simp [ofJson?, toJson, Json.fields?, Json.valuesOf, Json.orElse, Alignment.ofJson?_string,
    hbackground]

theorem Attachment.list?_strings (ss : List String) :
    Json.list? Json.string? (strings ss) = some ss :=
  Json.list?_map (g := fun s => .string (some s)) (fun _ => rfl) ss

theorem Attachment.ofJson?_toJson (a : Attachment) : Attachment.ofJson? a.toJson = some a := by
  cases a with
  | table rows => simp [ofJson?, toJson, Json.entry?, Json.list?_map list?_strings]
  | list items => simp [ofJson?, toJson, Json.entry?, list?_strings]

theorem MediaKind.ofJson?_string (k : MediaKind) :
    MediaKind.ofJson? (.string (some k.render)) = some k := by
  cases k <;> simp [ofJson?, render, Json.word?]

theorem Media.ofJson?_toJson (m : Media) : Media.ofJson? m.toJson = some m := by
  simp [ofJson?, toJson, Json.fields?, Json.valuesOf, Json.orElse, Json.string?,
    MediaKind.ofJson?_string]

theorem Block.ofJson?_toJson (b : Block) : Block.ofJson? b.toJson = some b := by
  have hattachment := Json.nullable?_getD Attachment.ofJson?_toJson
    (fun a => by cases a <;> simp [Attachment.toJson]) b.attachment
  simp [ofJson?, toJson, Json.fields?, Json.valuesOf, Json.orElse, StyledText.ofJson?_toJson,
    ParagraphStyle.ofJson?_toJson, hattachment, Json.list?_map Media.ofJson?_toJson]

/-! ### What is written is text -/

theorem Style.textual_toJson (s : Style) : s.toJson.Textual :=
  .entry (.bool _) (.entry (.bool _)
    (.entry (Json.textual_getD (fun _ => .string _) s.color) Json.textual_emptyObject))

theorem Run.textual_toJson (r : Run) : r.toJson.Textual :=
  .entry (.string _) (.entry r.style.textual_toJson Json.textual_emptyObject)

theorem ParagraphStyle.textual_toJson (p : ParagraphStyle) : p.toJson.Textual :=
  .entry (.string _)
    (.entry (Json.textual_getD (fun _ => .string _) p.background) Json.textual_emptyObject)

theorem Attachment.textual_strings (ss : List String) : (strings ss).Textual :=
  Json.textual_map (fun s => .string s) ss

theorem Attachment.textual_toJson (a : Attachment) : a.toJson.Textual := by
  cases a with
  | table rows => exact .entry (Json.textual_map textual_strings rows) Json.textual_emptyObject
  | list items => exact .entry (textual_strings items) Json.textual_emptyObject

theorem Media.textual_toJson (m : Media) : m.toJson.Textual :=
  .entry (.string _) (.entry (.string _) Json.textual_emptyObject)

theorem Block.textual_toJson (b : Block) : b.toJson.Textual :=
  .entry (Json.textual_map Run.textual_toJson b.text.runs) (.entry b.paragraph.textual_toJson
    (.entry (Json.textual_getD Attachment.textual_toJson b.attachment)
      (.entry (Json.textual_map Media.textual_toJson b.media) Json.textual_emptyObject)))

/-! ### Documents -/

namespace Document

theorem ofJson?_toJson (d : Document) : ofJson? d.toJson = some d := by
  simp [ofJson?, toJson, Json.fields?, Json.valuesOf, Json.orElse, Json.string?,
    Json.list?_map Block.ofJson?_toJson]

theorem textual_toJson (d : Document) : d.toJson.Textual :=
  .entry (.string _)
    (.entry (Json.textual_map Block.textual_toJson d.blocks) Json.textual_emptyObject)

/-- A text that writes the value of a document is read as the document. -/
theorem parse?_of_written {d : Document} {s : String} (h : d.toJson.Written s.toList) :
    parse? s = some d := by
  rw [parse?, h.parse?]
  exact d.ofJson?_toJson

/-- **Documents are read back.** Whatever a document holds, its JSON text, without white space or
with every part on a line of its own, is read as the document. -/
theorem parse?_printed (d : Document) :
    parse? d.render = some d ∧ parse? d.toJson.pretty = some d :=
  ⟨parse?_of_written (Json.written_render d.textual_toJson),
    parse?_of_written (Json.written_prettyAt d.textual_toJson 0)⟩

end Document
end Manuscript
