/-
# Sections of settings

A configuration table holds one section for each group of settings. A section
names its fields, or lists them in their order; a field that is left out keeps
its default, and a name that is no field is passed over. A section with one
value of the wrong kind counts as a whole as left out, and takes nothing from
the other section.

Key definitions: `Settings.ofTable`, `Toml.fields?`.
-/
import Manuscript.Settings.Basic
import Manuscript.Toml.Basic

namespace Manuscript

namespace Toml

/-- The values of the fields of a section, `none` for those left out. -/
def fields? (names : List String) : Toml → Option (List (Option Toml))
  | table es => some (names.map (Entries.get? es))
  | array items =>
    if items.length ≤ names.length then
      some (items.map some ++ List.replicate (names.length - items.length) none)
    else none
  | _ => none

/-- A text; a moment counts as its text. -/
def string? : Toml → Option String
  | string s => some s
  | moment m => some (String.ofList m.render)
  | _ => none

/-- A truth value. -/
def boolean? : Toml → Option Bool
  | boolean b => some b
  | _ => none

/-- A number that is not negative. -/
def natural? : Toml → Option Nat
  | integer n => if 0 ≤ n then some n.toNat else none
  | _ => none

/-- An array or a table with nothing in it. -/
def isVoid : Toml → Bool
  | array [] => true
  | table [] => true
  | _ => false

/-- A word, or a table whose one entry is the word with nothing under it. -/
def word? : Toml → Option String
  | string s => some s
  | table [(s, value)] => if isVoid value then some s else none
  | _ => none

end Toml

/-- The word of a policy. -/
def ReentrantShow.word : ReentrantShow → String
  | reject => "reject"
  | updateState => "update_state"

/-- The policy of a word. -/
def ReentrantShow.ofWord? (s : String) : Option ReentrantShow :=
  [reject, updateState].find? (·.word == s)

/-- A field that must fit if it is there. -/
def fieldOr {α : Type} (usual : α) (read : Toml → Option α) : Option Toml → Option α
  | none => some usual
  | some value => read value

/-- The names of the fields of the reading section. -/
def FrontendSettings.fieldNames : List String :=
  ["default_function_name", "max_name_chars", "narrator_name"]

/-- The reading section. -/
def FrontendSettings.ofToml? (t : Toml) : Option FrontendSettings := do
  let usual : FrontendSettings := {}
  let [name, width, narrator] ← t.fields? fieldNames | none
  some {
    defaultFunctionName := ← fieldOr usual.defaultFunctionName Toml.string? name
    maxNameChars := ← fieldOr usual.maxNameChars Toml.natural? width
    narratorName := ← fieldOr usual.narratorName Toml.string? narrator }

/-- The names of the fields of the writing section. -/
def CodegenSettings.fieldNames : List String :=
  ["indent_width", "character_placeholder_base", "scene_placeholder_base", "reentrant_show",
    "emit_comments", "header_comment"]

/-- The writing section. -/
def CodegenSettings.ofToml? (t : Toml) : Option CodegenSettings := do
  let usual : CodegenSettings := {}
  let [indent, character, scene, policy, comments, header] ← t.fields? fieldNames | none
  some {
    indentWidth := ← fieldOr usual.indentWidth Toml.natural? indent
    characterPlaceholderBase := ← fieldOr usual.characterPlaceholderBase Toml.string? character
    scenePlaceholderBase := ← fieldOr usual.scenePlaceholderBase Toml.string? scene
    reentrantShow := ← fieldOr usual.reentrantShow (fun v => v.word?.bind ReentrantShow.ofWord?) policy
    emitComments := ← fieldOr usual.emitComments Toml.boolean? comments
    headerComment := ← fieldOr usual.headerComment Toml.boolean? header }

/-- The settings of a configuration table. -/
def Settings.ofTable (es : Toml.Entries) : Settings where
  frontend := ((es.get? "frontend").bind FrontendSettings.ofToml?).getD {}
  codegen := ((es.get? "codegen").bind CodegenSettings.ofToml?).getD {}

end Manuscript
