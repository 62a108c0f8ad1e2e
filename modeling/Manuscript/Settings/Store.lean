/-
# The store of the settings

A store is filled once, from a file or from a text, and read any number of
times. Nothing in the text stops it: a file that is not there counts as an empty
text, and a text that is not TOML as an empty table. A path that is there and
cannot be read does, and leaves the store as it is.

Key definitions: `Store`, `Store.fill`, `Store.load`, `Store.settings`.
-/
import Manuscript.Settings.Folder
import Manuscript.Settings.Section
import Manuscript.Text.Visible
import Manuscript.Toml.Reader

namespace Manuscript

/-- Why a store was not filled. -/
inductive StoreError where
  | alreadyFilled
  | unreadable (path : String)
deriving Repr, DecidableEq

/-- A character inside a quoted path. Quotes of both kinds and the backslash stand behind a
backslash, and what is not visible is named by its code point. -/
def escapePathChar (c : Char) : List Char :=
  if ['"', '\x27', '\\'].contains c then ['\\', c]
  else if c == '\n' then ['\\', 'n']
  else if c == '\r' then ['\\', 'r']
  else if c == '\t' then ['\\', 't']
  else if c.toNat == 0 then ['\\', '0']
  else if Text.isVisible c then [c]
  else ['\\', 'u', '\x7b'] ++ Nat.toDigits 16 c.toNat ++ ['\x7d']

/-- A path in quotes. -/
def quotePath (path : String) : String :=
  String.ofList ('"' :: path.toList.flatMap escapePathChar ++ ['"'])

/-- The wording of an error. -/
def StoreError.message : StoreError → String
  | alreadyFilled => "Config already initialized"
  | unreadable path => "Failed to read config " ++ quotePath path

/-- A store of settings: the table it was filled with, if it was. -/
structure Store where
  table? : Option Toml.Entries := none
deriving Repr

namespace Store

/-- Whether the store was filled. -/
def isFilled (s : Store) : Bool := s.table?.isSome

/-- Fills a store with a text. -/
def fill (s : Store) (text : String) : Except StoreError Store :=
  if s.isFilled then .error .alreadyFilled else .ok ⟨some ((Toml.parse? text).getD [])⟩

/-- Fills a store with the file at a path. -/
def load (s : Store) (d : Folder) (path : String) : Except StoreError Store :=
  match d.find? path with
  | none => s.fill ""
  | some (.file content) => s.fill content
  | some .directory => .error (.unreadable path)

/-- The settings that the store gives, the defaults if it was not filled. -/
def settings (s : Store) : Settings := (s.table?.map Settings.ofTable).getD {}

end Store

end Manuscript
