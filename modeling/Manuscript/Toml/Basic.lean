/-
# TOML values

The values that a TOML text stands for.

Key definitions: `Toml`, `Toml.Entries`.
-/
import Manuscript.Toml.Moment

namespace Manuscript

/-- A TOML value. Floats keep their text. -/
inductive Toml where
  | string (s : String)
  | integer (n : Int)
  | float (lexeme : String)
  | boolean (b : Bool)
  | moment (m : Moment)
  | array (items : List Toml)
  | table (entries : List (String × Toml))
deriving Repr, Inhabited

namespace Toml

/-- The names and values of a table. -/
abbrev Entries := List (String × Toml)

/-- The value under a name. -/
def Entries.get? (es : Entries) (key : String) : Option Toml := es.lookup key

end Toml

end Manuscript
