/-
# Identifiers

Names in a document can be any text; the script wants identifiers. A name is
turned into one by keeping its identifier characters in lower case and putting an
underscore for every stretch of others. A namer hands out identifiers that differ
from all it handed out or set aside before: the first of `x`, `x_2`, `x_3`, ...
that is free.

Key definitions: `Identifier.sanitize`, `Namer`, `Namer.claim`, `Namer.reserve`.
-/
import Manuscript.Text.Blank
import Manuscript.Text.IdentChar
import Manuscript.Text.Lowercase

namespace Manuscript

namespace Identifier

/-- Words that the script language keeps for itself. -/
def reserved : List String := [
  "and", "as", "assert", "async", "await", "break", "class", "continue", "def", "del", "elif",
  "else", "except", "finally", "for", "from", "global", "if", "import", "in", "is", "lambda",
  "nonlocal", "not", "or", "pass", "raise", "return", "try", "while", "with", "yield", "none",
  "true", "false", "narrator", "extend", "centered", "vcentered", "adv", "nvl", "name_only",
  "store", "config", "renpy", "layout", "ui", "im", "style", "menu", "label", "jump", "call",
  "scene", "show", "hide", "play", "stop", "image", "define", "default", "voice"]

/-- Writes one character of a name behind what is written already: in lower case if it may
stand in an identifier, else as an underscore unless one stands there. -/
def write (out : List Char) (c : Char) : List Char :=
  if Text.isIdentContinue c then out ++ Text.lower c
  else if out.getLast? = some '_' then out
  else out ++ ['_']

/-- Drops the underscores at both ends. -/
def trimUnderscores (cs : List Char) : List Char :=
  ((cs.dropWhile (· == '_')).reverse.dropWhile (· == '_')).reverse

/-- Makes a text start like an identifier. -/
def fixStart : List Char → List Char
  | [] => ['i', 'd']
  | c :: cs => if Text.isIdentStart c then c :: cs else 'n' :: '_' :: c :: cs

/-- Sets a reserved word apart by an underscore. -/
def avoidReserved (s : String) : String := if reserved.contains s then s ++ "_" else s

/-- The identifier of a name. -/
def sanitize (name : String) : String :=
  avoidReserved (String.ofList (fixStart (trimUnderscores ((Text.trim name.toList).foldl write []))))

/-- The n-th identifier to try for a base: the base itself, then numbered from two on. -/
def candidate (base : String) : Nat → String
  | 0 => base
  | n + 1 => base ++ "_" ++ toString (n + 2)

end Identifier

/-- What has been handed out or set aside. -/
structure Namer where
  used : List String
deriving Repr, DecidableEq

namespace Namer

/-- The namer that has handed out nothing. -/
def fresh : Namer := ⟨[]⟩

/-- Sets an identifier aside. -/
def reserve (n : Namer) (ident : String) : Namer := ⟨ident :: n.used⟩

/-- The first free identifier for a base. One of the first `used.length + 1` candidates is
free, since they are all different. -/
def pick (n : Namer) (base : String) : String :=
  match (List.range (n.used.length + 1)).find? fun k => !n.used.contains (Identifier.candidate base k) with
  | some k => Identifier.candidate base k
  | none => base

/-- Hands out an identifier for a name. -/
def claim (n : Namer) (name : String) : String × Namer :=
  let ident := n.pick (Identifier.sanitize name)
  (ident, n.reserve ident)

/-- Hands out identifiers for several names in turn. -/
def claimAll (n : Namer) : List String → List String × Namer
  | [] => ([], n)
  | name :: rest =>
    let (ident, n) := n.claim name
    let (idents, n) := n.claimAll rest
    (ident :: idents, n)

end Namer
end Manuscript
