/-
# The state of an assembly

While a program is put together from the items of a document, its characters,
scenes, images and functions grow, together with the reports. A character that is
mentioned before it is known is declared on the spot, and reported.

Key definitions: `Assembly`, `Assembly.character`, `Assembly.emit`.
-/
import Manuscript.Assembly.Item
import Manuscript.Flow.Op
import Manuscript.Identifier
import Manuscript.Program.Speakers
import Manuscript.Settings.Basic

namespace Manuscript

/-- A program that is being put together. -/
structure Assembly where
  title : String
  characters : List Character
  scenes : List Scene
  images : List DisplayImage
  procedures : List Procedure
  /-- The function that takes the next step; none drops it. -/
  current : Option FunctionId
  speakers : Speakers
  imageIds : Namer
  diags : List Diagnostic
deriving Repr

namespace Assembly

/-- The start of an assembly. -/
def fresh (title : String) (diags : List Diagnostic) : Assembly :=
  ⟨title, [], [], [], [], none, .fresh, .fresh, diags⟩

/-- Adds a report. -/
def report (a : Assembly) (d : Diagnostic) : Assembly := { a with diags := a.diags ++ [d] }

/-- The first character that answers to a name. -/
def findCharacter? (a : Assembly) (name : String) : Option CharacterId :=
  a.characters.findIdx? (·.answersTo name)

/-- Adds a character. -/
def addCharacter (a : Assembly) (c : Character) : CharacterId × Assembly :=
  (a.characters.length, { a with characters := a.characters ++ [c] })

/-- The character of a name. One that is not known is declared implicitly and reported under
the code. -/
def character (a : Assembly) (name : String) (code : Code) (loc : Loc) : CharacterId × Assembly :=
  match a.findCharacter? name with
  | some id => (id, a)
  | none =>
    (a.report (.make code [("name", name)] (some loc))).addCharacter
      { Character.ofName name with implicit := true }

/-- The characters of several names in turn. -/
def charactersOf (a : Assembly) (code : Code) (loc : Loc) :
    List String → List CharacterId × Assembly
  | [] => ([], a)
  | name :: rest =>
    let (id, a) := a.character name code loc
    let (ids, a) := a.charactersOf code loc rest
    (id :: ids, a)

/-- Changes a character. -/
def modifyCharacter (a : Assembly) (id : CharacterId) (f : Character → Character) : Assembly :=
  { a with characters := a.characters.modify id f }

/-- Adds a step to the function that takes steps, if there is one. -/
def emit (a : Assembly) (step : Step) (loc : Loc) : Assembly :=
  match a.current with
  | some i =>
    { a with procedures := a.procedures.modify i fun p => { p with ops := p.ops ++ [⟨step, loc⟩] } }
  | none => a

/-- Opens a function, which takes the steps from now on. -/
def openFunction (a : Assembly) (name : String) (loc : Loc) : Assembly :=
  { a with
    procedures := a.procedures ++ [⟨name, [], loc⟩]
    current := some a.procedures.length }

/-- The program without its functions. -/
def program (a : Assembly) : Program := ⟨a.title, a.characters, a.scenes, a.images, []⟩

end Assembly
end Manuscript
