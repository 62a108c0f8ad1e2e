/-
# Settings

What a compilation can be told from outside, in two sections: how a document is
read, and how the script is written.

Key definitions: `Settings`, `FrontendSettings`, `CodegenSettings`.
-/

namespace Manuscript

/-- What becomes of a command to show a character that is on screen already. -/
inductive ReentrantShow where
  /-- It is reported and dropped. -/
  | reject
  /-- It changes the character's state. -/
  | updateState
deriving Repr, DecidableEq

/-- How a document is read. -/
structure FrontendSettings where
  /-- The function of a document without a title. -/
  defaultFunctionName : String := "start"
  /-- The greatest length of a speaker's name, in characters. -/
  maxNameChars : Nat := 24
  /-- Who speaks the narration in the transcript. -/
  narratorName : String := "narrator"
deriving Repr, DecidableEq

/-- How the script is written. -/
structure CodegenSettings where
  indentWidth : Nat := 4
  /-- The placeholder art of characters. -/
  characterPlaceholderBase : String := "girl"
  /-- The placeholder art of scenes. -/
  scenePlaceholderBase : String := "bg"
  reentrantShow : ReentrantShow := .reject
  emitComments : Bool := true
  headerComment : Bool := true
deriving Repr, DecidableEq

/-- All settings. -/
structure Settings where
  frontend : FrontendSettings := {}
  codegen : CodegenSettings := {}
deriving Repr, DecidableEq

end Manuscript
