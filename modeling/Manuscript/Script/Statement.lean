/-
# Statements of a script

A script is a list of lines, each a statement at a depth. `Statement.render` is
the text of a statement and `Line.render` puts it behind its margin and before a
line end.

Key definitions: `Script.Statement`, `Script.Line`, `Script.render`.
-/
import Manuscript.Program.Basic
import Manuscript.Script.Escape
import Manuscript.Text.Split

namespace Manuscript.Script

/-- The picture that an image statement defines. -/
inductive Art where
  | file (path : String)
  /-- Drawn by the engine: a stock figure with a text. -/
  | placeholder (base text : String)
deriving Repr, DecidableEq

/-- A text in double quotes. -/
def quoted (s : String) : String := "\"" ++ escape s ++ "\""

/-- Writes a picture as an expression of the script. -/
def Art.render : Art → String
  | file path => quoted path
  | placeholder base text => "Placeholder(" ++ quoted base ++ ", text=" ++ quoted text ++ ")"

/-- A statement of a script. -/
inductive Statement where
  | blank
  | comment (text : String)
  /-- Defines a character under an identifier. -/
  | define (name : String) (character : Character)
  | image (name : String) (art : Art)
  | label (name : String)
  /-- A line of dialogue: who speaks it, the state it puts them in, and the words. -/
  | say (speaker : Option String) (attributes : Option String) (content : StyledText)
  | showImage (name : String)
  | hideImage (name : String)
  /-- Changes to a background, or to none. -/
  | scene (background : Option String)
  | play (channel : Channel) (path : String)
  | jump (target : String)
  | call (target : String)
  | menu
  /-- An arm of the menu above it. -/
  | choice (text : String)
  | ret
  | pass
  /-- A line that the document gives as it is. -/
  | verbatim (text : String)
deriving Repr, DecidableEq

/-- An optional colour argument of a character. -/
def colorArgument (name : String) : Option Color → String
  | some c => ", " ++ name ++ "=\"" ++ c.render ++ "\""
  | none => ""

/-- The text on one line: every line break is a space. -/
def oneLine (s : String) : String := Text.replaceAll "\n" " " s

/-- Writes a statement. -/
def Statement.render : Statement → String
  | blank => ""
  | comment text => "# " ++ oneLine text
  | define name c =>
    "define " ++ name ++ " = Character(" ++ quoted c.name ++ ", image=\"" ++ name ++ "\""
      ++ colorArgument "who_color" c.nameColor ++ colorArgument "what_color" c.contentColor ++ ")"
  | image name art => "image " ++ name ++ " = " ++ art.render
  | label name => "label " ++ name ++ ":"
  | say speaker attributes content =>
    Text.join " " (speaker.toList ++ attributes.toList ++ ["\"" ++ markup content ++ "\""])
  | showImage name => "show " ++ name
  | hideImage name => "hide " ++ name
  | scene (some background) => "scene bg " ++ background
  | scene none => "scene"
  | play channel path => "play " ++ channel.render ++ " " ++ quoted path
  | jump target => "jump " ++ target
  | call target => "call " ++ target
  | menu => "menu:"
  | choice text => quoted text ++ ":"
  | ret => "return"
  | pass => "pass"
  | verbatim text => text

/-- A statement at a depth. -/
structure Line where
  depth : Nat
  statement : Statement
deriving Repr, DecidableEq

/-- Writes a line; `width` spaces for every step of depth stand before it. -/
def Line.render (width : Nat) (l : Line) : String :=
  String.ofList (List.replicate (l.depth * width) ' ') ++ l.statement.render ++ "\n"

/-- Writes a script. -/
def render (width : Nat) (lines : List Line) : String := String.join (lines.map (·.render width))

end Manuscript.Script
