/-
# Commands

A command is a name and its arguments. The name is the first word of what stands
between the brackets, and a separator may follow it. A command keeps its name
whatever is wrong with its arguments.

Key definitions: `Command`, `Command.splitName?`, `Command.parse?`.
-/
import Manuscript.Command.Argument
import Manuscript.Diagnostic

namespace Manuscript

/-- A command of a document. -/
structure Command where
  name : String
  args : Arguments
  /-- The text of the arguments as written. -/
  rawArgs : String
  /-- A disabled command is read and never carried out. -/
  disabled : Bool
  /-- The table or list that follows the command. -/
  attachment : Option Attachment
  loc : Loc
deriving Repr

namespace Command

/-- Writes a command. -/
def render (c : Command) : String := (Arg.call c.name c.args.positional c.args.keywords).render

/-- The character ends the name of a command. -/
def endsName (c : Char) : Bool :=
  Text.isBlank c || Mark.isSeparator c || Mark.isParenOpen c || Mark.isArgComma c
    || Mark.isAssign c || Mark.isElement c

/-- The text behind a separator, if one comes first after blanks. -/
def skipSeparator (cs : List Char) : List Char :=
  match Text.trimStart cs with
  | c :: rest => if Mark.isSeparator c then rest else cs
  | [] => cs

/-- The name at the front of a text and the text of its arguments; a name is not empty and
starts with no quote. -/
def takeName? (cs : List Char) : Option (List Char × List Char) :=
  let start := Text.trimStart cs
  let name := start.takeWhile (!endsName ·)
  match name with
  | [] => none
  | c :: _ =>
    if (Mark.closers? c).isSome then none
    else some (name, skipSeparator (start.dropWhile (!endsName ·)))

/-- The name at the front of a text and the byte at which its arguments start. -/
def splitName? (s : String) : Option (String × Nat) :=
  (takeName? s.toList).map fun (name, rest) =>
    (String.ofList name, Text.size s.toList - Text.size rest)

/-- Reads a command from the text between its brackets, with the diagnostic of malformed
arguments. The first medium mark of the text has the number `element`; there is no command
without a name. -/
def parse? (interior : String) (loc : Loc) (element : Nat) :
    Option (Command × List Diagnostic) := do
  let (name, rest) ← takeName? interior.toList
  let name := String.ofList name
  let base := Text.size interior.toList - Text.size rest
  let (args, failure) := Arguments.parse false (Token.scan base element rest)
  let command := ⟨name, args, String.ofList (Text.trim rest), false, none, loc⟩
  match failure with
  | none => some (command, [])
  | some f =>
    some (command, [.make .unrecognizedCommand
      [("name", name), ("reason", f.error.message)] (some loc)])

end Command
end Manuscript
