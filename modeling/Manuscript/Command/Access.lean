/-
# What commands ask of their arguments

A command takes its arguments as names, lists, tags, or paths. What is missing or
of the wrong kind is reported with the name of the command.

Key definitions: `Command.positionalText`, `Command.stateTags`, `Arg.asset?`,
`Attachment.pairs`.
-/
import Manuscript.Command.Basic
import Manuscript.Command.Vocabulary

namespace Manuscript

/-- The pieces of a text between list commas, bars and slashes, without blank ones. -/
def Text.listItems (s : String) : List String :=
  ((Text.splitBy (fun c => Mark.isListComma c || c == '|' || c == '/') s.toList).map
    Text.trim).filterMap fun item => if item.isEmpty then none else some (String.ofList item)

/-- What stands between the quotes of a quoted text; any other text as it is, trimmed. -/
def Text.unquoted (s : String) : String :=
  let cs := Text.trim s.toList
  match cs with
  | c :: d :: rest =>
    match Mark.closers? c, (d :: rest).getLast? with
    | some closers, some close =>
      if closers.contains close then String.ofList (d :: rest).dropLast else String.ofList cs
    | _, _ => String.ofList cs
  | _ => String.ofList cs

namespace Attachment

/-- A text and a target, split at the last separator; without one, the target is empty. -/
def splitPair (s : String) : String × String :=
  match Text.splitLast? Mark.isSeparator s.toList with
  | some (text, target) => (String.ofList (Text.trim text), String.ofList (Text.trim target))
  | none => (Text.trimmed s, "")

/-- The first two cells of a row; missing cells are empty. -/
def rowPair (row : List String) : String × String :=
  (Text.trimmed (row[0]?.getD ""), Text.trimmed (row[1]?.getD ""))

/-- A table or a list as pairs: the first two columns, or the two sides of each item. -/
def pairs : Attachment → List (String × String)
  | table rows => rows.map rowPair
  | list items => items.map splitPair

end Attachment

namespace Arg

/-- The path that a value names: a text, or the path of the medium it stands for. -/
def asset? (media : List Media) : Arg → Option String
  | text s | quoted s => let path := Text.trimmed s; if path.isEmpty then none else some path
  | element i => media[i]?.map (·.path)
  | call .. => none

/-- The name and the bare value of a call. -/
def call? : Arg → Option (String × Option Arg)
  | call name positional _ => some (name, positional)
  | _ => none

end Arg

namespace Command

/-- The value of a keyword in any of its spellings. -/
def keyword? (c : Command) (k : Keyword) : Option Arg := c.args.any? k.spellings

/-- The text of a keyword. -/
def keywordText? (c : Command) (k : Keyword) : Option String := c.keyword? k >>= Arg.text?

/-- The report of a missing argument. -/
def missing (c : Command) (arg : String) : Diagnostic :=
  .make .commandMissingArgument [("name", c.name), ("arg", arg)] (some c.loc)

/-- The report of an argument of the wrong kind. -/
def invalid (c : Command) (arg value : String) : Diagnostic :=
  .make .commandInvalidArgument [("name", c.name), ("arg", arg), ("value", value)] (some c.loc)

/-- The bare value as a name, which must be given: a text that is not blank, or the name of
a call. -/
def positionalText (c : Command) (arg : String) : Except Diagnostic String :=
  match c.args.positional with
  | none => .error (c.missing arg)
  | some (.call name _ _) => .ok name
  | some v =>
    match v.text? with
    | some s => if Text.allBlank s then .error (c.invalid arg v.render) else .ok (Text.trimmed s)
    | none => .error (c.invalid arg v.render)

/-- The text in the parentheses of a bare value that is a call. -/
def callText? (c : Command) : Option String := do
  let (_, positional) ← c.args.positional >>= Arg.call?
  positional >>= Arg.text?

/-- The tags written in the parentheses behind the name, then those of the state keyword. -/
def stateTags (c : Command) : List String :=
  (c.callText?.map Text.words).getD [] ++ ((c.keywordText? .state).map Text.words).getD []

end Command
end Manuscript
