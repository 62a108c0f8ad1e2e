/-
# Diagnostics

A diagnostic reports what was odd in a document and what was done about it; none
stops a compilation. Each has a code, and the code fixes its severity and the
template of its message. The holes of a template are filled one parameter after
the other, in the order given, each filling looking at the message so far.

Key definitions: `Loc`, `Severity`, `Code`, `Code.template`, `Diagnostic`,
`Diagnostic.make`, `Diagnostic.render`.
-/
import Manuscript.Text.Split

namespace Manuscript

/-- A place in a document: a block and a span of bytes of its plain text. -/
structure Loc where
  block : Nat
  start : Nat
  stop : Nat
deriving Repr, DecidableEq, Inhabited

namespace Loc

/-- The place of a whole block. -/
def ofBlock (block : Nat) : Loc := ⟨block, 0, 0⟩

/-- Writes a place; the span is left out if it is empty. -/
def render (l : Loc) : String :=
  if l.start = l.stop then s!"block {l.block}" else s!"block {l.block}:{l.start}..{l.stop}"

end Loc

/-- How grave a diagnostic is, the least grave first. -/
inductive Severity where
  | info
  | warning
  | error
deriving Repr, DecidableEq

namespace Severity

/-- The word for a severity. -/
def render : Severity → String
  | info => "info"
  | warning => "warning"
  | error => "error"

/-- The place of a severity in the order of gravity. -/
def rank : Severity → Nat
  | info => 0
  | warning => 1
  | error => 2

/-- The graver of two severities. -/
def worse (a b : Severity) : Severity := if a.rank ≤ b.rank then b else a

end Severity

/-- What a diagnostic is about. -/
inductive Code where
  | unrecognizedCommand
  | commandUnknown
  | commandMissingArgument
  | commandInvalidArgument
  | sayerImplicit
  | characterUnresolved
  | characterDuplicate
  | characterStateEmpty
  | characterStateError
  | sceneNotFound
  | sceneDuplicate
  | functionDuplicate
  | functionNotFound
  | labelNotFound
  | labelCrossFunction
  | labelDuplicate
  | unhandledNode
  | stateMergeCompensated
  | flowInvalid
deriving Repr, DecidableEq

namespace Code

/-- All codes. -/
def all : List Code := [
  unrecognizedCommand, commandUnknown, commandMissingArgument, commandInvalidArgument,
  sayerImplicit, characterUnresolved, characterDuplicate, characterStateEmpty,
  characterStateError, sceneNotFound, sceneDuplicate, functionDuplicate, functionNotFound,
  labelNotFound, labelCrossFunction, labelDuplicate, unhandledNode, stateMergeCompensated,
  flowInvalid]

/-- The name under which a code is reported. -/
def name : Code → String
  | unrecognizedCommand => "unrecognized-command"
  | commandUnknown => "command-unknown"
  | commandMissingArgument => "command-missing-argument"
  | commandInvalidArgument => "command-invalid-argument"
  | sayerImplicit => "sayer-implicit-decl"
  | characterUnresolved => "character-nameresolution-failed"
  | characterDuplicate => "character-duplicate"
  | characterStateEmpty => "character-state-empty"
  | characterStateError => "character-stateerror"
  | sceneNotFound => "scene-notfound"
  | sceneDuplicate => "scene-duplicate"
  | functionDuplicate => "function-duplicate"
  | functionNotFound => "function-notfound"
  | labelNotFound => "label-notfound"
  | labelCrossFunction => "label-cross-function"
  | labelDuplicate => "label-duplicate"
  | unhandledNode => "unhandled-node-in-terminated-block"
  | stateMergeCompensated => "state-merge-compensated"
  | flowInvalid => "cfg-invalid"

/-- The family of a code: its name up to the first hyphen. -/
def family (c : Code) : String := String.ofList (c.name.toList.takeWhile (· != '-'))

/-- The severity of a code. -/
def severity : Code → Severity
  | sayerImplicit | stateMergeCompensated => .info
  | commandMissingArgument | functionNotFound | labelNotFound | labelCrossFunction
  | flowInvalid => .error
  | _ => .warning

/-- The hole of a template that the parameter `key` fills. -/
def hole (key : String) : String := "\x7b" ++ key ++ "\x7d"

/-- The message of a code before its holes are filled. -/
def template : Code → String
  | unrecognizedCommand =>
    "command '" ++ hole "name" ++ "' could not be parsed completely: " ++ hole "reason"
  | commandUnknown => "unknown command '" ++ hole "name" ++ "'"
  | commandMissingArgument =>
    "command '" ++ hole "name" ++ "' requires argument '" ++ hole "arg" ++ "'"
  | commandInvalidArgument =>
    "command '" ++ hole "name" ++ "': invalid value '" ++ hole "value" ++ "' for '" ++ hole "arg"
      ++ "'"
  | sayerImplicit =>
    "speaker '" ++ hole "name" ++ "' is not declared; declared implicitly with default style"
  | characterUnresolved =>
    "character '" ++ hole "name" ++ "' cannot be resolved; declared implicitly"
  | characterDuplicate =>
    "character '" ++ hole "name" ++ "' is already declared; later style settings are ignored"
  | characterStateEmpty =>
    "character '" ++ hole "name" ++ "' has no sprite state matching '" ++ hole "state" ++ "'"
  | characterStateError => "character '" ++ hole "name" ++ "': " ++ hole "reason"
  | sceneNotFound =>
    "scene '" ++ hole "name" ++ "' is not declared; created without background"
  | sceneDuplicate =>
    "scene '" ++ hole "name" ++ "' is already declared; this declaration is ignored"
  | functionDuplicate =>
    "function '" ++ hole "name" ++ "' is declared more than once; the later body is discarded"
  | functionNotFound => "call target '" ++ hole "name" ++ "' is not a function"
  | labelNotFound =>
    "jump target '" ++ hole "name" ++ "' is neither a label of '" ++ hole "function"
      ++ "' nor a function"
  | labelCrossFunction =>
    "label '" ++ hole "name" ++ "' belongs to function '" ++ hole "owner" ++ "', not '"
      ++ hole "function" ++ "'; edge dropped"
  | labelDuplicate =>
    "label '" ++ hole "name" ++ "' is declared again later in '" ++ hole "function"
      ++ "'; this declaration is ignored"
  | unhandledNode =>
    "'" ++ hole "node" ++ "' follows a terminator and can never run; dropped"
  | stateMergeCompensated =>
    hole "count" ++ " instruction(s) added on the path from '" ++ hole "from"
      ++ "' to match the state entering '" ++ hole "to" ++ "'"
  | flowInvalid => "function '" ++ hole "function" ++ "': " ++ hole "reason"

/-- The message of a code with its holes filled by the parameters, one after the other. -/
def message (c : Code) (params : List (String × String)) : String :=
  params.foldl (fun text (key, value) => Text.replaceAll (hole key) value text) c.template

end Code

/-- A report on a document. -/
structure Diagnostic where
  code : Code
  message : String
  loc : Option Loc
deriving Repr, DecidableEq

namespace Diagnostic

/-- The diagnostic of a code with its parameters, at a place or none. -/
def make (code : Code) (params : List (String × String)) (loc : Option Loc) : Diagnostic :=
  ⟨code, code.message params, loc⟩

/-- The severity of a diagnostic is that of its code. -/
def severity (d : Diagnostic) : Severity := d.code.severity

/-- Writes a diagnostic on one line. -/
def render (d : Diagnostic) : String :=
  let head := s!"{d.severity.render}[{d.code.name}]: {d.message}"
  match d.loc with
  | some l => s!"{head} ({l.render})"
  | none => head

/-- Some diagnostic of the list is an error. -/
def anyError (ds : List Diagnostic) : Bool := ds.any (·.severity == .error)

/-- How many diagnostics of the list have the code. -/
def countOf (ds : List Diagnostic) (c : Code) : Nat := (ds.filter (·.code == c)).length

/-- The gravest severity in the list. -/
def worst? : List Diagnostic → Option Severity
  | [] => none
  | d :: ds => some (ds.foldl (fun s e => s.worse e.severity) d.severity)

end Diagnostic
end Manuscript
