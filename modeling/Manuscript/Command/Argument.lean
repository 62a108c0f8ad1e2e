/-
# Arguments

The arguments of a command are separated by commas. The first may be a bare
value; all others, and possibly the first, are keywords with a value, and no
keyword is given twice. A value is a text, a quoted text, an embedded medium, or
a call: a name with arguments of its own in parentheses.

What was read before a fault in the list is kept. The reader is given a bound on
its own steps; the number of tokens is always enough.

Key definitions: `Arg`, `Arguments`, `ArgumentError`, `Arguments.parse`.
-/
import Manuscript.Command.Token
import Manuscript.Text.Split

namespace Manuscript

open Text (Span)

/-- The value of an argument. -/
inductive Arg where
  | text (s : String)
  | quoted (s : String)
  /-- The medium with this index in the block. -/
  | element (index : Nat)
  | call (name : String) (positional : Option Arg) (keywords : List (String × Arg))
deriving Repr

/-- What was read of an argument list: the bare value, and the keywords in the order
written. -/
structure Arguments where
  positional : Option Arg
  keywords : List (String × Arg)
deriving Repr

namespace Arg

mutual

/-- Writes a value. -/
def render : Arg → String
  | text s => s
  | quoted s => "\"" ++ s ++ "\""
  | element i => s!"<element {i}>"
  | call name positional keywords =>
    match renderPositional positional ++ renderKeywords keywords with
    | [] => name
    | args => name ++ "(" ++ Text.join ", " args ++ ")"

/-- Writes a bare value, if there is one. -/
def renderPositional : Option Arg → List String
  | none => []
  | some a => [a.render]

/-- Writes the keywords with their values. -/
def renderKeywords : List (String × Arg) → List String
  | [] => []
  | (key, a) :: rest => (key ++ "=" ++ a.render) :: renderKeywords rest

end

/-- The text of a value that is written as text. -/
def text? : Arg → Option String
  | text s => some s
  | quoted s => some s
  | _ => none

end Arg

namespace Arguments

/-- No arguments. -/
def empty : Arguments := ⟨none, []⟩

/-- The value of a keyword. -/
def get? (a : Arguments) (key : String) : Option Arg := a.keywords.lookup key

/-- The value of the first of several spellings of a keyword that is given. -/
def any? (a : Arguments) (keys : List String) : Option Arg := keys.findSome? a.get?

/-- The keyword is given. -/
def has (a : Arguments) (key : String) : Bool := (a.get? key).isSome

end Arguments

/-- Why an argument list is malformed. -/
inductive ArgumentError where
  | noKey
  | emptyArgument
  | unterminatedQuote
  | unbalancedClose
  | callWithoutName
  | argumentExpected
  | commaExpected
  | invalidName (key : String)
  | givenTwice (key : String)
  | positionalAfterKeyword
  | secondPositional
  | valueExpected (got : TokenKind)
  | missingClose (name : String)
deriving Repr, DecidableEq

/-- The name of a mark in an error message. -/
def TokenKind.markName : TokenKind → String
  | .text _ => "Text"
  | .quoted _ => "Str"
  | .element _ => "Element"
  | .assign => "Assign"
  | .comma => "Comma"
  | .parenOpen => "LParen"
  | .parenClose => "RParen"
  | .unterminated _ => "Unterminated"
  | .eof => "Eof"

/-- What is said about a malformed argument list. -/
def ArgumentError.message : ArgumentError → String
  | noKey => "'=' without a key"
  | emptyArgument => "empty argument"
  | unterminatedQuote => "unterminated quote"
  | unbalancedClose => "unbalanced ')'"
  | callWithoutName => "'(' without a call name"
  | argumentExpected => "argument expected after ','"
  | commaExpected => "expected ',' between arguments"
  | invalidName key => "invalid argument name '" ++ key ++ "'"
  | givenTwice key => "argument '" ++ key ++ "' given twice"
  | positionalAfterKeyword => "positional argument after keyword arguments"
  | secondPositional => "only one positional argument is allowed"
  | valueExpected got => "value expected, got " ++ got.markName
  | missingClose name => "missing ')' for '" ++ name ++ "'"

namespace Arguments

/-- A fault and the token at which it was found. -/
structure Failure where
  error : ArgumentError
  span : Span
deriving Repr, DecidableEq

/-- The span of the next token; behind the tokens, that of the last one. -/
def spanAt (last : Span) : List Token → Span
  | [] => last
  | t :: _ => t.span

/-- The kind of the next token; behind the tokens, the end. -/
def kindAt : List Token → TokenKind
  | [] => .eof
  | t :: _ => t.kind

/-- An argument list may end here: at the end, and in a call at a closing parenthesis. -/
def atEnd (nested : Bool) (ts : List Token) : Bool :=
  match kindAt ts with
  | .eof => true
  | .parenClose => nested
  | _ => false

/-- The fault `error` at the next token. -/
def fail {α : Type} (last : Span) (ts : List Token) (error : ArgumentError) : Except Failure α :=
  .error ⟨error, spanAt last ts⟩

/-- Takes a bare value into the arguments; only the first argument may be one. -/
def addPositional (last : Span) (ts : List Token) (args : Arguments) (v : Arg) :
    Except Failure Arguments :=
  if !args.keywords.isEmpty then fail last ts .positionalAfterKeyword
  else if args.positional.isSome then fail last ts .secondPositional
  else .ok { args with positional := some v }

/-- The name may be a keyword that is not given yet. -/
def checkKey (last : Span) (ts : List Token) (args : Arguments) (key : String) :
    Except Failure Unit :=
  if key.isEmpty || key.toList.any Text.isBlank then fail last ts (.invalidName key)
  else if args.has key then fail last ts (.givenTwice key)
  else .ok ()

mutual

/-- Reads a value. -/
def parseValue (last : Span) : Nat → List Token → Except Failure (Arg × List Token)
  | 0, ts => fail last ts (.valueExpected (kindAt ts))
  | steps + 1, ts =>
    match ts with
    | ⟨.text name, _⟩ :: ⟨.parenOpen, _⟩ :: rest =>
      match parseList last true steps .empty rest with
      | (_, .error e) => .error e
      | (args, .ok rest) =>
        match rest with
        | ⟨.parenClose, _⟩ :: rest => .ok (.call name args.positional args.keywords, rest)
        | rest => fail last rest (.missingClose name)
    | ⟨.text s, _⟩ :: rest => .ok (.text s, rest)
    | ⟨.quoted s, _⟩ :: rest => .ok (.quoted s, rest)
    | ⟨.element i, _⟩ :: rest => .ok (.element i, rest)
    | ⟨.unterminated _, _⟩ :: _ => fail last ts .unterminatedQuote
    | _ => fail last ts (.valueExpected (kindAt ts))

/-- Reads one argument into those read before it. -/
def parseOne (last : Span) (args : Arguments) :
    Nat → List Token → Except Failure (Arguments × List Token)
  | 0, ts => fail last ts .argumentExpected
  | steps + 1, ts =>
    match ts with
    | ⟨.text key, _⟩ :: ⟨.assign, _⟩ :: rest =>
      match checkKey last rest args key with
      | .error e => .error e
      | .ok () =>
        match parseValue last steps rest with
        | .error e => .error e
        | .ok (v, rest) => .ok ({ args with keywords := args.keywords ++ [(key, v)] }, rest)
    | ⟨.assign, _⟩ :: _ => fail last ts .noKey
    | ⟨.comma, _⟩ :: _ => fail last ts .emptyArgument
    | ⟨.unterminated _, _⟩ :: _ => fail last ts .unterminatedQuote
    | ⟨.parenClose, _⟩ :: _ => fail last ts .unbalancedClose
    | ⟨.parenOpen, _⟩ :: _ => fail last ts .callWithoutName
    | ⟨.eof, _⟩ :: _ => fail last ts .argumentExpected
    | [] => fail last ts .argumentExpected
    | ts =>
      match parseValue last steps ts with
      | .error e => .error e
      | .ok (v, rest) =>
        match addPositional last rest args v with
        | .error e => .error e
        | .ok args => .ok (args, rest)

/-- Reads arguments until the list ends, starting with one. -/
def parseMore (last : Span) (nested : Bool) :
    Nat → Arguments → List Token → Arguments × Except Failure (List Token)
  | 0, args, ts => (args, fail last ts .argumentExpected)
  | steps + 1, args, ts =>
    match parseOne last args steps ts with
    | .error e => (args, .error e)
    | .ok (args, rest) =>
      match rest with
      | ⟨.comma, _⟩ :: rest => parseMore last nested steps args rest
      | rest => (args, if atEnd nested rest then .ok rest else fail last rest .commaExpected)

/-- Reads an argument list, which may be empty. -/
def parseList (last : Span) (nested : Bool) :
    Nat → Arguments → List Token → Arguments × Except Failure (List Token)
  | 0, args, ts => (args, fail last ts .argumentExpected)
  | steps + 1, args, ts =>
    if atEnd nested ts then (args, .ok ts) else parseMore last nested steps args ts

end

/-- Enough steps to read a list of tokens: at most four for every token. -/
def steps (ts : List Token) : Nat := 4 * ts.length + 4

/-- Reads an argument list: what was read, and the fault if the list is malformed. -/
def parse (nested : Bool) (ts : List Token) : Arguments × Option Failure :=
  let last := (ts.getLast?.map (·.span)).getD ⟨0, 0⟩
  match parseList last nested (steps ts) .empty ts with
  | (args, .ok _) => (args, none)
  | (args, .error e) => (args, some e)

end Arguments
end Manuscript
