/-
# Spoken lines

A spoken line has a speaker, a status in parentheses, and a content that runs to
the end of the line. Four forms are tried in turn, each first with a speaker and
then without:

* `name : (status) content`,
* `name (status) : content`,
* `name (status) "content"`,
* `"name" (status) content`.

A line without a speaker is only spoken if its content is quoted.

Key definitions: `SayLine`, `NameClass`, `NameClass.of`, `SayForm`,
`SayLine.ofLine?`.
-/
import Manuscript.Line.Piece
import Manuscript.Text.Split

namespace Manuscript

open Text (Span)

/-- A part of a line and its text. -/
structure Field where
  span : Span
  text : String
deriving Repr, DecidableEq

/-- A spoken line. -/
structure SayLine where
  speaker : Option Field
  speakerQuoted : Bool
  status : List Field
  content : List Field
  contentQuoted : Bool
deriving Repr, DecidableEq

namespace SayLine

/-- The name of the speaker. -/
def speakerText (s : SayLine) : Option String := s.speaker.map (·.text)

/-- The content, its fields one after the other. -/
def contentText (s : SayLine) : String := String.join (s.content.map (·.text))

/-- The words of the status. -/
def statusTags (s : SayLine) : List String := s.status.flatMap fun f => Text.words f.text

end SayLine

/-- How surely a text is the name of a speaker. -/
inductive NameClass where
  /-- In quotes. -/
  | definite
  /-- Plain text that is taken for a name. -/
  | ambiguous
  | notAName
deriving Repr, DecidableEq

namespace NameClass

/-- Punctuation that no name holds. -/
def reserved : List Char :=
  ['。', '！', '？', '!', '?', '…', '；', ';', '“', '”', '"', '\'', '，', ',']

/-- The text is taken for a name. -/
def isName (c : NameClass) : Bool := c != notAName

/-- Classes a text: a name is not blank, has at most `limit` characters, no reserved
punctuation and no medium mark. -/
def of (text : List Char) (quoted : Bool) (limit : Nat) : NameClass :=
  let name := Text.trim text
  if name.isEmpty || name.length > limit then notAName
  else if name.any fun c => reserved.contains c || Mark.isElement c then notAName
  else if quoted then definite
  else ambiguous

end NameClass

/-- The forms of a spoken line. -/
inductive SayForm where
  /-- The separator comes before the status. -/
  | separatorFirst
  /-- The status comes before the separator. -/
  | statusFirst
  /-- No separator; the content is quoted. -/
  | quotedContent
  /-- No separator; the name is quoted. -/
  | quotedName
deriving Repr, DecidableEq

namespace SayLine

/-- The inner text of a piece as a field. -/
def fieldOf (line : List Char) (p : Piece) : Field :=
  ⟨p.inner, String.ofList (Text.slice line p.inner)⟩

/-- Takes the name of a speaker: the field, whether it is quoted, and the pieces that
follow. -/
def takeName? (line : List Char) (limit : Nat) (quotedOnly : Bool) :
    List Piece → Option (Field × Bool × List Piece)
  | [] => none
  | p :: rest =>
    let text := Text.slice line p.inner
    let name (quoted : Bool) : Option (Field × Bool × List Piece) :=
      if (NameClass.of text quoted limit).isName then
        some (⟨p.inner, String.ofList (Text.trim text)⟩, quoted, rest)
      else none
    match p.kind with
    | .quoted => name true
    | .text => if quotedOnly then none else name false
    | _ => none

/-- Takes a separator. -/
def takeSeparator? : List Piece → Option (List Piece)
  | [] => none
  | p :: rest => if p.kind = .separator then some rest else none

/-- Takes the texts and commas of a status up to the closing parenthesis. -/
def takeTags? (line : List Char) : List Piece → Option (List Field × List Piece)
  | [] => none
  | p :: rest =>
    match p.kind with
    | .parenClose => some ([], rest)
    | .comma => takeTags? line rest
    | .text => (takeTags? line rest).map fun (tags, rest) => (fieldOf line p :: tags, rest)
    | _ => none

/-- Takes a status. -/
def takeStatus? (line : List Char) : List Piece → Option (List Field × List Piece)
  | [] => none
  | p :: rest => if p.kind = .parenOpen then takeTags? line rest else none

/-- Takes a status if there is one. -/
def takeStatus (line : List Char) (ps : List Piece) : List Field × List Piece :=
  (takeStatus? line ps).getD ([], ps)

/-- The content from the first piece on, and whether it is quoted. Quoted content is the
quoted pieces alone; any other is the line up to its trimmed end. -/
def takeContent? (line : List Char) (quotedOnly : Bool) (ps : List Piece) :
    Option (List Field × Bool) :=
  match ps with
  | [] => none
  | p :: _ =>
    if quotedOnly && ps.any (·.kind != .quoted) then none
    else if p.kind = .quoted then
      some ((ps.filter (·.kind == .quoted)).map (fieldOf line), true)
    else
      let start := p.outer.start
      let text := Text.trimEnd (Text.dropBytes start line)
      some ([⟨⟨start, start + Text.size text⟩, String.ofList text⟩], false)

/-- Takes what stands between the speaker and the content. -/
def takeMiddle? (line : List Char) (form : SayForm) (ps : List Piece) :
    Option (List Field × List Piece) :=
  match form with
  | .separatorFirst => (takeSeparator? ps).map (takeStatus line)
  | .statusFirst => do
    let (status, rest) ← takeStatus? line ps
    let rest ← takeSeparator? rest
    some (status, rest)
  | .quotedContent | .quotedName => some (takeStatus line ps)

/-- Reads the pieces of a line in one form, behind its speaker. -/
def readBehind? (line : List Char) (form : SayForm) (speaker : Option Field) (quoted : Bool)
    (ps : List Piece) : Option SayLine := do
  let (status, rest) ← takeMiddle? line form ps
  let (content, contentQuoted) ← takeContent? line (form = .quotedContent) rest
  some ⟨speaker, quoted, status, content, contentQuoted⟩

/-- Reads the pieces of a line in one form, with a speaker or without. Quoted content needs
a speaker. -/
def readForm? (line : List Char) (limit : Nat) (ps : List Piece) (form : SayForm)
    (named : Bool) : Option SayLine :=
  if named then do
    let (name, quoted, rest) ← takeName? line limit (form = .quotedName) ps
    readBehind? line form (some name) quoted rest
  else if form = .quotedContent then none
  else readBehind? line form none false ps

/-- The forms in the order in which they are tried. -/
def attempts : List (SayForm × Bool) := [
  (.separatorFirst, true), (.separatorFirst, false), (.statusFirst, true), (.statusFirst, false),
  (.quotedContent, true), (.quotedContent, false), (.quotedName, true), (.quotedName, false)]

/-- The line has a speaker, or quoted content that is not blank. -/
def isSpoken (s : SayLine) : Bool :=
  s.speaker.isSome || (s.contentQuoted && !Text.allBlank s.contentText)

/-- Reads a text as a spoken line: by the first form that fits. -/
def ofLine? (text : String) (limit : Nat) : Option SayLine :=
  let line := text.toList
  let ps := Piece.scan 0 line
  (attempts.findSome? fun (form, named) => readForm? line limit ps form named).filter isSpoken

end SayLine
end Manuscript
