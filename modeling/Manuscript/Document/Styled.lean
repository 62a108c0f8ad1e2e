/-
# Styled text

Styled text is a list of runs, each a piece of text in one style. What it means
is its list of styled characters, `StyledText.chars`: operations are read
through that list, and the runs are only its grouping. Offsets are byte offsets
into the plain text.

Key definitions: `Style`, `Run`, `StyledText`, `StyledText.chars`,
`StyledText.push`, `StyledText.append`, `StyledText.slice`, `StyledText.trim`,
`StyledText.without`.
Key theorems: `StyledText.chars_push`, `StyledText.chars_append`.
-/
import Manuscript.Document.Color
import Manuscript.Fault
import Manuscript.Text.Bytes

namespace Manuscript

open Text (Span)

/-- The style of a run. -/
structure Style where
  bold : Bool
  italic : Bool
  color : Option Color
deriving Repr, DecidableEq

namespace Style

/-- The style of unmarked text. -/
def plain : Style := ⟨false, false, none⟩

/-- The style marks nothing. -/
def isPlain (s : Style) : Bool := !s.bold && !s.italic && s.color.isNone

end Style

/-- A piece of text in one style. -/
structure Run where
  text : String
  style : Style
deriving Repr, DecidableEq

/-- Text in which every character has a style. -/
structure StyledText where
  runs : List Run
deriving Repr, DecidableEq, Inhabited

namespace StyledText

/-- The text without any run. -/
def empty : StyledText := ⟨[]⟩

/-- The characters of the text without their styles. -/
def plainChars (t : StyledText) : List Char := t.runs.flatMap (·.text.toList)

/-- The text without its styles. -/
def plain (t : StyledText) : String := String.ofList t.plainChars

/-- The characters of a run, each with the run's style. -/
def runChars (r : Run) : List (Char × Style) := r.text.toList.map (·, r.style)

/-- The meaning of a styled text: its characters, each with its style. -/
def chars (t : StyledText) : List (Char × Style) := t.runs.flatMap runChars

/-- No run holds a character. -/
def isEmpty (t : StyledText) : Bool := t.runs.all (·.text.isEmpty)

/-- Adds a run at the end; one in the style of the last run is joined to it. -/
def pushRun : List Run → Run → List Run
  | [], r => [r]
  | [last], r =>
    if last.style = r.style then [⟨last.text ++ r.text, last.style⟩] else [last, r]
  | x :: y :: rest, r => x :: pushRun (y :: rest) r

/-- Adds a run at the end; an empty one is left out. -/
def push (t : StyledText) (r : Run) : StyledText :=
  if r.text.isEmpty then t else ⟨pushRun t.runs r⟩

/-- Adds the runs of another text at the end. -/
def append (t u : StyledText) : StyledText := u.runs.foldl push t

/-- The part of a run that starts at byte `offset` which lies in the span. -/
def cutRun (s : Span) (offset : Nat) (r : Run) : Except Fault Run :=
  let stop := offset + Text.size r.text.toList
  let lo := max s.start offset
  let hi := min s.stop stop
  if lo < hi then do
    let text ← Fault.offBoundary.unless (Text.slice? r.text.toList ⟨lo - offset, hi - offset⟩)
    return ⟨String.ofList text, r.style⟩
  else return ⟨"", r.style⟩

/-- Adds to `out` what lies in the span of the runs that start at byte `offset`. -/
def sliceFrom (s : Span) : Nat → List Run → StyledText → Except Fault StyledText
  | _, [], out => .ok out
  | offset, r :: rest, out => do
    let part ← cutRun s offset r
    sliceFrom s (offset + Text.size r.text.toList) rest (out.push part)

/-- The part of the text in a span of bytes; a fault if the span cuts a character. -/
def slice (t : StyledText) (s : Span) : Except Fault StyledText := sliceFrom s 0 t.runs empty

/-- The text without the blanks at its ends, also across runs. -/
def trim (t : StyledText) : Except Fault StyledText :=
  let plain := t.plainChars
  let start := Text.size plain - Text.size (Text.trimStart plain)
  let stop := Text.size (Text.trimEnd plain)
  if start ≥ stop then .ok empty else t.slice ⟨start, stop⟩

/-- The text without the characters of a class. -/
def without (t : StyledText) (p : Char → Bool) : StyledText :=
  t.runs.foldl (fun out r => out.push ⟨String.ofList (r.text.toList.filter (!p ·)), r.style⟩) empty

/-- Unstyled text. -/
def ofString (s : String) : StyledText := empty.push ⟨s, .plain⟩

/-! ### The operations through the styled characters -/

theorem flatMap_pushRun : ∀ (rs : List Run) (r : Run),
    (pushRun rs r).flatMap runChars = rs.flatMap runChars ++ runChars r
  | [], r => by simp [pushRun]
  | [last], r => by
    by_cases h : last.style = r.style <;> simp [pushRun, h, runChars]
  | x :: y :: rest, r => by
    simp only [pushRun, List.flatMap_cons, flatMap_pushRun (y :: rest) r, List.append_assoc]

/-- Pushing a run adds its characters at the end. -/
@[simp] theorem chars_push (t : StyledText) (r : Run) : (t.push r).chars = t.chars ++ runChars r := by
  by_cases h : r.text.isEmpty
  · have : r.text = "" := by simpa using h
    simp [push, chars, runChars, this]
  · simp [push, h, chars, flatMap_pushRun]

/-- Appending a text adds its characters at the end. -/
@[simp] theorem chars_append (t u : StyledText) : (t.append u).chars = t.chars ++ u.chars := by
  have key : ∀ (rs : List Run) (t : StyledText),
      (rs.foldl push t).chars = t.chars ++ rs.flatMap runChars := by
    intro rs
    induction rs with
    | nil => simp
    | cons r rest ih => intro t; simp [ih, List.append_assoc]
  exact key u.runs t

end StyledText
end Manuscript
