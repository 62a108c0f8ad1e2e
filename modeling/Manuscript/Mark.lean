/-
# Marks

The characters that structure a line. Every mark has a full-width twin, so that a
text typed with a CJK input method needs no change of layout. Quotes are a class
of openers, each with the characters that close it; the direction of curly quotes
does not matter.

Key definitions: the classes `Mark.isCommandOpen`, ..., `Mark.isAssign`,
`Mark.closers?`, `Mark.sayClosers?`, `Mark.takeQuote?`, `Mark.quoteEnd?`.
Key theorems: `Mark.takeQuote?_eq_some`, `Mark.length_takeQuote?`.
-/
import Manuscript.Document.Basic

namespace Manuscript.Mark

/-- Opens a command. -/
def isCommandOpen (c : Char) : Bool := ['[', '［', '【'].contains c

/-- Closes a command. -/
def isCommandClose (c : Char) : Bool := [']', '］', '】'].contains c

/-- Starts a comment. -/
def isCommentStart (c : Char) : Bool := ['#', '＃'].contains c

/-- Separates a speaker from the words, a command from its arguments, a text from a target. -/
def isSeparator (c : Char) : Bool := [':', '：'].contains c

/-- Opens a parenthesis. -/
def isParenOpen (c : Char) : Bool := ['(', '（'].contains c

/-- Closes a parenthesis. -/
def isParenClose (c : Char) : Bool := [')', '）'].contains c

/-- Separates the arguments of a command. -/
def isArgComma (c : Char) : Bool := [',', '，'].contains c

/-- Separates the items of a list: a comma, or the enumeration comma. -/
def isListComma (c : Char) : Bool := [',', '，', '、'].contains c

/-- Joins a keyword to its value. -/
def isAssign (c : Char) : Bool := ['=', '＝'].contains c

/-- Stands for an embedded medium. -/
def isElement (c : Char) : Bool := c == elementMark

/-- What closes a quote, if the character opens one. -/
def closers? : Char → Option (List Char)
  | '"' => some ['"']
  | '\'' => some ['\'']
  | '“' => some ['“', '”']
  | '”' => some ['“', '”']
  | '„' => some ['“', '”']
  | '‘' => some ['‘', '’']
  | '’' => some ['‘', '’']
  | '「' => some ['」']
  | '『' => some ['』']
  | _ => none

/-- What closes a quote in a spoken line, where brackets quote too. -/
def sayClosers? : Char → Option (List Char)
  | '[' => some [']', '］']
  | '［' => some [']', '］']
  | '【' => some ['】']
  | c => closers? c

/-- A single quote, which in running text is more often an apostrophe. -/
def isWeakQuote (c : Char) : Bool := ['\'', '‘', '’'].contains c

/-- Splits the text behind an opener at its first closer: what is quoted, the closer, and
what follows it. -/
def takeQuote? (closers : List Char) : List Char → Option (List Char × Char × List Char)
  | [] => none
  | c :: cs =>
    if closers.contains c then some ([], c, cs)
    else (takeQuote? closers cs).map fun (body, close, rest) => (c :: body, close, rest)

/-- A quote, its closer and what follows make up the text. -/
theorem takeQuote?_eq_some {closers : List Char} : ∀ {cs body : List Char} {close : Char}
    {rest : List Char}, takeQuote? closers cs = some (body, close, rest) →
    cs = body ++ close :: rest ∧ close ∈ closers ∧ ∀ c ∈ body, c ∉ closers
  | [], _, _, _, h => by simp [takeQuote?] at h
  | c :: cs, body, close, rest, h => by
    by_cases hc : closers.contains c
    · simp only [takeQuote?, hc, if_true, Option.some.injEq, Prod.mk.injEq] at h
      obtain ⟨rfl, rfl, rfl⟩ := h
      simpa using hc
    · simp only [takeQuote?, hc] at h
      obtain ⟨⟨b, k, r⟩, hq, he⟩ := Option.map_eq_some_iff.1 h
      simp only [Prod.mk.injEq] at he
      obtain ⟨rfl, rfl, rfl⟩ := he
      obtain ⟨h1, h2, h3⟩ := takeQuote?_eq_some hq
      refine ⟨by simp [h1], h2, ?_⟩
      intro d hd
      rcases List.mem_cons.1 hd with rfl | hd
      · simpa using hc
      · exact h3 d hd

/-- What follows a quote is shorter than the text. -/
theorem length_takeQuote? {closers cs body : List Char} {close : Char} {rest : List Char}
    (h : takeQuote? closers cs = some (body, close, rest)) : rest.length < cs.length := by
  rw [(takeQuote?_eq_some h).1]
  simp
  omega

/-- The byte offset just behind the quote that is opened at byte `start`. -/
def quoteEnd? (text : String) (start : Nat) (closers : List Char) : Option Nat :=
  match Text.dropBytes start text.toList with
  | [] => none
  | opener :: rest =>
    (takeQuote? closers rest).map fun (body, close, _) =>
      start + opener.utf8Size + Text.size body + close.utf8Size

end Manuscript.Mark
