/-
# Tokens of an argument list

The arguments of a command are cut into tokens: marks, quoted texts, embedded
media, and the stretches of text between them. Blanks between tokens are dropped
and quoted text is kept as it stands, without escapes. The n-th medium mark gets
the n-th number, so that a token finds its medium in the block.

Key definitions: `Token`, `TokenKind`, `Token.scan`, `Token.tokenize`.
-/
import Manuscript.Mark

namespace Manuscript

open Text (Span)

/-- What a token is. -/
inductive TokenKind where
  /-- A stretch of text, without blanks at its ends. -/
  | text (s : String)
  /-- What stands between two quotes. -/
  | quoted (s : String)
  /-- The medium with this index in the block. -/
  | element (index : Nat)
  | assign
  | comma
  | parenOpen
  | parenClose
  /-- What stands behind a quote that is never closed. -/
  | unterminated (s : String)
  /-- The end of the arguments. -/
  | eof
deriving Repr, DecidableEq

/-- A token and the bytes it was read from. -/
structure Token where
  kind : TokenKind
  span : Span
deriving Repr, DecidableEq

namespace Token

/-- The character ends a stretch of text. -/
def isSpecial (c : Char) : Bool :=
  Mark.isAssign c || Mark.isArgComma c || Mark.isParenOpen c || Mark.isParenClose c
    || Mark.isElement c

/-- Reads the first token of a text that starts with the character `c`, which is no blank:
its kind, how many bytes it takes and what follows it. -/
def first (element : Nat) (c : Char) (cs : List Char) : TokenKind × Nat × List Char :=
  if Mark.isAssign c then (.assign, c.utf8Size, cs)
  else if Mark.isArgComma c then (.comma, c.utf8Size, cs)
  else if Mark.isParenOpen c then (.parenOpen, c.utf8Size, cs)
  else if Mark.isParenClose c then (.parenClose, c.utf8Size, cs)
  else if Mark.isElement c then (.element element, c.utf8Size, cs)
  else match Mark.closers? c with
    | some closers =>
      match Mark.takeQuote? closers cs with
      | some (body, close, rest) =>
        (.quoted (String.ofList body), c.utf8Size + Text.size body + close.utf8Size, rest)
      | none => (.unterminated (String.ofList cs), c.utf8Size + Text.size cs, [])
    | none =>
      let body := c :: cs.takeWhile (!isSpecial ·)
      (.text (String.ofList (Text.trimEnd body)), Text.size body, cs.dropWhile (!isSpecial ·))

/-- What follows the first token is not longer than what follows its first character. -/
theorem length_first_le (element : Nat) (c : Char) (cs : List Char) :
    (first element c cs).2.2.length ≤ cs.length := by
  unfold first
  repeat' split
  all_goals try simp
  · rename_i h
    exact Nat.le_of_lt (Mark.length_takeQuote? h)
  · exact (List.dropWhile_suffix _).length_le

/-- The number of the next medium after a token. -/
def nextElement (element : Nat) : TokenKind → Nat
  | .element _ => element + 1
  | _ => element

/-- The tokens of a text that starts at byte `pos`, whose first medium mark has the number
`element`; the last token is the end. -/
def scan (pos element : Nat) : List Char → List Token
  | [] => [⟨.eof, ⟨pos, pos⟩⟩]
  | c :: cs =>
    if Text.isBlank c then scan (pos + c.utf8Size) element cs
    else
      let t := first element c cs
      ⟨t.1, ⟨pos, pos + t.2.1⟩⟩ :: scan (pos + t.2.1) (nextElement element t.1) t.2.2
termination_by cs => cs.length
decreasing_by
  · simp
  · have := length_first_le element c cs
    simp only [List.length_cons]
    omega

/-- The tokens of a text. Spans are counted from `base`, media from `element`. -/
def tokenize (s : String) (base element : Nat) : List Token := scan base element s.toList

end Token
end Manuscript
