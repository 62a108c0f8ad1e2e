/-
# Pieces of a spoken line

A line that may be spoken is cut into pieces: quoted texts, the marks that
structure it, and the stretches of text between them. Blanks between pieces are
dropped. A quote that is never closed makes the rest of the line one text.

Key definitions: `Piece`, `Piece.scan`.
-/
import Manuscript.Mark

namespace Manuscript

open Text (Span)

/-- What a piece is. -/
inductive PieceKind where
  | quoted
  | separator
  | parenOpen
  | parenClose
  | comma
  | text
deriving Repr, DecidableEq

/-- A piece of a line. -/
structure Piece where
  kind : PieceKind
  /-- The whole piece. -/
  outer : Span
  /-- The piece without its quotes. -/
  inner : Span
deriving Repr, DecidableEq

namespace Piece

/-- The kind of a piece that is a single mark. -/
def mark? (c : Char) : Option PieceKind :=
  if Mark.isSeparator c then some .separator
  else if Mark.isParenOpen c then some .parenOpen
  else if Mark.isParenClose c then some .parenClose
  else if Mark.isListComma c then some .comma
  else none

/-- The character ends a stretch of text. A single quote inside a text does not. -/
def breaksText (c : Char) : Bool :=
  (mark? c).isSome || ((Mark.sayClosers? c).isSome && !Mark.isWeakQuote c)

/-- A piece without quotes. -/
def bare (kind : PieceKind) (start stop : Nat) : Piece := ⟨kind, ⟨start, stop⟩, ⟨start, stop⟩⟩

/-- The pieces of a text that starts at byte `pos`. -/
def scan (pos : Nat) : List Char → List Piece
  | [] => []
  | c :: cs =>
    let next := pos + c.utf8Size
    if Text.isBlank c then scan next cs
    else match mark? c with
      | some kind => bare kind pos next :: scan next cs
      | none =>
        match Mark.sayClosers? c with
        | some closers =>
          match _h : Mark.takeQuote? closers cs with
          | some (body, close, rest) =>
            let stop := next + Text.size body
            ⟨.quoted, ⟨pos, stop + close.utf8Size⟩, ⟨next, stop⟩⟩
              :: scan (stop + close.utf8Size) rest
          | none => [bare .text pos (pos + Text.size (Text.trimEnd (c :: cs)))]
        | none =>
          let body := c :: cs.takeWhile (!breaksText ·)
          bare .text pos (pos + Text.size (Text.trimEnd body))
            :: scan (pos + Text.size body) (cs.dropWhile (!breaksText ·))
termination_by cs => cs.length
decreasing_by
  · simp
  · simp
  · have := Mark.length_takeQuote? _h
    simp only [List.length_cons]
    omega
  · have : (cs.dropWhile (!breaksText ·)).length ≤ cs.length := (List.dropWhile_suffix _).length_le
    simp only [List.length_cons]
    omega

end Piece
end Manuscript
