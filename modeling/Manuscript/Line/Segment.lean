/-
# Bracketed segments

A command line is one or more bracketed segments with nothing but blanks between
them, up to the end of the line or a comment. What stands between the brackets
runs to the first closing bracket outside a double quote.

Key definitions: `Segment`, `Segment.takeInterior?`, `Segment.ofLine?`.
Key theorems: `Segment.takeInterior?_eq_some`.
-/
import Manuscript.Mark

namespace Manuscript

open Text (Span)

/-- A bracketed segment of a line. -/
structure Segment where
  /-- The segment with its brackets. -/
  outer : Span
  /-- The byte behind the opening bracket. -/
  start : Nat
  /-- The text between the brackets. -/
  interior : List Char
deriving Repr, DecidableEq

namespace Segment

/-- What closes a quote that hides brackets: a double quote, but not a single one, which is
more often an apostrophe. -/
def hidingClosers? (c : Char) : Option (List Char) :=
  if Mark.isWeakQuote c then none else Mark.closers? c

/-- Splits the text behind an opening bracket: what is bracketed, the closing bracket, and
what follows it. -/
def takeInterior? : List Char → Option (List Char × Char × List Char)
  | [] => none
  | c :: cs =>
    if Mark.isCommandClose c then some ([], c, cs)
    else match hidingClosers? c with
      | none => (takeInterior? cs).map fun (body, close, rest) => (c :: body, close, rest)
      | some closers =>
        match _h : Mark.takeQuote? closers cs with
        | none => none
        | some (quote, mark, after) =>
          (takeInterior? after).map fun (body, close, rest) =>
            (c :: (quote ++ mark :: body), close, rest)
termination_by cs => cs.length
decreasing_by
  · simp
  · have := Mark.length_takeQuote? _h
    simp only [List.length_cons]
    omega

/-- What is bracketed, the closing bracket and what follows make up the text. -/
theorem takeInterior?_eq_some (cs : List Char) : ∀ {body : List Char} {close : Char}
    {rest : List Char}, takeInterior? cs = some (body, close, rest) →
    cs = body ++ close :: rest ∧ Mark.isCommandClose close = true := by
  fun_induction takeInterior? cs with
  | case1 => intro body close rest h; simp at h
  | case2 c cs hc =>
    intro body close rest h
    simp only [Option.some.injEq, Prod.mk.injEq] at h
    obtain ⟨rfl, rfl, rfl⟩ := h
    simp [hc]
  | case3 c cs hc hq ih =>
    intro body close rest h
    obtain ⟨⟨b, k, r⟩, hi, he⟩ := Option.map_eq_some_iff.1 h
    simp only [Prod.mk.injEq] at he
    obtain ⟨rfl, rfl, rfl⟩ := he
    obtain ⟨h1, h2⟩ := ih hi
    exact ⟨by simp [h1], h2⟩
  | case4 => intro body close rest h; simp at h
  | case5 c cs hc closers hq quote mark after hm ih =>
    intro body close rest h
    obtain ⟨⟨b, k, r⟩, hi, he⟩ := Option.map_eq_some_iff.1 h
    simp only [Prod.mk.injEq] at he
    obtain ⟨rfl, rfl, rfl⟩ := he
    obtain ⟨h1, h2⟩ := ih hi
    exact ⟨by simp [(Mark.takeQuote?_eq_some hm).1, h1], h2⟩

/-- What follows a segment is shorter than the text behind its opening bracket. -/
theorem length_takeInterior? {cs body : List Char} {close : Char} {rest : List Char}
    (h : takeInterior? cs = some (body, close, rest)) : rest.length < cs.length := by
  rw [(takeInterior?_eq_some cs h).1]
  simp
  omega

/-- The segments of a text that starts at byte `pos` with an opening bracket. -/
def scan (pos : Nat) : List Char → Option (List Segment)
  | [] => none
  | c :: cs =>
    if Mark.isCommandOpen c then
      match _h : takeInterior? cs with
      | none => none
      | some (interior, close, rest) =>
        let start := pos + c.utf8Size
        let stop := start + Text.size interior + close.utf8Size
        let segment : Segment := ⟨⟨pos, stop⟩, start, interior⟩
        let next := Text.trimStart rest
        match next.head? with
        | none => some [segment]
        | some d =>
          if Mark.isCommandOpen d then
            (scan (stop + (Text.size rest - Text.size next)) next).map (segment :: ·)
          else if Mark.isCommentStart d then some [segment]
          else none
    else none
termination_by cs => cs.length
decreasing_by
  have h1 := length_takeInterior? _h
  have h2 : (Text.trimStart rest).length ≤ rest.length := (List.dropWhile_suffix _).length_le
  simp only [List.length_cons]
  omega

/-- The segments of a command line; none if the line is something else. -/
def ofLine? (line : List Char) : Option (List Segment) :=
  let start := Text.trimStart line
  scan (Text.size line - Text.size start) start

end Segment
end Manuscript
