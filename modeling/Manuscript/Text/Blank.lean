/-
# Blank characters and trimming

A blank is a character of the Unicode property White_Space. Trimming drops the
blanks at the ends of a text and nothing else.

Key definitions: `Text.isBlank`, `Text.trimStart`, `Text.trimEnd`, `Text.trim`,
`Text.trimmed`.
-/

namespace Manuscript.Text

/-- Ranges of the blank characters, in increasing order. -/
def blankRanges : List (Nat × Nat) := [
  (0x09, 0x0d), (0x20, 0x20), (0x85, 0x85), (0xa0, 0xa0), (0x1680, 0x1680), (0x2000, 0x200a),
  (0x2028, 0x2029), (0x202f, 0x202f), (0x205f, 0x205f), (0x3000, 0x3000)]

/-- The character is white space: tabs, line breaks and every kind of space, but not the
zero-width characters. -/
def isBlank (c : Char) : Bool :=
  blankRanges.any fun r => r.1 ≤ c.toNat && c.toNat ≤ r.2

/-- Drops the blanks at the start. -/
def trimStart (cs : List Char) : List Char := cs.dropWhile isBlank

/-- Drops the blanks at the end. -/
def trimEnd (cs : List Char) : List Char := (cs.reverse.dropWhile isBlank).reverse

/-- Drops the blanks at both ends. -/
def trim (cs : List Char) : List Char := trimEnd (trimStart cs)

/-- The text without the blanks at its ends. -/
def trimmed (s : String) : String := String.ofList (trim s.toList)

/-- The text holds nothing but blanks. -/
def allBlank (s : String) : Bool := s.toList.all isBlank

end Manuscript.Text
