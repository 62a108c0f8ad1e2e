/-
# Byte offsets

Positions in a text are counted in bytes of its UTF-8 form. A cut is only
possible between two characters: the checked functions refuse an offset that
falls inside one, or past the end.

Key definitions: `Text.size`, `Text.Span`, `Text.dropBytes`, `Text.takeBytes`,
`Text.slice`, `Text.splitAt?`, `Text.slice?`.
Key theorems: `Text.size_append`, `Text.dropBytes_append`, `Text.splitAt?_append`.
-/

namespace Manuscript.Text

/-- The number of bytes of a text. -/
def size : List Char → Nat
  | [] => 0
  | c :: cs => c.utf8Size + size cs

@[simp] theorem size_nil : size [] = 0 := rfl

@[simp] theorem size_cons (c : Char) (cs : List Char) : size (c :: cs) = c.utf8Size + size cs := rfl

@[simp] theorem size_append : ∀ a b : List Char, size (a ++ b) = size a + size b
  | [], b => by simp
  | c :: a, b => by simp [size_append a b, Nat.add_assoc]

/-- A stretch of a text: the bytes from `start` up to `stop`. -/
structure Span where
  start : Nat
  stop : Nat
deriving Repr, DecidableEq, Inhabited

/-- The text from byte `n` on. A character that `n` cuts in two is dropped. -/
def dropBytes : Nat → List Char → List Char
  | 0, cs => cs
  | _ + 1, [] => []
  | n + 1, c :: cs => dropBytes (n + 1 - c.utf8Size) cs

/-- The first `n` bytes of the text. A character that `n` cuts in two is left out. -/
def takeBytes (n : Nat) : List Char → List Char
  | [] => []
  | c :: cs => if c.utf8Size ≤ n then c :: takeBytes (n - c.utf8Size) cs else []

/-- The text of a span. -/
def slice (cs : List Char) (s : Span) : List Char :=
  takeBytes (s.stop - s.start) (dropBytes s.start cs)

/-- Cuts the text at byte `n`, if a character starts or the text ends there. -/
def splitAt? : Nat → List Char → Option (List Char × List Char)
  | 0, cs => some ([], cs)
  | _ + 1, [] => none
  | n + 1, c :: cs =>
    if c.utf8Size ≤ n + 1 then
      (splitAt? (n + 1 - c.utf8Size) cs).map fun (a, b) => (c :: a, b)
    else none

/-- The text of a span whose ends both lie between characters of the text. -/
def slice? (cs : List Char) (s : Span) : Option (List Char) :=
  if s.start ≤ s.stop then do
    let (_, rest) ← splitAt? s.start cs
    let (mid, _) ← splitAt? (s.stop - s.start) rest
    some mid
  else none

/-- Dropping exactly a front part leaves what follows it. -/
theorem dropBytes_append : ∀ a b : List Char, dropBytes (size a) (a ++ b) = b
  | [], b => by simp [dropBytes]
  | c :: a, b => by
    have hc : 0 < c.utf8Size := Char.utf8Size_pos c
    obtain ⟨n, hn⟩ : ∃ n, c.utf8Size + size a = n + 1 := ⟨c.utf8Size + size a - 1, by omega⟩
    rw [size_cons, List.cons_append, hn, dropBytes, ← hn, Nat.add_sub_cancel_left]
    exact dropBytes_append a b

/-- A cut between a front part and what follows it succeeds and gives the two. -/
theorem splitAt?_append : ∀ a b : List Char, splitAt? (size a) (a ++ b) = some (a, b)
  | [], b => by simp [splitAt?]
  | c :: a, b => by
    have hc : 0 < c.utf8Size := Char.utf8Size_pos c
    obtain ⟨n, hn⟩ : ∃ n, c.utf8Size + size a = n + 1 := ⟨c.utf8Size + size a - 1, by omega⟩
    rw [size_cons, List.cons_append, hn, splitAt?, ← hn, Nat.add_sub_cancel_left,
      splitAt?_append a b]
    simp

end Manuscript.Text
