/-
# Quoted texts

Four kinds of quoted text: on one line or on several, and with escapes (double
quotes) or without (single quotes). A text on several lines ends at its last run
of three quotes, so that one or two quotes may stand right before the end. A
backslash at the end of a line joins it with the next text that is not blank.

Key definitions: `Toml.readBasic`, `Toml.readLiteral`, `Toml.readBasicLines`,
`Toml.readLiteralLines`.
-/
import Manuscript.Document.Color

namespace Manuscript.Toml

/-- White space inside a line. -/
def isGap (c : Char) : Bool := c == ' ' || c == '\t'

/-- A character that may stand for itself: no control character but the tab. -/
def isPlain (c : Char) : Bool := c == '\t' || (0x20 ≤ c.toNat && c.toNat != 0x7f)

/-- What is read, and what follows it. -/
abbrev Taken := Option (List Char × List Char)

/-- Puts a character in front of what is read. -/
def Taken.cons (c : Char) (t : Taken) : Taken := t.map fun (read, rest) => (c :: read, rest)

/-- Splits off exactly `n` hexadecimal digits, whose value continues `acc`. -/
def takeHex? : Nat → Nat → List Char → Option (Nat × List Char)
  | 0, acc, cs => some (acc, cs)
  | n + 1, acc, c :: cs =>
    match Text.hexDigit? c with
    | some d => takeHex? n (acc * 16 + d) cs
    | none => none
  | _ + 1, _, [] => none

theorem length_takeHex? : ∀ {n acc : Nat} {cs rest : List Char} {v : Nat},
    takeHex? n acc cs = some (v, rest) → rest.length ≤ cs.length
  | 0, _, _, _, _, h => by
    simp only [takeHex?, Option.some.injEq, Prod.mk.injEq] at h
    exact Nat.le_of_eq (by rw [h.2])
  | n + 1, acc, c :: cs, rest, v, h => by
    simp only [takeHex?] at h
    split at h
    · exact Nat.le_succ_of_le (length_takeHex? h)
    · simp at h
  | _ + 1, _, [], _, _, h => by simp [takeHex?] at h

/-- The character of a code point, if it is one. -/
def char? (n : Nat) : Option Char := if n.isValidChar then some (Char.ofNat n) else none

/-- The number of digits that a letter behind a backslash announces. -/
def codeLength? : Char → Option Nat
  | 'x' => some 2
  | 'u' => some 4
  | 'U' => some 8
  | _ => none

/-- The character of a letter behind a backslash. -/
def shortEscape? : Char → Option Char
  | '"' => some '"'
  | '\\' => some '\\'
  | 'b' => some '\x08'
  | 'e' => some '\x1b'
  | 'f' => some '\x0c'
  | 'n' => some '\n'
  | 'r' => some '\r'
  | 't' => some '\t'
  | _ => none

/-- Splits off an escape behind its backslash. -/
def takeEscape? : List Char → Option (Char × List Char)
  | [] => none
  | c :: rest =>
    match codeLength? c with
    | none => (shortEscape? c).map (·, rest)
    | some n =>
      match takeHex? n 0 rest with
      | none => none
      | some (v, rest) => (char? v).map (·, rest)

theorem length_takeEscape? {cs rest : List Char} {c : Char} (h : takeEscape? cs = some (c, rest)) :
    rest.length < cs.length := by
  match cs with
  | [] => simp [takeEscape?] at h
  | d :: ds =>
    simp only [takeEscape?] at h
    split at h
    · obtain ⟨_, _, h⟩ := Option.map_eq_some_iff.1 h
      rw [← (Prod.mk.inj h).2]
      exact Nat.lt_succ_self _
    · split at h
      · simp at h
      · rename_i v after e
        obtain ⟨_, _, h⟩ := Option.map_eq_some_iff.1 h
        rw [← (Prod.mk.inj h).2]
        exact Nat.lt_succ_of_le (length_takeHex? e)

/-! ### Texts on one line -/

/-- Reads a text with escapes behind its opening quote. -/
def readBasic : List Char → Taken
  | [] => none
  | '"' :: rest => some ([], rest)
  | '\\' :: rest =>
    match _h : takeEscape? rest with
    | some (c, after) => Taken.cons c (readBasic after)
    | none => none
  | c :: rest => if isPlain c then Taken.cons c (readBasic rest) else none
termination_by cs => cs.length
decreasing_by
  · exact Nat.lt_succ_of_lt (length_takeEscape? _h)
  · exact Nat.lt_succ_self _

/-- Reads a text without escapes behind its opening quote. -/
def readLiteral : List Char → Taken
  | [] => none
  | '\x27' :: rest => some ([], rest)
  | c :: rest => if isPlain c then Taken.cons c (readLiteral rest) else none

/-! ### Texts on several lines -/

/-- A line ends here. -/
def startsLine : List Char → Bool
  | '\n' :: _ => true
  | '\r' :: '\n' :: _ => true
  | _ => false

/-- The text without one line end at its front. -/
def dropLineEnd : List Char → List Char
  | '\n' :: rest => rest
  | '\r' :: '\n' :: rest => rest
  | cs => cs

/-- The text without the white space and line ends at its front. -/
def skipLines : List Char → List Char
  | [] => []
  | '\r' :: '\n' :: rest => skipLines rest
  | c :: rest => if isGap c || c == '\n' then skipLines rest else c :: rest

theorem length_skipLines (cs : List Char) : (skipLines cs).length ≤ cs.length := by
  fun_induction skipLines cs with
  | case1 => exact Nat.le_refl _
  | case2 rest ih => simp only [List.length_cons]; omega
  | case3 c rest _ _ ih => simp only [List.length_cons]; omega
  | case4 => exact Nat.le_refl _

/-- Splits off the rest of a line that a backslash joins with the next. -/
def takeJoin? (cs : List Char) : Option (List Char) :=
  if startsLine (cs.dropWhile isGap) then some (skipLines cs) else none

theorem length_takeJoin? {cs rest : List Char} (h : takeJoin? cs = some rest) :
    rest.length ≤ cs.length := by
  unfold takeJoin? at h
  split at h
  · rw [← Option.some.inj h]
    exact length_skipLines cs
  · simp at h

/-- Reads a text with escapes behind its three opening quotes. -/
def readBasicLines : List Char → Taken
  | [] => none
  | '"' :: '"' :: '"' :: '"' :: '"' :: rest => some (['"', '"'], rest)
  | '"' :: '"' :: '"' :: '"' :: rest => some (['"'], rest)
  | '"' :: '"' :: '"' :: rest => some ([], rest)
  | '\\' :: rest =>
    match _j : takeJoin? rest with
    | some after => readBasicLines after
    | none =>
      match _h : takeEscape? rest with
      | some (c, after) => Taken.cons c (readBasicLines after)
      | none => none
  | '\r' :: '\n' :: rest => Taken.cons '\r' (Taken.cons '\n' (readBasicLines rest))
  | c :: rest => if isPlain c || c == '\n' then Taken.cons c (readBasicLines rest) else none
termination_by cs => cs.length
decreasing_by
  · exact Nat.lt_succ_of_le (length_takeJoin? _j)
  · exact Nat.lt_succ_of_lt (length_takeEscape? _h)
  · simp only [List.length_cons]; omega
  · exact Nat.lt_succ_self _

/-- Reads a text without escapes behind its three opening quotes. -/
def readLiteralLines : List Char → Taken
  | [] => none
  | '\x27' :: '\x27' :: '\x27' :: '\x27' :: '\x27' :: rest => some (['\x27', '\x27'], rest)
  | '\x27' :: '\x27' :: '\x27' :: '\x27' :: rest => some (['\x27'], rest)
  | '\x27' :: '\x27' :: '\x27' :: rest => some ([], rest)
  | '\r' :: '\n' :: rest => Taken.cons '\r' (Taken.cons '\n' (readLiteralLines rest))
  | c :: rest => if isPlain c || c == '\n' then Taken.cons c (readLiteralLines rest) else none

end Manuscript.Toml
