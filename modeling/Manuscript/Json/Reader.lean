/-
# Reading JSON

Strict JSON: no comments, no trailing commas, no raw control characters in
strings, nothing behind the value. The reader is given a bound on its own steps;
the length of the text is always enough, so that values may nest to any depth.

Key definitions: `Json.parse?`, `Json.readString`, `Json.readNumber`.
-/
import Manuscript.Document.Color
import Manuscript.Json.Basic

namespace Manuscript.Json

/-- White space between the tokens of a text. -/
def isSpace (c : Char) : Bool := [' ', '\n', '\t', '\r'].contains c

/-- The text without the white space at its front. -/
def skipSpace (cs : List Char) : List Char := cs.dropWhile isSpace

/-- The value of four hexadecimal digits. -/
def unit? (a b c d : Char) : Option Nat := do
  let a ← Text.hexDigit? a
  let b ← Text.hexDigit? b
  let c ← Text.hexDigit? c
  let d ← Text.hexDigit? d
  some (((a * 16 + b) * 16 + c) * 16 + d)

/-- The first half of a surrogate pair. -/
def isHigh (u : Nat) : Bool := 0xd800 ≤ u && u ≤ 0xdbff

/-- The second half of a surrogate pair. -/
def isLow (u : Nat) : Bool := 0xdc00 ≤ u && u ≤ 0xdfff

/-- The character of a surrogate pair. -/
def ofPair (high low : Nat) : Char := Char.ofNat (0x10000 + (high - 0xd800) * 0x400 + (low - 0xdc00))

/-- The character of a short escape. -/
def shortEscape? : Char → Option Char
  | '"' => some '"'
  | '\\' => some '\\'
  | '/' => some '/'
  | 'b' => some '\x08'
  | 'f' => some '\x0c'
  | 'n' => some '\n'
  | 'r' => some '\r'
  | 't' => some '\t'
  | _ => none

/-- Puts a character in front of a string that was read. -/
def consChar (c : Char) (r : Option (List Char) × List Char) : Option (List Char) × List Char :=
  (r.1.map (c :: ·), r.2)

/-- Forgets a string that was read, for a surrogate that stands alone. -/
def unpaired (r : Option (List Char) × List Char) : Option (List Char) × List Char := (none, r.2)

/-- The second half of a surrogate pair at the front of a text, and what follows it. -/
def takeLow? : List Char → Option (Nat × List Char)
  | '\\' :: 'u' :: a :: b :: c :: d :: rest =>
    match unit? a b c d with
    | some v => if isLow v then some (v, rest) else none
    | none => none
  | _ => none

theorem length_takeLow? {cs rest : List Char} {v : Nat} (h : takeLow? cs = some (v, rest)) :
    rest.length < cs.length := by
  unfold takeLow? at h
  split at h
  · split at h
    · split at h
      · simp only [Option.some.injEq, Prod.mk.injEq] at h
        obtain ⟨-, rfl⟩ := h
        simp only [List.length_cons]
        omega
      · simp at h
    · simp at h
  · simp at h

/-- Reads a string behind its opening quote: its characters, and what follows the closing
quote. -/
def readString : List Char → Option (Option (List Char) × List Char)
  | [] => none
  | '"' :: rest => some (some [], rest)
  | '\\' :: 'u' :: a :: b :: c :: d :: rest =>
    match unit? a b c d with
    | none => none
    | some u =>
      if isLow u then (readString rest).map unpaired
      else if isHigh u then
        match _h : takeLow? rest with
        | some (v, after) => (readString after).map (consChar (ofPair u v))
        | none => (readString rest).map unpaired
      else (readString rest).map (consChar (Char.ofNat u))
  | '\\' :: e :: rest =>
    match shortEscape? e with
    | some c => (readString rest).map (consChar c)
    | none => none
  | c :: rest => if c.toNat < 0x20 || c == '\\' then none else (readString rest).map (consChar c)
termination_by cs => cs.length
decreasing_by
  all_goals try have := length_takeLow? _h
  all_goals simp only [List.length_cons]
  all_goals omega

/-- Splits off the digits at the front; there must be one. -/
def takeDigits? (cs : List Char) : Option (List Char × List Char) :=
  match cs.span Char.isDigit with
  | ([], _) => none
  | r => some r

/-- The whole part of a number: a zero, or digits that do not start with one. -/
def readWhole : List Char → Option (List Char × List Char)
  | '0' :: rest => some (['0'], rest)
  | cs => takeDigits? cs

/-- The fraction of a number, if it has one. -/
def readFraction : List Char → Option (List Char × List Char)
  | '.' :: rest => (takeDigits? rest).map fun (ds, rest) => ('.' :: ds, rest)
  | cs => some ([], cs)

/-- The sign of an exponent, if it has one. -/
def takeSign : List Char → List Char × List Char
  | '+' :: rest => (['+'], rest)
  | '-' :: rest => (['-'], rest)
  | cs => ([], cs)

/-- The exponent of a number, if it has one. -/
def readExponent : List Char → Option (List Char × List Char)
  | c :: rest =>
    if c == 'e' || c == 'E' then
      let (sign, rest) := takeSign rest
      (takeDigits? rest).map fun (ds, rest) => (c :: (sign ++ ds), rest)
    else some ([], c :: rest)
  | [] => some ([], [])

/-- Reads a number: its text, and what follows it. -/
def readNumber (cs : List Char) : Option (List Char × List Char) := do
  let (sign, rest) := match cs with
    | '-' :: rest => (['-'], rest)
    | cs => ([], cs)
  let (whole, rest) ← readWhole rest
  let (fraction, rest) ← readFraction rest
  let (exponent, rest) ← readExponent rest
  some (sign ++ whole ++ fraction ++ exponent, rest)

mutual

/-- Reads a value behind white space. -/
def readValue : Nat → List Char → Option (Json × List Char)
  | 0, _ => none
  | steps + 1, cs =>
    match skipSpace cs with
    | 'n' :: 'u' :: 'l' :: 'l' :: rest => some (null, rest)
    | 't' :: 'r' :: 'u' :: 'e' :: rest => some (bool true, rest)
    | 'f' :: 'a' :: 'l' :: 's' :: 'e' :: rest => some (bool false, rest)
    | '"' :: rest => (readString rest).map fun (s, rest) => (string (s.map String.ofList), rest)
    | '[' :: rest =>
      match skipSpace rest with
      | ']' :: rest => some (array [], rest)
      | rest => (readItems steps rest).map fun (items, rest) => (array items, rest)
    | '\x7b' :: rest =>
      match skipSpace rest with
      | '\x7d' :: rest => some (object [], rest)
      | rest => (readEntries steps rest).map fun (entries, rest) => (object entries, rest)
    | rest => (readNumber rest).map fun (lexeme, rest) => (number (String.ofList lexeme), rest)

/-- Reads the items of an array up to its closing bracket; there is at least one. -/
def readItems : Nat → List Char → Option (List Json × List Char)
  | 0, _ => none
  | steps + 1, cs =>
    match readValue steps cs with
    | none => none
    | some (item, rest) =>
      match skipSpace rest with
      | ']' :: rest => some ([item], rest)
      | ',' :: rest => (readItems steps rest).map fun (items, rest) => (item :: items, rest)
      | _ => none

/-- Reads the entries of an object up to its closing brace; there is at least one. -/
def readEntries : Nat → List Char → Option (List (Option String × Json) × List Char)
  | 0, _ => none
  | steps + 1, cs =>
    match skipSpace cs with
    | '"' :: rest =>
      match readString rest with
      | none => none
      | some (name, rest) =>
        match skipSpace rest with
        | ':' :: rest =>
          match readValue steps rest with
          | none => none
          | some (value, rest) =>
            let entry := (name.map String.ofList, value)
            match skipSpace rest with
            | '\x7d' :: rest => some ([entry], rest)
            | ',' :: rest =>
              (readEntries steps rest).map fun (entries, rest) => (entry :: entries, rest)
            | _ => none
        | _ => none
    | _ => none

end

/-- Reads a whole text as one JSON value. -/
def parse? (s : String) : Option Json := do
  let cs := s.toList
  let (j, rest) ← readValue (2 * cs.length + 2) cs
  if (skipSpace rest).isEmpty then some j else none

end Manuscript.Json
