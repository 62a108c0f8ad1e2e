/-
# Unquoted values

Truth values, numbers and moments. Integers stand in base ten, perhaps with a
sign, or without a sign and with a mark in base 16, 8 or 2. Underscores group
the digits.

The form of a number is told apart from its value. Reading decides on the form
from the first characters and from what stands beside the underscores; a text of
the form of a number may still have no value, as an integer beyond 64 bits, a
mark of a base with no digits behind it, grouped digits of another base, or a
float whose nearest double is infinite.

Key definitions: `Toml.scalar?`, `Toml.isGrouped`, `Toml.whole?`, `Toml.inBase?`,
`Toml.float?`.
-/
import Manuscript.Document.Color
import Manuscript.Text.Split
import Manuscript.Toml.Draft

namespace Manuscript.Toml

/-- Splits off a sign, if there is one: whether it is a minus, and what follows. -/
def takeSign : List Char → Bool × List Char
  | '+' :: rest => (false, rest)
  | '-' :: rest => (true, rest)
  | cs => (false, cs)

/-! ### Grouping -/

/-- The text without its underscores. -/
def ungrouped (cs : List Char) : List Char := cs.filter (· != '_')

/-- Every underscore stands between two digits. -/
def isGrouped (isDigit : Char → Bool) (cs : List Char) : Bool :=
  let parts := Text.splitBy (· == '_') cs
  parts.length == 1 ||
    ((parts.drop 1).all (fun part => part.head?.any isDigit) &&
      parts.dropLast.all fun part => part.getLast?.any isDigit)

/-! ### Integers -/

/-- A digit of a base up to 16. -/
def isDigitIn (base : Nat) (c : Char) : Bool := (Text.hexDigit? c).any (· < base)

/-- The value of digits in a base up to 16; there is at least one. -/
def valueIn? (base : Nat) (ds : List Char) : Option Nat :=
  if !ds.isEmpty && ds.all (isDigitIn base) then
    some (ds.foldl (fun n c => n * base + (Text.hexDigit? c).getD 0) 0)
  else none

/-- The integer of a sign and digits, if they have a value and 64 bits hold it. -/
def ofDigits (base : Nat) (minus : Bool) (ds : List Char) : Draft :=
  match valueIn? base ds with
  | none => .valueless
  | some m =>
    let n : Int := if minus then -m else m
    if -9223372036854775808 ≤ n ∧ n ≤ 9223372036854775807 then .scalar (integer n) else .valueless

/-- An integer in base ten, which starts with a zero only if that is all of it. Digits up to f count
beside the underscores. -/
def whole? (cs : List Char) : Option Draft :=
  let (minus, body) := takeSign cs
  if body.isEmpty || (body.head? == some '0' && body.length != 1) then none
  else if isGrouped (isDigitIn 16) cs then some (ofDigits 10 minus (ungrouped body))
  else none

/-- The digits of an integer in a base that is marked. -/
def inBase? (base : Nat) (cs : List Char) : Option Draft :=
  if isGrouped (isDigitIn 16) cs && (ungrouped cs).all (isDigitIn base) then
    some (ofDigits base false (ungrouped cs))
  else none

/-! ### Floats -/

/-- Half a unit above the greatest double: from here on, the nearest double is infinite. -/
def doubleLimit : Nat := Nat.pow 2 1024 - Nat.pow 2 970

/-- The nearest double of `m · 10 ^ scale` is infinite. Powers are taken only for numbers of 309
digits before the point, those of the greatest double. -/
def overflows (m : Nat) (scale : Int) : Bool :=
  let size := (Nat.toDigits 10 m).length + scale
  m != 0 && (decide (309 < size) ||
    decide (size = 309) && decide (doubleLimit * Nat.pow 10 (-scale).toNat ≤ m * Nat.pow 10 scale.toNat))

/-- Splits off digits and the underscores among them: the digits, at least one, and what follows. -/
def takeDigits? (cs : List Char) : Option (List Char × List Char) :=
  let (front, rest) := cs.span fun c => c.isDigit || c == '_'
  if (ungrouped front).isEmpty then none else some (ungrouped front, rest)

/-- The digits of a fraction, none if there is no point, and what follows. -/
def takePlaces? : List Char → Option (List Char × List Char)
  | '.' :: rest => takeDigits? rest
  | cs => some ([], cs)

/-- The value of an exponent, zero if there is none. -/
def exponent? : List Char → Option Int
  | [] => some 0
  | c :: rest =>
    if c == 'e' || c == 'E' then
      let (minus, rest) := takeSign rest
      match takeDigits? rest with
      | some (ds, []) => some (if minus then -(decimal ds : Int) else decimal ds)
      | _ => none
    else none

/-- The value of a float without its sign, as `m` and `scale` of `m · 10 ^ scale`. -/
def finite? (cs : List Char) : Option (Nat × Int) := do
  let (ds, rest) ← takeDigits? cs
  if cs.head? = some '0' ∧ ds.length ≠ 1 then none
  let (places, rest) ← takePlaces? rest
  let e ← exponent? rest
  some (decimal (ds ++ places), e - places.length)

/-- A float, without a value if its nearest double is infinite. -/
def float? (cs : List Char) : Option Draft :=
  if isGrouped Char.isDigit cs then
    (finite? (takeSign cs).2).map fun (m, scale) =>
      if overflows m scale then .valueless else .scalar (float (String.ofList cs))
  else none

/-! ### Values -/

/-- A number or a moment that starts with digits in base ten, told apart by what follows them. -/
def numeric? (cs : List Char) : Option Draft :=
  let rest := (takeSign cs).2.dropWhile Char.isDigit
  match rest with
  | '-' :: _ => (Moment.parse? cs).map fun m => .scalar (moment m)
  | ':' :: _ => (Moment.parse? cs).map fun m => .scalar (moment m)
  | _ =>
    if rest.any fun c => ['.', 'e', 'E'].contains c then float? cs
    else if rest.isEmpty || rest.head? == some '_' then whole? cs
    else none

/-- An unquoted value. -/
def scalar? (cs : List Char) : Option Draft :=
  if cs = ['t', 'r', 'u', 'e'] then some (.scalar (boolean true))
  else if cs = ['f', 'a', 'l', 's', 'e'] then some (.scalar (boolean false))
  else if [['i', 'n', 'f'], ['n', 'a', 'n']].contains (takeSign cs).2 then
    some (.scalar (float (String.ofList cs)))
  else
    match cs with
    | '0' :: 'x' :: ds => inBase? 16 ds
    | '0' :: 'o' :: ds => inBase? 8 ds
    | '0' :: 'b' :: ds => inBase? 2 ds
    | cs => numeric? cs

end Manuscript.Toml
