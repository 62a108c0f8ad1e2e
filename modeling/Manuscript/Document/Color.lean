/-
# Colours

A colour is three bytes, written as six hexadecimal digits after a number sign.
Reading allows blanks around it, capital digits, and the sign to be missing.

Key definitions: `Color`, `Color.parse?`, `Color.render`.
-/
import Manuscript.Text.Blank

namespace Manuscript

/-- The value of a hexadecimal digit. -/
def Text.hexDigit? (c : Char) : Option Nat :=
  if '0' ≤ c ∧ c ≤ '9' then some (c.toNat - '0'.toNat)
  else if 'a' ≤ c ∧ c ≤ 'f' then some (c.toNat - 'a'.toNat + 10)
  else if 'A' ≤ c ∧ c ≤ 'F' then some (c.toNat - 'A'.toNat + 10)
  else none

/-- The small hexadecimal digit of a value below sixteen. -/
def Text.hexDigit (n : Nat) : Char :=
  if n < 10 then Char.ofNat ('0'.toNat + n) else Char.ofNat ('a'.toNat + (n - 10))

/-- A colour by its red, green and blue parts. -/
structure Color where
  red : UInt8
  green : UInt8
  blue : UInt8
deriving Repr, DecidableEq

namespace Color

/-- The colour of paper. -/
def white : Color := ⟨255, 255, 255⟩

/-- The byte of two hexadecimal digits. -/
def byte? (hi lo : Char) : Option UInt8 := do
  let h ← Text.hexDigit? hi
  let l ← Text.hexDigit? lo
  some (UInt8.ofNat (16 * h + l))

/-- Reads exactly six hexadecimal digits. -/
def ofDigits? : List Char → Option Color
  | [a, b, c, d, e, f] => do
    some ⟨← byte? a b, ← byte? c d, ← byte? e f⟩
  | _ => none

/-- Reads a colour: six hexadecimal digits, after a number sign or not, between blanks or
not. -/
def parse? (s : String) : Option Color :=
  match Text.trim s.toList with
  | '#' :: digits => ofDigits? digits
  | digits => ofDigits? digits

/-- The two digits of a byte. -/
def digits (b : UInt8) : List Char := [Text.hexDigit (b.toNat / 16), Text.hexDigit (b.toNat % 16)]

/-- Writes a colour as a number sign and six small hexadecimal digits. -/
def render (c : Color) : String :=
  String.ofList ('#' :: (digits c.red ++ digits c.green ++ digits c.blue))

theorem forall_mem_digits {p : Char → Prop} (h : ∀ n < 16, p (Text.hexDigit n)) (b : UInt8) :
    ∀ d ∈ digits b, p d := by
  have hlt : b.toNat < 256 := b.toNat_lt
  have hhigh : p (Text.hexDigit (b.toNat / 16)) := h _ (by omega)
  have hlow : p (Text.hexDigit (b.toNat % 16)) := h _ (by omega)
  exact List.forall_mem_cons.2 ⟨hhigh, List.forall_mem_singleton.2 hlow⟩

/-- What holds of the number sign and the digits holds of a written colour. -/
theorem forall_mem_render {p : Char → Prop} (hsign : p '#') (h : ∀ n < 16, p (Text.hexDigit n))
    (c : Color) : ∀ d ∈ c.render.toList, p d := by
  rw [render, String.toList_ofList]
  refine List.forall_mem_cons.2 ⟨hsign, List.forall_mem_append.2 ⟨List.forall_mem_append.2 ?_, ?_⟩⟩
  · exact ⟨forall_mem_digits h c.red, forall_mem_digits h c.green⟩
  · exact forall_mem_digits h c.blue

end Color
end Manuscript
