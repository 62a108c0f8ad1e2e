/-
# Faults

What can go wrong with a value made by hand: a cut inside a character, or an
index that names nothing. Values that come out of the library's own stages never
fault.

Key definitions: `Fault`.
-/

namespace Manuscript

/-- Why a checked operation has no result. -/
inductive Fault where
  /-- A text was cut inside a character. -/
  | offBoundary
  /-- No character of the program has this index. -/
  | noCharacter (index : Nat)
  /-- No function of the program has this index. -/
  | noFunction (index : Nat)
  /-- No block of the function has this index. -/
  | noBlock (index : Nat)
deriving Repr, DecidableEq

/-- The value, or the fault that its absence means. -/
def Fault.unless {α : Type} (fault : Fault) : Option α → Except Fault α
  | some a => .ok a
  | none => .error fault

end Manuscript
