/-
# Who speaks

The speaker of a line depends on the lines before it. In the default mode a named
line sets the active speaker, and unnamed quoted lines are theirs; in the single
mode every unnamed line has one speaker; in a rotation unnamed quoted lines go
round a list. A name on the line always wins and never moves a rotation.

Key definitions: `SayMode`, `Speakers`, `Speakers.say`, `Speakers.narration`.
-/
import Manuscript.Program.Basic

namespace Manuscript

/-- How the speaker of an unnamed line is found. -/
inductive SayMode where
  | standard
  | single (speaker : CharacterId)
  | rotation (speakers : List CharacterId) (next : Nat)
deriving Repr, DecidableEq

/-- The mode, and the active speaker of the default mode. -/
structure Speakers where
  mode : SayMode
  active : Option CharacterId
deriving Repr, DecidableEq

namespace Speakers

/-- The default mode, with nobody active. -/
def fresh : Speakers := ⟨.standard, none⟩

/-- Changes the mode. The active speaker is remembered. -/
def setMode (s : Speakers) (mode : SayMode) : Speakers := { s with mode }

/-- The speaker of a spoken line, and the speakers after it. -/
def say (s : Speakers) (named : Option CharacterId) (quoted : Bool) :
    Option CharacterId × Speakers :=
  match named with
  | some c => (some c, if s.mode = .standard then { s with active := some c } else s)
  | none =>
    match s.mode with
    | .standard => (if quoted then s.active else none, s)
    | .single c => (some c, s)
    | .rotation speakers next =>
      if quoted then
        match speakers[next % speakers.length]? with
        | some c => (some c, { s with mode := .rotation speakers ((next + 1) % speakers.length) })
        | none => (none, s)
      else (none, s)

/-- The speaker of a line of narration. -/
def narration (s : Speakers) : Option CharacterId :=
  match s.mode with
  | .single c => some c
  | _ => none

end Speakers
end Manuscript
