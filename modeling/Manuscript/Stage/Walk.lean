/-
# Walking the instructions of a function

Every instruction of a block is carried out on a snapshot of the stage, and what
it amounts to is emitted: tags become whole states, a change of state becomes a
show if the character is on screen, and what has no effect is dropped. Scenes that
are not declared are added to the list of scenes, and states without art are
collected, since the script has to define them.

Key definitions: `Walk`, `Walk.inst`, `Walk.insts`.
-/
import Manuscript.Settings.Basic
import Manuscript.Stage.Snapshot
import Manuscript.Text.Split

namespace Manuscript

/-- A state of a character that the script shows without art of its own. -/
abbrev Placeholder := CharacterId × List String

namespace Placeholder

/-- The order of placeholders: by character, then by path. -/
def before (a b : Placeholder) : Bool := a.1 < b.1 || (a.1 == b.1 && decide (a.2 < b.2))

/-- Adds a placeholder to an ordered list, once. -/
def insert (a : Placeholder) : List Placeholder → List Placeholder
  | [] => [a]
  | b :: rest =>
    if a = b then b :: rest
    else if before a b then a :: b :: rest
    else b :: insert a rest

end Placeholder

/-- What a walk collects. -/
structure Walk where
  /-- The scenes declared, then those that were added. -/
  scenes : List Scene
  placeholders : List Placeholder
  diags : List Diagnostic
  /-- The characters whose state became unknown in this function. -/
  unknown : List CharacterId
deriving Repr

/-- The outcome of one instruction: what is emitted, the stage after it, and what was
collected. -/
structure Walked where
  emitted : Option Inst
  stage : Snapshot
  walk : Walk
deriving Repr

namespace Walk

/-- Adds a report. -/
def report (w : Walk) (d : Diagnostic) : Walk := { w with diags := w.diags ++ [d] }

/-- Reports an instruction that does not fit the stage, unless the character's state is
unknown. -/
def stateError (p : Program) (w : Walk) (id : CharacterId) (reason : String) (loc : Loc) :
    Except Fault Walk :=
  if w.unknown.contains id then .ok w
  else do
    let c ← p.character id
    return w.report (.make .characterStateError [("name", c.name), ("reason", reason)] (some loc))

/-- The state that tags lead to from the current state. Tags that lead nowhere are kept as
the state, which is then unknown. -/
def resolve (p : Program) (w : Walk) (stage : Snapshot) (id : CharacterId) (tags : List String)
    (loc : Loc) : Except Fault (List String × Walk) := do
  let c ← p.character id
  let resolved := if c.sprites.isEmpty && tags.isEmpty then some []
    else c.sprites.resolve? (stage.get id).path tags
  match resolved with
  | some path => return (path, w)
  | none =>
    let d := Diagnostic.make .characterStateEmpty
      [("name", c.name), ("state", Text.join " " tags)] (some loc)
    return (tags, { w.report d with unknown := id :: w.unknown })

/-- Puts a character on screen; a state without art is collected. -/
def place (p : Program) (w : Walk) (stage : Snapshot) (id : CharacterId) (path : List String) :
    Except Fault (Snapshot × Walk) := do
  let c ← p.character id
  let w := if c.sprites.isComplete path then w
    else { w with placeholders := Placeholder.insert (id, path) w.placeholders }
  return (stage.place id path, w)

/-- Emits the show of a state that was resolved. -/
def emitShow (p : Program) (w : Walk) (stage : Snapshot) (id : CharacterId) (path : List String)
    (loc : Loc) : Except Fault Walked := do
  let (stage, w) ← place p w stage id path
  return ⟨some ⟨.showCharacter id path, loc⟩, stage, w⟩

/-- A line with a status: the status is a change of state if it leads somewhere new, and
else only a note. -/
def sayWithStatus (p : Program) (w : Walk) (stage : Snapshot) (id : CharacterId)
    (status : List String) (content : StyledText) (loc : Loc) : Except Fault Walked := do
  let c ← p.character id
  let now := stage.get id
  let line (attributes : List String) : Option Inst := some ⟨.say (some id) attributes content, loc⟩
  match c.sprites.resolve? now.path status with
  | some path =>
    if path = now.path then return ⟨line [], stage, w⟩
    else return ⟨line (if now.shown then path else []), stage.setPath id path, w⟩
  | none => return ⟨line [], stage, w⟩

/-- A command to show a character. -/
def showCharacter (p : Program) (policy : ReentrantShow) (w : Walk) (stage : Snapshot)
    (id : CharacterId) (tags : List String) (loc : Loc) : Except Fault Walked := do
  let (path, w) ← resolve p w stage id tags loc
  let now := stage.get id
  if now.shown then
    match policy with
    | .updateState =>
      if path = now.path then return ⟨none, stage, w⟩ else emitShow p w stage id path loc
    | .reject => return ⟨none, stage, ← stateError p w id "shown while already on screen" loc⟩
  else emitShow p w stage id path loc

/-- A command to hide a character. -/
def hideCharacter (p : Program) (w : Walk) (stage : Snapshot) (id : CharacterId) (loc : Loc) :
    Except Fault Walked := do
  if stage.isShown id then return ⟨some ⟨.hideCharacter id, loc⟩, stage.hide id, w⟩
  else return ⟨none, stage, ← stateError p w id "hidden while not on screen" loc⟩

/-- A command to change a character's state. -/
def setState (p : Program) (w : Walk) (stage : Snapshot) (id : CharacterId) (tags : List String)
    (loc : Loc) : Except Fault Walked := do
  let (path, w) ← resolve p w stage id tags loc
  let now := stage.get id
  if now.shown then
    if path = now.path then return ⟨none, stage, w⟩ else emitShow p w stage id path loc
  else return ⟨none, stage.setPath id path, w⟩

/-- A change of scene; a scene that is not declared is added. -/
def setScene (w : Walk) (stage : Snapshot) (scene : String) (loc : Loc) : Walked :=
  let w := if w.scenes.any (·.name == scene) then w
    else { w.report (.make .sceneNotFound [("name", scene)] (some loc)) with
      scenes := w.scenes ++ [⟨scene, none⟩] }
  ⟨some ⟨.setScene scene, loc⟩, stage.setScene (some scene), w⟩

/-- Carries out one instruction. -/
def inst (p : Program) (policy : ReentrantShow) (w : Walk) (stage : Snapshot) (i : Inst) :
    Except Fault Walked :=
  match i.action with
  | .say (some id) (tag :: tags) content => sayWithStatus p w stage id (tag :: tags) content i.loc
  | .say speaker _ content => .ok ⟨some ⟨.say speaker [] content, i.loc⟩, stage, w⟩
  | .showCharacter id tags => showCharacter p policy w stage id tags i.loc
  | .hideCharacter id => hideCharacter p w stage id i.loc
  | .setState id tags => setState p w stage id tags i.loc
  | .setScene scene => .ok (setScene w stage scene i.loc)
  | .clearScene => .ok ⟨some i, stage.setScene none, w⟩
  | .showImage _ | .play .. | .verbatim _ | .comment _ => .ok ⟨some i, stage, w⟩

/-- Carries out instructions in order: what they emit, the stage after them, and what was
collected. -/
def insts (p : Program) (policy : ReentrantShow) :
    Walk → Snapshot → List Inst → Except Fault (List Inst × Snapshot × Walk)
  | w, stage, [] => .ok ([], stage, w)
  | w, stage, i :: rest => do
    let r ← inst p policy w stage i
    let (emitted, stage, w) ← insts p policy r.walk r.stage rest
    return (r.emitted.toList ++ emitted, stage, w)

end Walk
end Manuscript
