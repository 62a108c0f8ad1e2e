/-
# Snapshots of the stage

What is on screen at a point of a run: the scene, and for every character its
state and whether it is shown. A character off screen keeps its state, but only
what is shown can be seen: `Snapshot.visible` is the screen that it makes.

`Snapshot.diff` gives the instructions that make what is visible in one snapshot
visible from another: the scene first, which empties the stage, then the
characters in their order.

Key definitions: `Presence`, `Screen`, `Snapshot`, `Snapshot.visible`,
`Snapshot.diff`.
Key theorems: `Snapshot.get_update_self`, `Snapshot.get_update_of_ne`.
-/
import Manuscript.Program.Basic

namespace Manuscript

/-- The state of a character, and whether it is on screen. -/
structure Presence where
  path : List String
  shown : Bool
deriving Repr, DecidableEq

namespace Presence

/-- Off screen, without a state. -/
def absent : Presence := ⟨[], false⟩

/-- Off screen, in the same state. -/
def offScreen (p : Presence) : Presence := { p with shown := false }

/-- What can be seen of a character: its state, if it is on screen. -/
def seen (p : Presence) : Option (List String) := if p.shown then some p.path else none

end Presence

/-- What can be seen: the scene, and the state of every character on screen. -/
@[ext] structure Screen where
  scene : Option String
  shown : CharacterId → Option (List String)

/-- The presence of characters, in increasing order of the characters. -/
abbrev Cast := List (CharacterId × Presence)

namespace Cast

/-- Every character stands once, in increasing order. -/
def Ordered (cast : Cast) : Prop := cast.Pairwise fun a b => a.1 < b.1

/-- Changes the presence of one character, keeping the order. -/
def update (id : CharacterId) (f : Presence → Presence) : Cast → Cast
  | [] => [(id, f .absent)]
  | (k, p) :: rest =>
    if id < k then (id, f .absent) :: (k, p) :: rest
    else if id = k then (k, f p) :: rest
    else (k, p) :: update id f rest

/-- An update adds no other character. -/
theorem fst_mem_update {id : CharacterId} {f : Presence → Presence} : ∀ {cast : Cast}
    {e : CharacterId × Presence}, e ∈ update id f cast → e.1 = id ∨ ∃ d ∈ cast, d.1 = e.1
  | [], e, h => by simp [update] at h; simp [h]
  | (k, p) :: rest, e, h => by
    unfold update at h
    split at h
    · rcases List.mem_cons.1 h with rfl | h
      · exact .inl rfl
      · exact .inr ⟨e, h, rfl⟩
    · split at h
      · rename_i heq
        rcases List.mem_cons.1 h with rfl | h
        · exact .inl heq.symm
        · exact .inr ⟨e, List.mem_cons_of_mem _ h, rfl⟩
      · rcases List.mem_cons.1 h with rfl | h
        · exact .inr ⟨_, List.mem_cons_self, rfl⟩
        · rcases fst_mem_update h with h | ⟨d, hd, he⟩
          · exact .inl h
          · exact .inr ⟨d, List.mem_cons_of_mem _ hd, he⟩

theorem ordered_update (id : CharacterId) (f : Presence → Presence) : ∀ {cast : Cast},
    Ordered cast → Ordered (update id f cast)
  | [], _ => by simp [update, Ordered]
  | (k, p) :: rest, h => by
    have hk := (List.pairwise_cons.1 h).1
    have hr := (List.pairwise_cons.1 h).2
    unfold update
    split
    · rename_i hlt
      refine List.pairwise_cons.2 ⟨?_, h⟩
      intro e he
      rcases List.mem_cons.1 he with rfl | he
      · exact hlt
      · exact Nat.lt_trans hlt (hk e he)
    · split
      · exact List.pairwise_cons.2 ⟨hk, hr⟩
      · rename_i hnlt hne
        refine List.pairwise_cons.2 ⟨?_, ordered_update id f hr⟩
        intro e he
        rcases fst_mem_update he with h | ⟨d, hd, hde⟩
        · show k < e.1
          rw [h]
          exact Nat.lt_of_le_of_ne (Nat.le_of_not_lt hnlt) (Ne.symm hne)
        · rw [← hde]
          exact hk d hd

theorem lookup_update_self (id : CharacterId) (f : Presence → Presence) : ∀ {cast : Cast},
    Ordered cast → (update id f cast).lookup id = some (f ((cast.lookup id).getD .absent))
  | [], _ => by simp [update]
  | (k, p) :: rest, h => by
    have hk := (List.pairwise_cons.1 h).1
    have hr := (List.pairwise_cons.1 h).2
    unfold update
    split
    · rename_i hlt
      have hne : (id == k) = false := beq_eq_false_iff_ne.2 (Nat.ne_of_lt hlt)
      have hrest : rest.lookup id = none := by
        rw [List.lookup_eq_none_iff]
        intro q hq
        simpa using Nat.ne_of_lt (Nat.lt_trans hlt (hk q hq))
      simp [List.lookup_cons, hne, hrest]
    · split
      · rename_i heq
        subst heq
        simp
      · rename_i hne
        have hb : (id == k) = false := by simpa using hne
        simp [List.lookup_cons, hb, lookup_update_self id f hr]

theorem lookup_update_of_ne {id other : CharacterId} (f : Presence → Presence)
    (hne : other ≠ id) : ∀ cast : Cast, (update id f cast).lookup other = cast.lookup other
  | [] => by
    have hb : (other == id) = false := by simpa using hne
    simp [update, List.lookup_cons, hb]
  | (k, p) :: rest => by
    have hb : (other == id) = false := by simpa using hne
    unfold update
    split
    · simp [List.lookup_cons, hb]
    · split
      · rename_i heq
        subst heq
        simp [List.lookup_cons, hb]
      · simp [List.lookup_cons, lookup_update_of_ne f hne rest]

end Cast

/-- The scene, and the presence of the characters. -/
structure Snapshot where
  scene : Option String
  cast : Cast
  ordered : cast.Ordered
deriving Repr, DecidableEq

namespace Snapshot

/-- No scene and no characters. -/
def empty : Snapshot := ⟨none, [], .nil⟩

/-- Everybody off screen in the default state. -/
def initialCast (characters : List Character) : Cast :=
  characters.zipIdx.map fun (c, i) => (i, ⟨c.sprites.defaultPath, false⟩)

theorem ordered_initialCast (characters : List Character) : (initialCast characters).Ordered := by
  unfold Cast.Ordered initialCast
  rw [List.pairwise_map, List.pairwise_iff_getElem]
  intro i j hi hj hij
  simpa using hij

/-- No scene, and every character of the program off screen in its default state. -/
def initial (p : Program) : Snapshot :=
  ⟨none, initialCast p.characters, ordered_initialCast p.characters⟩

/-- The presence of a character that the snapshot knows. -/
def find? (s : Snapshot) (id : CharacterId) : Option Presence := s.cast.lookup id

/-- The presence of a character. -/
def get (s : Snapshot) (id : CharacterId) : Presence := (s.find? id).getD .absent

/-- The character is on screen. -/
def isShown (s : Snapshot) (id : CharacterId) : Bool := (s.get id).shown

/-- Changes the presence of one character. -/
def update (s : Snapshot) (id : CharacterId) (f : Presence → Presence) : Snapshot :=
  ⟨s.scene, Cast.update id f s.cast, Cast.ordered_update id f s.ordered⟩

/-- Puts a character on screen in a state. -/
def place (s : Snapshot) (id : CharacterId) (path : List String) : Snapshot :=
  s.update id fun _ => ⟨path, true⟩

/-- Takes a character off screen. -/
def hide (s : Snapshot) (id : CharacterId) : Snapshot := s.update id Presence.offScreen

/-- Changes the state of a character. -/
def setPath (s : Snapshot) (id : CharacterId) (path : List String) : Snapshot :=
  s.update id fun p => { p with path }

/-- Changes the scene, which takes everybody off screen. -/
def setScene (s : Snapshot) (scene : Option String) : Snapshot :=
  ⟨scene, s.cast.map fun (id, p) => (id, p.offScreen), by
    have h := s.ordered
    unfold Cast.Ordered at h ⊢
    rwa [List.pairwise_map]⟩

/-- What can be seen of a snapshot. -/
def visible (s : Snapshot) : Screen := ⟨s.scene, fun id => (s.get id).seen⟩

/-- An instruction that no place of the document calls for. -/
def patch (a : Action) : Inst := ⟨a, ⟨0, 0, 0⟩⟩

/-- The instruction that changes the scene. -/
def sceneInst : Option String → Inst
  | some scene => patch (.setScene scene)
  | none => patch .clearScene

/-- The instruction, if one is needed, that brings a character from the presence `now` to
the presence `want`. -/
def castInst (id : CharacterId) (want now : Presence) : List Inst :=
  if want.shown then
    if now.shown && want.path == now.path then [] else [patch (.showCharacter id want.path)]
  else if now.shown then [patch (.hideCharacter id)]
  else []

/-- The snapshot with the scene of `goal`, and the instruction that changes it if it differs. -/
def matchScene (goal other : Snapshot) : List Inst × Snapshot :=
  if goal.scene = other.scene then ([], other)
  else ([sceneInst goal.scene], other.setScene goal.scene)

/-- The instructions that bring what is visible in `other` to what is visible in `goal`. -/
def diff (goal other : Snapshot) : List Inst :=
  let (change, now) := matchScene goal other
  change
    ++ goal.cast.flatMap (fun (id, want) => castInst id want (now.get id))
    ++ now.cast.flatMap fun (id, p) =>
      if p.shown && (goal.find? id).isNone then [patch (.hideCharacter id)] else []

/-! ### Presence after an update -/

@[simp] theorem get_update_self (s : Snapshot) (id : CharacterId) (f : Presence → Presence) :
    (s.update id f).get id = f (s.get id) := by
  simp [get, find?, update, Cast.lookup_update_self id f s.ordered]

@[simp] theorem get_update_of_ne (s : Snapshot) {id other : CharacterId}
    (f : Presence → Presence) (hne : other ≠ id) : (s.update id f).get other = s.get other := by
  simp [get, find?, update, Cast.lookup_update_of_ne f hne]

end Snapshot
end Manuscript
