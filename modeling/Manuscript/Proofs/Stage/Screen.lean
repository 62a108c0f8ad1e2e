/-
# What a player sees

A screen is the scene together with the state of every character on it. Running
an instruction changes the screen and nothing else: a character off screen has no
state there. `Snapshot.visible` is the screen of a snapshot, and an instruction
that puts a character on stage or takes it off does the same to the screen.

A patch does what it is made for: running `Snapshot.diff goal other` takes the
screen of `other` to the screen of `goal`.

Key definitions: `Screen.step`, `Screen.run`.
Key theorems: `Snapshot.visible_update`, `Snapshot.run_diff`.
-/
import Mathlib.Logic.Function.Basic
import Mathlib.Tactic.Common
import Manuscript.Stage.Generate

namespace Manuscript

namespace Screen

/-- No scene, and nobody on screen. -/
def blank : Screen := ⟨none, fun _ => none⟩

/-- The screen with one character in a state, or gone. -/
def set (scr : Screen) (id : CharacterId) (state : Option (List String)) : Screen :=
  { scr with shown := Function.update scr.shown id state }

/-- Runs one instruction. A line with a status changes the state of its speaker if the
speaker is on screen. -/
def step (scr : Screen) (i : Inst) : Screen :=
  match i.action with
  | .showCharacter id path => scr.set id (some path)
  | .hideCharacter id => scr.set id none
  | .setScene scene => ⟨some scene, fun _ => none⟩
  | .clearScene => ⟨none, fun _ => none⟩
  | .say (some id) (tag :: tags) _ => scr.set id ((scr.shown id).map fun _ => tag :: tags)
  | _ => scr

/-- Runs instructions in order. -/
def run (scr : Screen) (is : List Inst) : Screen := is.foldl step scr

@[simp] theorem run_nil (scr : Screen) : scr.run [] = scr := rfl

@[simp] theorem run_cons (scr : Screen) (i : Inst) (is : List Inst) :
    scr.run (i :: is) = (scr.step i).run is := rfl

@[simp] theorem run_append (scr : Screen) (is js : List Inst) :
    scr.run (is ++ js) = (scr.run is).run js := List.foldl_append

@[simp] theorem scene_set (scr : Screen) (id : CharacterId) (state : Option (List String)) :
    (scr.set id state).scene = scr.scene := rfl

@[simp] theorem shown_set_self (scr : Screen) (id : CharacterId) (state : Option (List String)) :
    (scr.set id state).shown id = state := Function.update_self ..

@[simp] theorem shown_set_of_ne (scr : Screen) {id other : CharacterId}
    (state : Option (List String)) (h : other ≠ id) :
    (scr.set id state).shown other = scr.shown other := Function.update_of_ne h ..

/-- Giving a character the state it has changes nothing. -/
@[simp] theorem set_shown (scr : Screen) (id : CharacterId) : scr.set id (scr.shown id) = scr := by
  simp [set]

end Screen

namespace Snapshot

@[simp] theorem visible_scene (s : Snapshot) : s.visible.scene = s.scene := rfl

@[simp] theorem visible_shown (s : Snapshot) (id : CharacterId) :
    s.visible.shown id = (s.get id).seen := rfl

/-- An update of one character shows on screen at that character only. -/
theorem visible_update (s : Snapshot) (id : CharacterId) (f : Presence → Presence) :
    (s.update id f).visible = s.visible.set id (f (s.get id)).seen := by
  refine Screen.ext rfl (funext fun other => ?_)
  rw [visible_shown]
  by_cases h : other = id
  · subst h
    simp
  · rw [get_update_of_ne s f h, Screen.shown_set_of_ne _ _ h, visible_shown]

theorem visible_place (s : Snapshot) (id : CharacterId) (path : List String) :
    (s.place id path).visible = s.visible.set id (some path) := visible_update s id _

theorem visible_hide (s : Snapshot) (id : CharacterId) :
    (s.hide id).visible = s.visible.set id none := visible_update s id _

/-- A change of state shows on screen if the character does. -/
theorem visible_setPath (s : Snapshot) (id : CharacterId) (path : List String) :
    (s.setPath id path).visible = s.visible.set id ((s.visible.shown id).map fun _ => path) := by
  rw [setPath, visible_update, visible_shown]
  cases h : (s.get id).shown <;> simp [Presence.seen, h]

theorem visible_setPath_of_hidden {s : Snapshot} {id : CharacterId} (path : List String)
    (h : (s.get id).shown = false) : (s.setPath id path).visible = s.visible := by
  have hid : s.visible.shown id = none := by simp [Presence.seen, h]
  rw [visible_setPath, hid, Option.map_none, ← hid, Screen.set_shown]

theorem lookup_map_offScreen (id : CharacterId) : ∀ cast : Cast,
    (cast.map fun (k, p) => (k, p.offScreen)).lookup id = (cast.lookup id).map Presence.offScreen
  | [] => rfl
  | (k, p) :: rest => by
    by_cases h : id == k <;> simp [List.lookup_cons, h, lookup_map_offScreen id rest]

/-- After a change of scene nobody is on screen. -/
theorem get_setScene (s : Snapshot) (scene : Option String) (id : CharacterId) :
    (s.setScene scene).get id = (s.get id).offScreen := by
  simp only [get, find?, setScene, lookup_map_offScreen]
  cases s.cast.lookup id <;> rfl

theorem visible_setScene (s : Snapshot) (scene : Option String) :
    (s.setScene scene).visible = ⟨scene, fun _ => none⟩ := by
  refine Screen.ext rfl (funext fun id => ?_)
  rw [visible_shown, get_setScene]
  rfl

/-! ### Running a patch

The instructions for the characters follow two lists without repetition, so each
character is touched at most once in each. -/

/-- The screen that a presence makes at one character, reached by its instruction. -/
theorem run_castInst (scr : Screen) (id : CharacterId) (want now : Presence)
    (h : scr.shown id = now.seen) : scr.run (castInst id want now) = scr.set id want.seen := by
  unfold castInst
  by_cases hw : want.shown
  · rw [if_pos hw]
    by_cases hn : now.shown && want.path == now.path
    · rw [if_pos hn]
      simp only [Bool.and_eq_true, beq_iff_eq] at hn
      have hs : want.seen = scr.shown id := by simp [h, Presence.seen, hw, hn]
      rw [hs, Screen.set_shown, Screen.run_nil]
    · rw [if_neg hn]
      simp [patch, Screen.step, Presence.seen, hw]
  · have hs : want.seen = none := by simp [Presence.seen, hw]
    rw [if_neg hw, hs]
    by_cases hn : now.shown
    · rw [if_pos hn]
      simp [patch, Screen.step]
    · rw [if_neg hn]
      have hid : scr.shown id = none := by simp [h, Presence.seen, hn]
      rw [← hid, Screen.set_shown, Screen.run_nil]

/-- The instructions for the characters of `goal` bring those characters to their
presence there and leave the others as they are. -/
theorem run_goalCast (now : CharacterId → Presence) : ∀ (goal : Cast), goal.Ordered →
    ∀ scr : Screen, (∀ e ∈ goal, scr.shown e.1 = (now e.1).seen) →
      scr.run (goal.flatMap fun (id, want) => castInst id want (now id)) =
        ⟨scr.scene, fun id => ((goal.lookup id).map Presence.seen).getD (scr.shown id)⟩
  | [], _, scr, _ => rfl
  | (k, want) :: rest, ho, scr, h => by
    have hk : ∀ e ∈ rest, k < e.1 := (List.pairwise_cons.1 ho).1
    have hrest : ∀ e ∈ rest, (scr.set k want.seen).shown e.1 = (now e.1).seen := by
      intro e he
      rw [Screen.shown_set_of_ne _ _ (Nat.ne_of_gt (hk e he))]
      exact h e (List.mem_cons_of_mem _ he)
    rw [List.flatMap_cons, Screen.run_append,
      run_castInst scr k want (now k) (h (k, want) List.mem_cons_self),
      run_goalCast now rest (List.pairwise_cons.1 ho).2 _ hrest]
    refine Screen.ext rfl (funext fun id => ?_)
    by_cases hid : id = k
    · subst hid
      have hnone : rest.lookup id = none := by
        rw [List.lookup_eq_none_iff]
        intro e he
        simpa using Nat.ne_of_lt (hk e he)
      simp [hnone]
    · have hb : (id == k) = false := by simpa using hid
      simp [List.lookup_cons, hb, Screen.shown_set_of_ne _ _ hid]

/-- Hides the characters of a cast that satisfy `p`. -/
def hides (p : CharacterId × Presence → Bool) (cast : Cast) : List Inst :=
  cast.flatMap fun e => if p e then [patch (.hideCharacter e.1)] else []

theorem hides_cons (p : CharacterId × Presence → Bool) (e : CharacterId × Presence) (rest : Cast) :
    hides p (e :: rest) = (if p e then [patch (.hideCharacter e.1)] else []) ++ hides p rest := rfl

theorem scene_run_hides (p : CharacterId × Presence → Bool) : ∀ (cast : Cast) (scr : Screen),
    (scr.run (hides p cast)).scene = scr.scene
  | [], _ => rfl
  | e :: rest, scr => by
    rw [hides_cons, Screen.run_append, scene_run_hides p rest]
    by_cases hp : p e <;> simp [hp, patch, Screen.step]

theorem shown_run_hides_of_not {p : CharacterId × Presence → Bool} {id : CharacterId} :
    ∀ {cast : Cast} (scr : Screen), (∀ e ∈ cast, e.1 = id → p e = false) →
      (scr.run (hides p cast)).shown id = scr.shown id
  | [], _, _ => rfl
  | e :: rest, scr, h => by
    rw [hides_cons, Screen.run_append,
      shown_run_hides_of_not _ fun d hd => h d (List.mem_cons_of_mem _ hd)]
    by_cases hp : p e
    · have hid : id ≠ e.1 := fun he => by simp [h e List.mem_cons_self he.symm] at hp
      simp [hp, patch, Screen.step, Screen.shown_set_of_ne _ _ hid]
    · simp [hp]

theorem shown_run_hides_of_none {p : CharacterId × Presence → Bool} {id : CharacterId} :
    ∀ {cast : Cast} {scr : Screen}, scr.shown id = none →
      (scr.run (hides p cast)).shown id = none
  | [], _, h => h
  | e :: rest, scr, h => by
    rw [hides_cons, Screen.run_append]
    apply shown_run_hides_of_none
    by_cases hp : p e
    · by_cases hid : id = e.1
      · simp [hp, hid, patch, Screen.step]
      · simp [hp, patch, Screen.step, Screen.shown_set_of_ne _ _ hid, h]
    · simp [hp, h]

theorem shown_run_hides_of_mem {p : CharacterId × Presence → Bool} {e : CharacterId × Presence}
    (hp : p e) : ∀ {cast : Cast} (scr : Screen), e ∈ cast →
      (scr.run (hides p cast)).shown e.1 = none
  | d :: rest, scr, h => by
    rw [hides_cons, Screen.run_append]
    rcases List.mem_cons.1 h with rfl | h
    · apply shown_run_hides_of_none
      simp [hp, patch, Screen.step]
    · exact shown_run_hides_of_mem hp _ h

theorem run_matchScene (goal other : Snapshot) :
    other.visible.run (matchScene goal other).1 = (matchScene goal other).2.visible ∧
      (matchScene goal other).2.scene = goal.scene := by
  unfold matchScene
  by_cases h : goal.scene = other.scene
  · rw [if_pos h]
    exact ⟨rfl, h.symm⟩
  · rw [if_neg h]
    refine ⟨?_, rfl⟩
    rw [visible_setScene]
    cases goal.scene <;> rfl

theorem mem_cast_of_shown {s : Snapshot} {id : CharacterId} (h : (s.get id).shown) :
    (id, s.get id) ∈ s.cast := by
  unfold get find? at h ⊢
  cases hl : s.cast.lookup id with
  | none => simp [hl, Presence.absent] at h
  | some p =>
    obtain ⟨front, back, hcast, -⟩ := List.lookup_eq_some_iff.1 hl
    simp [hcast]

theorem find?_of_mem_cast {s : Snapshot} {id : CharacterId} {now : Presence}
    (h : (id, now) ∈ s.cast) : s.find? id = some now := by
  obtain ⟨front, back, hcast⟩ := List.append_of_mem h
  refine List.lookup_eq_some_iff.2 ⟨front, back, hcast, fun e he => ?_⟩
  have ho := s.ordered
  rw [hcast] at ho
  have hlt : e.1 < id := (List.pairwise_append.1 ho).2.2 e he _ List.mem_cons_self
  simpa using Nat.ne_of_gt hlt

theorem get_of_mem_cast {s : Snapshot} {id : CharacterId} {now : Presence}
    (h : (id, now) ∈ s.cast) : s.get id = now := by
  rw [get, find?_of_mem_cast h, Option.getD_some]

/-- The moves of characters that bring what is visible of them in `now` to what is visible in
`goal`: first the characters that `goal` knows, then those that only `now` knows. -/
def moves (goal now : Snapshot) : List Inst :=
  (goal.cast.flatMap fun (id, want) => castInst id want (now.get id))
    ++ hides (fun e => e.2.shown && (goal.find? e.1).isNone) now.cast

/-- A patch changes the scene if it has to, and then moves characters. -/
theorem diff_eq (goal other : Snapshot) : diff goal other =
    (matchScene goal other).1 ++ moves goal (matchScene goal other).2 :=
  List.append_assoc ..

/-- **A patch reaches its goal.** Running `diff goal other` on the screen of `other` gives the
screen of `goal`, also when each knows characters that the other does not. -/
theorem run_diff (goal other : Snapshot) : other.visible.run (diff goal other) = goal.visible := by
  obtain ⟨hrun, hscene⟩ := run_matchScene goal other
  rw [diff_eq, Screen.run_append, hrun, moves, Screen.run_append]
  set now := (matchScene goal other).2
  rw [run_goalCast now.get goal.cast goal.ordered now.visible fun _ _ => rfl]
  refine Screen.ext ?_ (funext fun id => ?_)
  · rw [scene_run_hides]
    exact hscene
  rw [visible_shown, get]
  cases hg : goal.find? id with
  | some want =>
    rw [shown_run_hides_of_not _ fun e _ he => by simp [he, hg]]
    simp [show goal.cast.lookup id = some want from hg]
  | none =>
    -- a character that `goal` does not know is hidden if it was left on screen
    by_cases hs : (now.get id).shown
    · exact shown_run_hides_of_mem (e := (id, now.get id)) (by simp [hs, hg]) _
        (mem_cast_of_shown hs)
    · refine shown_run_hides_of_none ?_
      simp [show goal.cast.lookup id = none from hg, Presence.seen, hs]

/-! ### What stands in a patch -/

/-- The instruction moves a character that is not in `now` as it is in `goal`, to where it is
in `goal`. -/
inductive Moves (goal now : Snapshot) : Inst → Prop where
  | place {id : CharacterId} {path : List String} : goal.visible.shown id = some path →
    now.visible.shown id ≠ some path → Moves goal now (patch (.showCharacter id path))
  | hide {id : CharacterId} : goal.visible.shown id = none → now.visible.shown id ≠ none →
    Moves goal now (patch (.hideCharacter id))

theorem moves_of_mem_castInst {goal now : Snapshot} {id : CharacterId} {i : Inst}
    (h : i ∈ castInst id (goal.get id) (now.get id)) : Moves goal now i := by
  unfold castInst at h
  split at h
  · rename_i hwant
    split at h
    · cases h
    · rename_i hnow
      rw [List.mem_singleton.1 h]
      refine .place (by simp [Presence.seen, hwant]) fun hsame => hnow ?_
      simp only [visible_shown, Presence.seen] at hsame
      split at hsame
      · rename_i hshown
        simpa [hshown] using hsame.symm
      · cases hsame
  · rename_i hwant
    split at h
    · rename_i hnow
      rw [List.mem_singleton.1 h]
      exact .hide (by simp [Presence.seen, hwant]) (by simp [Presence.seen, hnow])
    · cases h

theorem moves_of_mem {goal now : Snapshot} {i : Inst} (h : i ∈ moves goal now) :
    Moves goal now i := by
  rcases List.mem_append.1 h with h | h
  · obtain ⟨⟨id, want⟩, he, h⟩ := List.mem_flatMap.1 h
    rw [← get_of_mem_cast he] at h
    exact moves_of_mem_castInst h
  · obtain ⟨⟨id, present⟩, he, h⟩ := List.mem_flatMap.1 h
    dsimp only at h
    split at h
    · rename_i hboth
      simp only [Bool.and_eq_true, Option.isNone_iff_eq_none] at hboth
      rw [List.mem_singleton.1 h]
      refine .hide ?_ ?_
      · rw [visible_shown, get, hboth.2]
        rfl
      · rw [visible_shown, get_of_mem_cast he]
        simp [Presence.seen, hboth.1]
    · cases h

/-- **A patch holds only what has to change.** It changes a scene that differs, and moves
characters that are not as they should be once the scene is right. -/
theorem mem_diff {goal other : Snapshot} {i : Inst} (h : i ∈ diff goal other) :
    goal.scene ≠ other.scene ∧ i = sceneInst goal.scene ∨
      Moves goal (matchScene goal other).2 i := by
  rw [diff_eq] at h
  rcases List.mem_append.1 h with h | h
  · refine .inl ?_
    unfold matchScene at h
    split at h
    · cases h
    · exact ⟨‹_›, List.mem_singleton.1 h⟩
  · exact .inr (moves_of_mem h)

end Snapshot
end Manuscript
