/-
# Patches on the stage

A patch can be carried out on the stage itself, by the same operations with which a
walk sets it, and not only on the screen. Carried out on the stage that it was made
from, it leads to a stage on which everything that can be seen is as on its goal. What
cannot be seen, the state of a character off screen, is left alone.

A patch is empty just if there was nothing to see to: every instruction in it answers a
difference (`Snapshot.mem_diff`), and an empty patch leaves the screen as it is.

Key definitions: `Snapshot.Agrees`, `Snapshot.enact?`, `Snapshot.enactAll?`.
Key theorems: `Snapshot.agrees_iff_visible`, `Snapshot.exists_enactAll?`,
`Snapshot.diff_eq_nil_iff`, `Snapshot.diff_reconciles`.
-/
import Manuscript.Proofs.Stage.Screen

namespace Manuscript.Snapshot

/-- The same scene, the same characters on screen, and each of these in the same state. -/
structure Agrees (a b : Snapshot) : Prop where
  scene : a.scene = b.scene
  shown : ∀ id, a.isShown id = b.isShown id
  path : ∀ id, a.isShown id = true → (a.get id).path = (b.get id).path

theorem seen_eq_seen_iff {a b : Presence} :
    a.seen = b.seen ↔ a.shown = b.shown ∧ (a.shown = true → a.path = b.path) := by
  cases ha : a.shown <;> cases hb : b.shown <;> simp [Presence.seen, ha, hb]

/-- Stages agree if they look alike. -/
theorem agrees_iff_visible {a b : Snapshot} : a.Agrees b ↔ a.visible = b.visible := by
  constructor
  · intro h
    refine Screen.ext h.scene (funext fun id => ?_)
    exact seen_eq_seen_iff.2 ⟨h.shown id, h.path id⟩
  · intro h
    have hseen : ∀ id, (a.get id).seen = (b.get id).seen := fun id =>
      congrFun (congrArg Screen.shown h) id
    exact ⟨congrArg Screen.scene h, fun id => (seen_eq_seen_iff.1 (hseen id)).1,
      fun id => (seen_eq_seen_iff.1 (hseen id)).2⟩

/-! ### Carrying a patch out -/

/-- Carries out an action that sets the stage; no other action has a place in a patch. -/
def enact? (s : Snapshot) : Action → Option Snapshot
  | .showCharacter id path => some (s.place id path)
  | .hideCharacter id => some (s.hide id)
  | .setScene scene => some (s.setScene (some scene))
  | .clearScene => some (s.setScene none)
  | _ => none

/-- Carries out instructions in order. -/
def enactAll? (s : Snapshot) (is : List Inst) : Option Snapshot :=
  is.foldlM (fun s i => s.enact? i.action) s

/-- What is done on the stage shows on the screen. -/
theorem visible_of_enact? {s after : Snapshot} {i : Inst} (h : s.enact? i.action = some after) :
    after.visible = s.visible.step i := by
  rcases i with ⟨a, loc⟩
  cases a with
  | showCharacter id path =>
    cases h
    exact visible_place s id path
  | hideCharacter id =>
    cases h
    exact visible_hide s id
  | setScene scene =>
    cases h
    exact visible_setScene s _
  | clearScene =>
    cases h
    exact visible_setScene s _
  | _ => cases h

theorem exists_enact?_of_mem_diff {goal other : Snapshot} {i : Inst} (h : i ∈ diff goal other)
    (s : Snapshot) : ∃ after, s.enact? i.action = some after := by
  obtain ⟨-, rfl⟩ | hmoves := mem_diff h
  · cases goal.scene <;> exact ⟨_, rfl⟩
  · cases hmoves <;> exact ⟨_, rfl⟩

/-- Instructions that can be carried out can be so one after the other, and the screen
follows. -/
theorem exists_enactAll? : ∀ {is : List Inst} (s : Snapshot),
    (∀ i ∈ is, ∀ s : Snapshot, ∃ after, s.enact? i.action = some after) →
      ∃ after, s.enactAll? is = some after ∧ after.visible = s.visible.run is
  | [], s, _ => ⟨s, rfl, rfl⟩
  | i :: is, s, h => by
    obtain ⟨between, hfirst⟩ := h i List.mem_cons_self s
    obtain ⟨after, hrest, hvisible⟩ :=
      exists_enactAll? between fun j hj => h j (List.mem_cons_of_mem _ hj)
    refine ⟨after, ?_, ?_⟩
    · rw [enactAll?, List.foldlM_cons, hfirst]
      exact hrest
    · rw [hvisible, visible_of_enact? hfirst, Screen.run_cons]

/-! ### Empty patches -/

/-- There is no patch between stages that look alike, and only between these. -/
theorem diff_eq_nil_iff {goal other : Snapshot} :
    diff goal other = [] ↔ other.visible = goal.visible := by
  constructor
  · intro h
    rw [← run_diff goal other, h, Screen.run_nil]
  · intro h
    have hscene : goal.scene = other.scene := (congrArg Screen.scene h).symm
    have hnow : (matchScene goal other).2 = other := by rw [matchScene, if_pos hscene]
    refine List.eq_nil_iff_forall_not_mem.2 fun i hi => ?_
    obtain ⟨hne, -⟩ | hmoves := mem_diff hi
    · exact hne hscene
    · rw [hnow] at hmoves
      cases hmoves with
      | place hgoal hother => exact hother (h ▸ hgoal)
      | hide hgoal hother => exact hother (h ▸ hgoal)

@[simp] theorem diff_self (s : Snapshot) : diff s s = [] := diff_eq_nil_iff.2 rfl

/-- **A patch brings two stages into agreement.** Carried out in order on the stage it was made
from, `diff goal other` leads to a stage that agrees with `goal`, also when each knows characters
that the other does not; and it is empty just if the two agree already. -/
theorem diff_reconciles (goal other : Snapshot) :
    (∃ after, other.enactAll? (diff goal other) = some after ∧ after.Agrees goal) ∧
      (diff goal other = [] ↔ other.Agrees goal) := by
  obtain ⟨after, henact, hvisible⟩ :=
    exists_enactAll? other fun _ hi => exists_enact?_of_mem_diff hi
  rw [run_diff] at hvisible
  exact ⟨⟨after, henact, agrees_iff_visible.2 hvisible⟩,
    diff_eq_nil_iff.trans agrees_iff_visible.symm⟩

end Manuscript.Snapshot
