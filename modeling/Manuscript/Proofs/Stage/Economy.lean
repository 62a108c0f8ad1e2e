/-
# Nothing is run in vain

Generated code holds no instruction that would leave the screen as it is: a character that
is shown was not there or was in another state, one that is hidden was there, and a line
with a status is said by a character on screen and changes its state. The walk decides this
on a stage of its own, but what counts is the screen of a player, on whichever path. The
two are the same: at the entry of a block the screen is that of the block's visit, whatever
path leads there (`Generate.play_of_path`), the body keeps the screen with the stage, and a
patch moves each character once, and only if it is not where it should be.

Under `reject` more is known of the commands of the program: one to show a character is
kept only where the character is off screen.

Key definitions: `Screen.Affected`, `Screen.Effective`, `GeneratedFunction.executed`,
`Generate.Economical`.
Key theorems: `Walk.Effects.effective`, `Snapshot.effective_diff`,
`Generate.Visited.effective_executed`, `Generate.generate_economical`.
-/
import Manuscript.Proofs.Stage.Patch
import Manuscript.Proofs.Stage.Reported

namespace Manuscript

namespace Screen

/-- The instruction changes what it is about: it shows a character that is not on screen or in
another state, hides one that is on screen, or is a line whose status changes the state of a
speaker on screen. -/
def Affected (scr : Screen) (i : Inst) : Prop :=
  match i.action with
  | .showCharacter id path => scr.shown id ≠ some path
  | .hideCharacter id => scr.shown id ≠ none
  | .say speaker (tag :: tags) _ =>
    ∃ id path, speaker = some id ∧ scr.shown id = some path ∧ path ≠ tag :: tags
  | _ => True

/-- Every instruction of the list changes what it is about when its turn comes. -/
def Effective : Screen → List Inst → Prop
  | _, [] => True
  | scr, i :: is => scr.Affected i ∧ (scr.step i).Effective is

theorem effective_append {xs ys : List Inst} : ∀ {scr : Screen},
    scr.Effective (xs ++ ys) ↔ scr.Effective xs ∧ (scr.run xs).Effective ys := by
  induction xs with
  | nil => simp [Effective]
  | cons i xs ih => simp [Effective, ih, and_assoc]

theorem Effective.affected {scr : Screen} {before after : List Inst} {i : Inst}
    (h : scr.Effective (before ++ i :: after)) : (scr.run before).Affected i :=
  (effective_append.1 h).2.1

end Screen

/-! ### Patches -/

/-- The instruction brings the character to the state, or takes it off screen if there is none. -/
inductive Inst.Sets : Inst → CharacterId → Option (List String) → Prop where
  | place {id : CharacterId} {path : List String} {loc : Loc} :
    Sets ⟨.showCharacter id path, loc⟩ id (some path)
  | hide {id : CharacterId} {loc : Loc} : Sets ⟨.hideCharacter id, loc⟩ id none

namespace Inst.Sets

variable {i : Inst} {id : CharacterId} {state : Option (List String)}

theorem step (h : i.Sets id state) (scr : Screen) : scr.step i = scr.set id state := by
  cases h <;> rfl

theorem affected (h : i.Sets id state) {scr : Screen} (hne : scr.shown id ≠ state) :
    scr.Affected i := by
  cases h <;> exact hne

theorem characters (h : i.Sets id state) : i.action.characters = [id] := by
  cases h <;> rfl

end Inst.Sets

/-- The instructions name different characters. -/
def Inst.Apart (i j : Inst) : Prop := ∀ id ∈ i.action.characters, id ∉ j.action.characters

/-- Instructions that set different characters, each to a state it is not in, are all
effective. -/
theorem Screen.effective_of_apart : ∀ {is : List Inst} {scr : Screen},
    (∀ i ∈ is, ∃ id state, i.Sets id state ∧ scr.shown id ≠ state) → is.Pairwise Inst.Apart →
      scr.Effective is
  | [], _, _, _ => trivial
  | i :: is, scr, hall, hapart => by
    obtain ⟨id, state, hsets, hne⟩ := hall i List.mem_cons_self
    obtain ⟨hfirst, hrest⟩ := List.pairwise_cons.1 hapart
    refine ⟨hsets.affected hne, effective_of_apart (fun j hj => ?_) hrest⟩
    obtain ⟨other, state', hsets', hne'⟩ := hall j (List.mem_cons_of_mem _ hj)
    -- the first instruction does not touch the characters of those behind it
    have hother : other ≠ id := by
      rintro rfl
      exact hfirst j hj other (by simp [hsets.characters]) (by simp [hsets'.characters])
    exact ⟨other, state', hsets', by rwa [hsets.step, shown_set_of_ne _ _ hother]⟩

namespace Snapshot

theorem Moves.sets {goal now : Snapshot} {i : Inst} (h : Moves goal now i) :
    ∃ id state, i.Sets id state ∧ now.visible.shown id ≠ state := by
  cases h with
  | @place id path _ hne => exact ⟨id, some path, .place, hne⟩
  | @hide id _ hne => exact ⟨id, none, .hide, hne⟩

theorem characters_of_mem_castInst {id : CharacterId} {want now : Presence} {i : Inst}
    (h : i ∈ castInst id want now) : i.action.characters = [id] := by
  unfold castInst at h
  split at h
  · split at h
    · cases h
    · rw [List.mem_singleton.1 h]
      rfl
  · split at h
    · rw [List.mem_singleton.1 h]
      rfl
    · cases h

theorem pairwise_castInst (R : Inst → Inst → Prop) (id : CharacterId) (want now : Presence) :
    (castInst id want now).Pairwise R := by
  unfold castInst
  split
  · split <;> simp
  · split <;> simp

theorem of_mem_hideIf {q : Prop} [Decidable q] {id : CharacterId} {i : Inst}
    (h : i ∈ if q then [patch (.hideCharacter id)] else []) : q ∧ i.action.characters = [id] := by
  split at h
  · exact ⟨‹_›, by rw [List.mem_singleton.1 h]; rfl⟩
  · cases h

theorem apart_of_ne {i j : Inst} {a b : CharacterId} (hi : i.action.characters = [a])
    (hj : j.action.characters = [b]) (h : a ≠ b) : i.Apart j := by
  simpa [Inst.Apart, hi, hj] using h

/-- The moves of a patch are of different characters. -/
theorem pairwise_moves (goal now : Snapshot) : (moves goal now).Pairwise Inst.Apart := by
  refine List.pairwise_append.2 ⟨?_, ?_, ?_⟩
  · refine List.pairwise_flatMap.2 ⟨fun e _ => pairwise_castInst _ _ _ _, ?_⟩
    refine goal.ordered.imp fun hlt i hi j hj => ?_
    exact apart_of_ne (characters_of_mem_castInst hi) (characters_of_mem_castInst hj)
      (Nat.ne_of_lt hlt)
  · refine List.pairwise_flatMap.2 ⟨fun e _ => by split <;> simp, ?_⟩
    refine now.ordered.imp fun hlt i hi j hj => ?_
    exact apart_of_ne (of_mem_hideIf hi).2 (of_mem_hideIf hj).2 (Nat.ne_of_lt hlt)
  · -- the characters hidden at the end are those that `goal` does not know
    intro i hi j hj
    obtain ⟨⟨id, want⟩, he, hi⟩ := List.mem_flatMap.1 hi
    obtain ⟨d, -, hj⟩ := List.mem_flatMap.1 hj
    obtain ⟨hd, hj⟩ := of_mem_hideIf hj
    refine apart_of_ne (characters_of_mem_castInst hi) hj ?_
    rintro rfl
    simp [find?_of_mem_cast he] at hd

/-- **A patch moves nobody in vain.** -/
theorem effective_diff (goal other : Snapshot) : other.visible.Effective (diff goal other) := by
  rw [diff_eq, Screen.effective_append, (run_matchScene goal other).1]
  constructor
  · unfold matchScene
    split
    · trivial
    · cases goal.scene <;> exact ⟨trivial, trivial⟩
  · exact Screen.effective_of_apart (fun i hi => (moves_of_mem hi).sets) (pairwise_moves _ _)

end Snapshot

/-! ### Bodies -/

namespace Walk

variable {stage after : Snapshot}

/-- What a step emits changes what it is about. -/
theorem Effect.effective {i : Inst} {emitted : Option Inst} (h : Effect stage i emitted after) :
    stage.visible.Effective emitted.toList := by
  cases h with
  | line => exact ⟨trivial, trivial⟩
  | @lineShown id status path content loc hshown hne hnew =>
    obtain ⟨tag, tags, rfl⟩ := List.exists_cons_of_ne_nil hne
    refine ⟨⟨id, (stage.get id).path, rfl, ?_, hnew.symm⟩, trivial⟩
    simp [Presence.seen, hshown]
  | lineHidden _ => exact ⟨trivial, trivial⟩
  | place _ hnew => exact ⟨hnew, trivial⟩
  | hide hshown => exact ⟨by simp [Screen.Affected, Presence.seen, hshown], trivial⟩
  | remember _ => trivial
  | drop _ => trivial
  | scene => exact ⟨trivial, trivial⟩
  | clear => exact ⟨trivial, trivial⟩
  | @aside i haside =>
    rcases i with ⟨a, loc⟩
    cases a with
    | showImage _ | play _ _ | verbatim _ | comment _ => exact ⟨trivial, trivial⟩
    | _ => cases haside

theorem Effects.effective {is emitted : List Inst} (h : Effects stage is emitted after) :
    stage.visible.Effective emitted := by
  induction h with
  | nil => trivial
  | cons hfirst _ ih =>
    rw [Screen.effective_append, hfirst.run]
    exact ⟨hfirst.effective, ih⟩

/-- Under `reject` a command to show a character is kept only if the character is off screen. -/
theorem Turn.Taken.hidden_of_emitted {p : Program} {t : Turn} (h : t.Taken p .reject)
    {id : CharacterId} {tags : List String} (ht : t.source.action = .showCharacter id tags)
    (hkept : t.outcome.emitted ≠ none) : t.stage.isShown id = false := by
  have hshow : showCharacter p .reject t.walk t.stage id tags t.source.loc = .ok t.outcome := by
    rw [← h, inst, ht]
  obtain ⟨path, w₁, -, ⟨-, hhidden, -⟩ | ⟨hpolicy, -⟩ | ⟨-, w₂, -, hr⟩⟩ := showCharacter_cases hshow
  · exact hhidden rfl
  · cases hpolicy
  · rw [hr] at hkept
    exact absurd rfl hkept

end Walk

/-! ### Runs -/

/-- What is executed in a run through the function: the body of each block and the patch of the
edge by which it is left. -/
def GeneratedFunction.executed (g : GeneratedFunction) (path : List Edge) : List Inst :=
  path.flatMap g.along

theorem GeneratedFunction.play_eq_run (g : GeneratedFunction) (scr : Screen) :
    ∀ path : List Edge, g.play scr path = scr.run (g.executed path) := by
  intro path
  induction path generalizing scr with
  | nil => rfl
  | cons e path ih =>
    rw [executed, List.flatMap_cons, Screen.run_append]
    exact ih _

namespace Generate

variable {p : Program} {policy : ReentrantShow} {f : FlowGraph} {g : GeneratedFunction}
  {visits : List Visit}

theorem effective_patchOf {source target : BlockId} {s : Visit} (hs : visits[source]? = some s) :
    s.exit.visible.Effective (patchOf visits source target) := by
  unfold patchOf
  rw [hs]
  cases visits[target]? with
  | none => trivial
  | some t => exact Snapshot.effective_diff t.entry s.exit

/-- Whichever way a block is left, nothing is executed in vain from its entry on. -/
theorem Visited.effective_along (h : Visited p policy f g visits) {i : BlockId} {v : Visit}
    (hv : visits[i]? = some v) (arm : Option Nat) :
    v.entry.visible.Effective (g.along ⟨i, arm⟩) := by
  obtain ⟨-, b, hb, heffects⟩ := h.faithful i v hv
  have hbody : (block visits b i).body = v.body := by simp [block, hv]
  simp only [GeneratedFunction.along, h.blocks, getElem?_blocks visits hb, Option.map_some,
    Option.getD_some, GeneratedBlock.along_eq]
  rw [hbody, Screen.effective_append, heffects.run]
  refine ⟨heffects.effective, ?_⟩
  cases hslot : (block visits b i).slot? arm with
  | none => trivial
  | some patch =>
    rw [Option.getD_some, slot?_block visits b i hslot]
    cases b.terminator.leads? (i + 1) arm with
    | none => trivial
    | some target => exact effective_patchOf hv

/-- **Nothing is executed in vain** on a run through the function, up to any way out of its last
block. -/
theorem Visited.effective_executed (h : Visited p policy f g visits) {path : List Edge} {b : BlockId}
    (hpath : f.Path path b) (arm : Option Nat) :
    Screen.blank.Effective (g.executed (path ++ [⟨b, arm⟩])) := by
  have hlast : ∀ {path : List Edge} {b : BlockId}, f.Path path b → ∀ arm,
      Screen.blank.Effective (g.executed path) →
        Screen.blank.Effective (g.executed (path ++ [⟨b, arm⟩])) := by
    intro path b hpath arm hexecuted
    obtain ⟨v, hv, hplay⟩ := play_of_path h.faithful h.length h.blocks hpath
    rw [GeneratedFunction.play_eq_run] at hplay
    rw [GeneratedFunction.executed, List.flatMap_append, Screen.effective_append]
    refine ⟨hexecuted, ?_⟩
    rw [List.flatMap_singleton]
    exact hplay ▸ h.effective_along hv arm
  refine hlast hpath arm ?_
  induction hpath with
  | start _ => trivial
  | @step path i target block arm hpath _ _ _ ih => exact hlast hpath arm ih

/-- The code of a function that was walked in these passages holds nothing that is run in vain.

* Whatever is executed on a run through the function, up to any way out of its last block, changes
  what it is about on the screen at that moment.
* Under `reject` a command of the program to show a character is kept only where the character is
  off screen: on the stage of the walk, and on the screen of every run that comes there. -/
structure Economical (policy : ReentrantShow) (f : FlowGraph) (g : GeneratedFunction)
    (xs : List Passage) : Prop where
  executed : ∀ path b arm, f.Path path b → ∀ before i after,
    g.executed (path ++ [⟨b, arm⟩]) = before ++ i :: after → (Screen.blank.run before).Affected i
  staged : policy = .reject → ∀ t ∈ turnsOf xs, ∀ id tags,
    t.source.action = .showCharacter id tags → t.outcome.emitted ≠ none → t.stage.isShown id = false
  absent : policy = .reject → ∀ path b x, f.Path path b → xs[b]? = some x →
    ∀ before t after, x.turns = before ++ t :: after → ∀ id tags,
      t.source.action = .showCharacter id tags → t.outcome.emitted ≠ none →
        (Screen.blank.run (g.executed path ++ before.flatMap (·.emitted))).shown id = none

theorem WalkedThrough.economical {reports : List Diagnostic} {xs : List Passage}
    (h : WalkedThrough p policy f g reports xs) : Economical policy f g xs := by
  obtain ⟨w, w', -, hwalk⟩ := h.walk
  have hstaged : policy = .reject → ∀ t ∈ turnsOf xs, ∀ id tags,
      t.source.action = .showCharacter id tags → t.outcome.emitted ≠ none →
        t.stage.isShown id = false := by
    rintro rfl t ht id tags hsource hkept
    exact (hwalk.trail.taken ht).hidden_of_emitted hsource hkept
  refine ⟨fun path b arm hpath before i after hsplit => ?_, hstaged, ?_⟩
  · have heffective := h.code.effective_executed hpath arm
    rw [hsplit] at heffective
    exact heffective.affected
  · intro hpolicy path b x hpath hx before t after hturns id tags hsource hkept
    have hmem : ∀ u ∈ x.turns, u ∈ turnsOf xs := fun u hu =>
      List.mem_flatMap.2 ⟨x, List.mem_of_getElem? hx, hu⟩
    obtain ⟨v, hv, hplay⟩ := play_of_path h.code.faithful h.code.length h.code.blocks hpath
    obtain rfl : x.visit = v := by simpa [hx] using hv
    obtain ⟨c, -, hc⟩ := exists_of_mem_forall₂ hwalk.blocks (List.mem_of_getElem? hx)
    have hfront : Walk.Staged x.visit.entry before t.stage := (hturns ▸ hc.staged).split
    have htaken : ∀ u ∈ before, u.Taken p policy := fun u hu =>
      hwalk.trail.taken (hmem u (by simp [hturns, hu]))
    rw [Screen.run_append, ← GeneratedFunction.play_eq_run, hplay, hfront.run htaken,
      Snapshot.visible_shown, Presence.seen]
    have hhidden := hstaged hpolicy t (hmem t (by simp [hturns])) id tags hsource hkept
    exact if_neg (by simpa [Snapshot.isShown] using hhidden)

/-- **No display statement is redundant.** A program whose characters are in range is generated;
and for every program that is generated, the code of its functions holds nothing that is run in
vain. -/
theorem generate_economical (p : Program) (s : CodegenSettings) :
    (p.CharactersInRange → ∃ g, generate p s = .ok g) ∧
      ∀ g, generate p s = .ok g → Each (fun f h reports => ∃ xs,
        WalkedThrough p s.reentrantShow f h reports xs ∧ Economical s.reentrantShow f h xs)
          p.functions g.functions g.diags := by
  refine ⟨fun hp => exists_generate hp s, fun g hg => (each_walkedThrough hg).imp ?_⟩
  rintro f h reports ⟨xs, hxs⟩
  exact ⟨xs, hxs, hxs.economical⟩

theorem roundabout_economical : roundabout.CharactersInRange ∧
    (∀ f ∈ roundabout.functions, f.Path [⟨0, none⟩, ⟨1, none⟩, ⟨2, some 0⟩] 1) ∧
    ∃ g, generate roundabout {} = .ok g ∧ Each (fun f h reports => ∃ xs,
      WalkedThrough roundabout .reject f h reports xs ∧ Economical .reject f h xs)
        roundabout.functions g.functions g.diags := by
  have hin : roundabout.CharactersInRange := by decide
  obtain ⟨g, hg⟩ := (generate_economical roundabout {}).1 hin
  refine ⟨hin, fun f hf => ?_, g, hg, (generate_economical roundabout {}).2 g hg⟩
  rw [List.mem_singleton.1 hf]
  exact .step (.step (.step (.start (by decide)) rfl rfl (by decide)) rfl rfl (by decide)) rfl rfl
    (by decide)

end Generate
end Manuscript
