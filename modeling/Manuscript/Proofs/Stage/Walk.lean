/-
# The walk and the screen

What one step of the walk can do to the stage, and what it emits for it, is said
once, by `Walk.Effect`: a step that shows brings something new, a step that hides
hides somebody on screen, and a state that changes off screen is only remembered.
Every step that has an outcome has such an effect (`Walk.effect_inst`), and in a
program whose characters are in range every step has an outcome
(`Walk.yields_inst`).

The screen follows: running what a step emits takes the screen of the stage
before it to the screen of the stage after it, and so for a whole block
(`Walk.Effects.run`).

Key definitions: `Walk.Effect`, `Walk.Effects`.
Key theorems: `Walk.showCharacter_cases`, `Walk.effect_inst`, `Walk.yields_inst`,
`Walk.Effect.run`, `Walk.Effects.run`.
-/
import Manuscript.Proofs.Program.InRange
import Manuscript.Proofs.Stage.Screen

namespace Manuscript

/-! ### States that tags lead to -/

namespace SpriteTree

/-- A tag that leads somewhere leads to a state. -/
theorem applyTag?_ne_nil {t : SpriteTree} {current path : List String} {tag : String}
    (h : t.applyTag? current tag = some path) : path ≠ [] := by
  obtain ⟨depth, -, rfl⟩ := Option.map_eq_some_iff.1 h
  unfold descend
  split <;> simp

theorem foldlM_applyTag?_ne_nil {t : SpriteTree} : ∀ {tags current path : List String},
    tags ≠ [] → tags.foldlM t.applyTag? current = some path → path ≠ []
  | [tag], current, path, _, h => by
    simp only [List.foldlM_cons, List.foldlM_nil, bind_pure] at h
    exact applyTag?_ne_nil h
  | tag :: next :: tags, current, path, _, h => by
    rw [List.foldlM_cons] at h
    obtain ⟨between, -, hrest⟩ := Option.bind_eq_some_iff.1 h
    exact foldlM_applyTag?_ne_nil (List.cons_ne_nil _ _) hrest

theorem resolve?_ne_nil {t : SpriteTree} {current path tags : List String} (htags : tags ≠ [])
    (h : t.resolve? current tags = some path) : path ≠ [] :=
  foldlM_applyTag?_ne_nil htags h

end SpriteTree

/-- The action puts a character on screen, takes it off, or changes its state. -/
def Action.movesCharacter : Action → Bool
  | .showCharacter .. | .hideCharacter _ | .setState .. => true
  | _ => false

/-- The action has nothing to do with the scene or the characters. -/
def Action.isAside : Action → Bool
  | .showImage _ | .play .. | .verbatim _ | .comment _ => true
  | _ => false

namespace Walk

/-- What one step of the walk can do on a stage: what an instruction emits, and the stage
after it. -/
inductive Effect (stage : Snapshot) : Inst → Option Inst → Snapshot → Prop where
  /-- A line that changes nobody's state. -/
  | line {speaker : Option CharacterId} {status : List String} {content : StyledText} {loc : Loc} :
    Effect stage ⟨.say speaker status content, loc⟩ (some ⟨.say speaker [] content, loc⟩) stage
  /-- A line whose status leads a speaker on screen to a new state. -/
  | lineShown {id : CharacterId} {status path : List String} {content : StyledText} {loc : Loc} :
    (stage.get id).shown = true → path ≠ [] → path ≠ (stage.get id).path →
    Effect stage ⟨.say (some id) status content, loc⟩ (some ⟨.say (some id) path content, loc⟩)
      (stage.setPath id path)
  /-- A line whose status leads a speaker off screen to a new state. -/
  | lineHidden {id : CharacterId} {status path : List String} {content : StyledText} {loc : Loc} :
    (stage.get id).shown = false →
    Effect stage ⟨.say (some id) status content, loc⟩ (some ⟨.say (some id) [] content, loc⟩)
      (stage.setPath id path)
  /-- A character comes on screen, or changes its state there. -/
  | place {a : Action} {id : CharacterId} {tags path : List String} {loc : Loc} :
    a = .showCharacter id tags ∨ a = .setState id tags → (stage.get id).seen ≠ some path →
    Effect stage ⟨a, loc⟩ (some ⟨.showCharacter id path, loc⟩) (stage.place id path)
  | hide {id : CharacterId} {loc : Loc} : (stage.get id).shown = true →
    Effect stage ⟨.hideCharacter id, loc⟩ (some ⟨.hideCharacter id, loc⟩) (stage.hide id)
  /-- A change of state off screen is remembered. -/
  | remember {id : CharacterId} {tags path : List String} {loc : Loc} :
    (stage.get id).shown = false →
    Effect stage ⟨.setState id tags, loc⟩ none (stage.setPath id path)
  | drop {i : Inst} : i.action.movesCharacter = true → Effect stage i none stage
  | scene {scene : String} {loc : Loc} :
    Effect stage ⟨.setScene scene, loc⟩ (some ⟨.setScene scene, loc⟩) (stage.setScene (some scene))
  | clear {loc : Loc} :
    Effect stage ⟨.clearScene, loc⟩ (some ⟨.clearScene, loc⟩) (stage.setScene none)
  | aside {i : Inst} : i.action.isAside = true → Effect stage i (some i) stage

/-! ### The outcomes of a step

What each part of a step leads to, read backwards from its result. All that is known
of a walk is derived from these. -/

variable {p : Program} {policy : ReentrantShow} {w w' : Walk} {stage : Snapshot} {id : CharacterId}
  {r : Walked}

theorem character_eq_ok {c : Character} : p.character id = .ok c ↔ p.characters[id]? = some c :=
  Fault.unless_eq_ok

/-- The report of an instruction that does not fit the stage. -/
def errorReport (c : Character) (reason : String) (loc : Loc) : Diagnostic :=
  .make .characterStateError [("name", c.name), ("reason", reason)] (some loc)

/-- The report of tags that lead to no state. -/
def emptyReport (c : Character) (tags : List String) (loc : Loc) : Diagnostic :=
  .make .characterStateEmpty [("name", c.name), ("state", Text.join " " tags)] (some loc)

theorem stateError_cases {reason : String} {loc : Loc}
    (h : stateError p w id reason loc = .ok w') :
    id ∈ w.unknown ∧ w' = w ∨
      id ∉ w.unknown ∧ ∃ c, p.characters[id]? = some c ∧ w' = w.report (errorReport c reason loc) := by
  unfold stateError at h
  split at h
  · rename_i hknown
    cases h
    exact .inl ⟨by simpa using hknown, rfl⟩
  · rename_i hknown
    obtain ⟨c, hc, h⟩ := bind_eq_ok.1 h
    cases h
    exact .inr ⟨by simpa using hknown, c, character_eq_ok.1 hc, rfl⟩

theorem resolve_cases {tags path : List String} {loc : Loc}
    (h : resolve p w stage id tags loc = .ok (path, w')) :
    ∃ c, p.characters[id]? = some c ∧ (w' = w ∨
      w' = { w.report (emptyReport c tags loc) with unknown := id :: w.unknown }) := by
  obtain ⟨c, hc, h⟩ := bind_eq_ok.1 h
  refine ⟨c, character_eq_ok.1 hc, ?_⟩
  dsimp only at h
  split at h
  · cases h
    exact .inl rfl
  · cases h
    exact .inr rfl

theorem emitShow_cases {path : List String} {loc : Loc}
    (h : emitShow p w stage id path loc = .ok r) :
    ∃ c, p.characters[id]? = some c ∧
      r = ⟨some ⟨.showCharacter id path, loc⟩, stage.place id path,
        if c.sprites.isComplete path then w
        else { w with placeholders := Placeholder.insert (id, path) w.placeholders }⟩ := by
  obtain ⟨⟨after, w'⟩, hplace, h⟩ := bind_eq_ok.1 h
  obtain ⟨c, hc, hplace⟩ := bind_eq_ok.1 hplace
  cases hplace
  cases h
  exact ⟨c, character_eq_ok.1 hc, rfl⟩

theorem sayWithStatus_cases {status : List String} {content : StyledText} {loc : Loc}
    (h : sayWithStatus p w stage id status content loc = .ok r) :
    r = ⟨some ⟨.say (some id) [] content, loc⟩, stage, w⟩ ∨
      ∃ c path, p.characters[id]? = some c ∧
        c.sprites.resolve? (stage.get id).path status = some path ∧ path ≠ (stage.get id).path ∧
        r = ⟨some ⟨.say (some id) (if (stage.get id).shown then path else []) content, loc⟩,
          stage.setPath id path, w⟩ := by
  obtain ⟨c, hc, h⟩ := bind_eq_ok.1 h
  dsimp only at h
  cases hpath : c.sprites.resolve? (stage.get id).path status with
  | none =>
    rw [hpath] at h
    cases h
    exact .inl rfl
  | some path =>
    rw [hpath] at h
    dsimp only at h
    split at h
    · cases h
      exact .inl rfl
    · rename_i hne
      cases h
      exact .inr ⟨c, path, character_eq_ok.1 hc, hpath, hne, rfl⟩

/-- A show either brings something new, and under `reject` a character that is off screen, or it
is dropped. -/
theorem showCharacter_cases {tags : List String} {loc : Loc}
    (h : showCharacter p policy w stage id tags loc = .ok r) :
    ∃ path w₁, resolve p w stage id tags loc = .ok (path, w₁) ∧
      ((stage.get id).seen ≠ some path ∧ (policy = .reject → (stage.get id).shown = false) ∧
          emitShow p w₁ stage id path loc = .ok r ∨
        policy = .updateState ∧ r = ⟨none, stage, w₁⟩ ∨
        policy = .reject ∧ ∃ w₂, stateError p w₁ id "shown while already on screen" loc = .ok w₂ ∧
          r = ⟨none, stage, w₂⟩) := by
  obtain ⟨⟨path, w₁⟩, hresolve, h⟩ := bind_eq_ok.1 h
  refine ⟨path, w₁, hresolve, ?_⟩
  dsimp only at h
  by_cases hshown : (stage.get id).shown
  · rw [if_pos hshown] at h
    cases policy with
    | updateState =>
      dsimp only at h
      split at h
      · cases h
        exact .inr (.inl ⟨rfl, rfl⟩)
      · rename_i hne
        exact .inl ⟨by simp [Presence.seen, hshown, Ne.symm hne], by simp, h⟩
    | reject =>
      obtain ⟨w₂, herror, h⟩ := bind_eq_ok.1 h
      cases h
      exact .inr (.inr ⟨rfl, w₂, herror, rfl⟩)
  · rw [if_neg hshown] at h
    exact .inl ⟨by simp [Presence.seen, hshown], fun _ => by simpa using hshown, h⟩

theorem setState_cases {tags : List String} {loc : Loc}
    (h : setState p w stage id tags loc = .ok r) :
    ∃ path w₁, resolve p w stage id tags loc = .ok (path, w₁) ∧
      ((stage.get id).seen ≠ some path ∧ emitShow p w₁ stage id path loc = .ok r ∨
        r = ⟨none, stage, w₁⟩ ∨
        (stage.get id).shown = false ∧ r = ⟨none, stage.setPath id path, w₁⟩) := by
  obtain ⟨⟨path, w₁⟩, hresolve, h⟩ := bind_eq_ok.1 h
  refine ⟨path, w₁, hresolve, ?_⟩
  dsimp only at h
  by_cases hshown : (stage.get id).shown
  · rw [if_pos hshown] at h
    split at h
    · cases h
      exact .inr (.inl rfl)
    · rename_i hne
      exact .inl ⟨by simp [Presence.seen, hshown, Ne.symm hne], h⟩
  · rw [if_neg hshown] at h
    cases h
    exact .inr (.inr ⟨by simpa using hshown, rfl⟩)

theorem hideCharacter_cases {loc : Loc} (h : hideCharacter p w stage id loc = .ok r) :
    (stage.get id).shown = true ∧ r = ⟨some ⟨.hideCharacter id, loc⟩, stage.hide id, w⟩ ∨
      ∃ w₁, stateError p w id "hidden while not on screen" loc = .ok w₁ ∧
        r = ⟨none, stage, w₁⟩ := by
  unfold hideCharacter at h
  split at h
  · rename_i hshown
    cases h
    exact .inl ⟨hshown, rfl⟩
  · obtain ⟨w₁, herror, h⟩ := bind_eq_ok.1 h
    cases h
    exact .inr ⟨w₁, herror, rfl⟩

/-! ### Every step has an effect -/

/-- A state that is shown and was not yet on screen comes on screen. -/
theorem effect_emitShow {a : Action} {tags path : List String} {loc : Loc}
    (ha : a = .showCharacter id tags ∨ a = .setState id tags)
    (hnew : (stage.get id).seen ≠ some path) (h : emitShow p w stage id path loc = .ok r) :
    Effect stage ⟨a, loc⟩ r.emitted r.stage := by
  obtain ⟨c, -, rfl⟩ := emitShow_cases h
  exact .place ha hnew

theorem effect_sayWithStatus {status : List String} {content : StyledText} {loc : Loc}
    (hs : status ≠ []) (h : sayWithStatus p w stage id status content loc = .ok r) :
    Effect stage ⟨.say (some id) status content, loc⟩ r.emitted r.stage := by
  rcases sayWithStatus_cases h with rfl | ⟨c, path, -, hpath, hne, rfl⟩
  · exact .line
  · by_cases hshown : (stage.get id).shown
    · rw [if_pos hshown]
      exact .lineShown hshown (SpriteTree.resolve?_ne_nil hs hpath) hne
    · rw [if_neg hshown]
      exact .lineHidden (by simpa using hshown)

/-- **A step that has an outcome has an effect.** -/
theorem effect_inst {i : Inst} (h : inst p policy w stage i = .ok r) :
    Effect stage i r.emitted r.stage := by
  rcases i with ⟨a, loc⟩
  cases a with
  | say speaker status content =>
    cases speaker with
    | none =>
      cases h
      exact .line
    | some id =>
      cases status with
      | nil =>
        cases h
        exact .line
      | cons tag tags => exact effect_sayWithStatus (List.cons_ne_nil tag tags) h
  | showCharacter id tags =>
    obtain ⟨path, w₁, -, ⟨hnew, -, h⟩ | ⟨-, rfl⟩ | ⟨-, w₂, -, rfl⟩⟩ := showCharacter_cases h
    · exact effect_emitShow (.inl rfl) hnew h
    · exact .drop rfl
    · exact .drop rfl
  | hideCharacter id =>
    obtain ⟨hshown, rfl⟩ | ⟨w₁, -, rfl⟩ := hideCharacter_cases h
    · exact .hide hshown
    · exact .drop rfl
  | setState id tags =>
    obtain ⟨path, w₁, -, ⟨hnew, h⟩ | rfl | ⟨hhidden, rfl⟩⟩ := setState_cases h
    · exact effect_emitShow (.inr rfl) hnew h
    · exact .drop rfl
    · exact .remember hhidden
  | setScene scene =>
    cases h
    exact .scene
  | clearScene =>
    cases h
    exact .clear
  | showImage _ | play _ _ | verbatim _ | comment _ =>
    cases h
    exact .aside rfl

/-! ### Steps in range have an outcome -/

theorem yields_stateError (h : id < p.characters.length) (reason : String) (loc : Loc) :
    Yields (stateError p w id reason loc) fun _ => True := by
  unfold stateError
  split
  · exact yields_ok trivial
  · exact (Program.yields_character h).bind fun c _ => yields_ok trivial

theorem yields_resolve (h : id < p.characters.length) (tags : List String) (loc : Loc) :
    Yields (resolve p w stage id tags loc) fun _ => True := by
  unfold resolve
  refine (Program.yields_character h).bind fun c _ => ?_
  dsimp only
  split <;> exact yields_ok trivial

theorem yields_emitShow (h : id < p.characters.length) (path : List String) (loc : Loc) :
    Yields (emitShow p w stage id path loc) fun _ => True := by
  refine Yields.bind (P := fun _ => True) ?_ fun r _ => yields_ok trivial
  exact (Program.yields_character h).bind fun c _ => yields_ok trivial

theorem yields_sayWithStatus (h : id < p.characters.length) (status : List String)
    (content : StyledText) (loc : Loc) :
    Yields (sayWithStatus p w stage id status content loc) fun _ => True := by
  refine (Program.yields_character h).bind fun c _ => ?_
  dsimp only
  split
  · split <;> exact yields_ok trivial
  · exact yields_ok trivial

theorem yields_showCharacter (h : id < p.characters.length) (tags : List String) (loc : Loc) :
    Yields (showCharacter p policy w stage id tags loc) fun _ => True := by
  refine (yields_resolve h tags loc).bind fun r _ => ?_
  dsimp only
  split
  · split
    · split
      · exact yields_ok trivial
      · exact yields_emitShow h _ loc
    · exact (yields_stateError h _ loc).bind fun _ _ => yields_ok trivial
  · exact yields_emitShow h _ loc

theorem yields_setState (h : id < p.characters.length) (tags : List String) (loc : Loc) :
    Yields (setState p w stage id tags loc) fun _ => True := by
  refine (yields_resolve h tags loc).bind fun r _ => ?_
  dsimp only
  split
  · split
    · exact yields_ok trivial
    · exact yields_emitShow h _ loc
  · exact yields_ok trivial

theorem yields_hideCharacter (h : id < p.characters.length) (loc : Loc) :
    Yields (hideCharacter p w stage id loc) fun _ => True := by
  unfold hideCharacter
  split
  · exact yields_ok trivial
  · exact (yields_stateError h _ loc).bind fun _ _ => yields_ok trivial

/-- An instruction that names characters of the program has an outcome. -/
theorem yields_inst (i : Inst) (h : i.action.NamesBelow p.characters.length) :
    Yields (inst p policy w stage i) fun _ => True := by
  rcases i with ⟨a, loc⟩
  have hin : ∀ id ∈ a.characters, id < p.characters.length := h
  cases a with
  | say speaker status content =>
    cases speaker with
    | none => exact yields_ok trivial
    | some id =>
      cases status with
      | nil => exact yields_ok trivial
      | cons tag tags =>
        exact yields_sayWithStatus (hin id (by simp [Action.characters])) (tag :: tags) content loc
  | showCharacter id tags =>
    exact yields_showCharacter (hin id (by simp [Action.characters])) tags loc
  | hideCharacter id => exact yields_hideCharacter (hin id (by simp [Action.characters])) loc
  | setState id tags => exact yields_setState (hin id (by simp [Action.characters])) tags loc
  | setScene scene => exact yields_ok trivial
  | clearScene => exact yields_ok trivial
  | showImage _ | play _ _ | verbatim _ | comment _ => exact yields_ok trivial

/-! ### The screen follows the stage -/

theorem step_of_isAside {i : Inst} (h : i.action.isAside = true) (scr : Screen) :
    scr.step i = scr := by
  unfold Screen.step
  split <;> simp_all [Action.isAside]

/-- Running what a step emits takes the screen before it to the screen after it. -/
theorem Effect.run {i : Inst} {emitted : Option Inst} {after : Snapshot}
    (h : Effect stage i emitted after) : stage.visible.run emitted.toList = after.visible := by
  cases h with
  | @line speaker => cases speaker <;> rfl
  | @lineShown id status path content loc hshown hne _ =>
    obtain ⟨tag, tags, rfl⟩ := List.exists_cons_of_ne_nil hne
    exact (Snapshot.visible_setPath stage id (tag :: tags)).symm
  | lineHidden hshown => exact (Snapshot.visible_setPath_of_hidden _ hshown).symm
  | place _ _ => exact (Snapshot.visible_place stage _ _).symm
  | hide _ => exact (Snapshot.visible_hide stage _).symm
  | remember hshown => exact (Snapshot.visible_setPath_of_hidden _ hshown).symm
  | drop _ => rfl
  | scene => exact (Snapshot.visible_setScene stage _).symm
  | clear => exact (Snapshot.visible_setScene stage _).symm
  | aside h => exact step_of_isAside h _

/-- What instructions do one after the other: what they emit, and the stage after them. -/
inductive Effects : Snapshot → List Inst → List Inst → Snapshot → Prop where
  | nil {stage : Snapshot} : Effects stage [] [] stage
  | cons {stage between after : Snapshot} {i : Inst} {emitted : Option Inst}
    {rest more : List Inst} :
    Effect stage i emitted between → Effects between rest more after →
    Effects stage (i :: rest) (emitted.toList ++ more) after

/-- **The body of a block keeps screen and stage together.** Running what the instructions
emit takes the screen of the stage before them to the screen of the stage after them. -/
theorem Effects.run {is emitted : List Inst} {after : Snapshot}
    (h : Effects stage is emitted after) : stage.visible.run emitted = after.visible := by
  induction h with
  | nil => rfl
  | cons hfirst _ ih => rw [Screen.run_append, hfirst.run, ih]

/-- Instructions that have an outcome have effects. -/
theorem effects_insts : ∀ {is emitted : List Inst} {w w' : Walk} {stage after : Snapshot},
    insts p policy w stage is = .ok (emitted, after, w') → Effects stage is emitted after
  | [], _, _, _, _, _, h => by
    cases h
    exact .nil
  | i :: rest, _, _, _, _, _, h => by
    obtain ⟨r, hr, h⟩ := bind_eq_ok.1 h
    obtain ⟨⟨more, after, w₁⟩, hmore, h⟩ := bind_eq_ok.1 h
    cases h
    exact .cons (effect_inst hr) (effects_insts hmore)

/-- Instructions that name characters of the program have an outcome. -/
theorem yields_insts : ∀ {is : List Inst} {w : Walk} {stage : Snapshot},
    (∀ i ∈ is, i.action.NamesBelow p.characters.length) →
      Yields (insts p policy w stage is) fun _ => True
  | [], _, _, _ => yields_ok trivial
  | i :: rest, w, stage, h => by
    refine (yields_inst i (h i List.mem_cons_self)).bind fun r _ => ?_
    exact (yields_insts fun j hj => h j (List.mem_cons_of_mem _ hj)).bind fun _ _ =>
      yields_ok trivial

end Walk
end Manuscript
