/-
# What is dropped is reported

An instruction that does not fit the stage is dropped: a character is hidden that is not
on screen, or shown again although it is there. Each of these is reported, with one
exception. Once tags were met that lead to no state of a character, nothing certain is
known of it, and up to the end of the function it is not reported again.

The walk keeps the characters of which nothing is known in `Walk.unknown`. One turn adds
a character just if it reports that its tags lead nowhere, and reports an error just if it
drops its instruction and the character is not among them (`Walk.tells_inst`). So the list
holds at every turn the characters so reported before it in the function
(`Walk.Trail.mem_unknown`), and need not be mentioned in what is said of a whole function
(`Generate.generate_accounts`).

Key definitions: `Walk.Notes`, `Walk.Refused`, `Walk.Turn.Reports`, `Walk.Accounts`,
`Generate.WalkedThrough`.
Key theorems: `Walk.tells_inst`, `Walk.Trail.mem_unknown`, `Walk.Trail.accounts`,
`Generate.generate_accounts`.
-/
import Manuscript.Proofs.Stage.Trail

namespace Manuscript

namespace Walk

/-- The list holds a report with the code. -/
def Holds (reports : List Diagnostic) (code : Code) : Prop := ∃ d ∈ reports, d.code = code

theorem holds_append {xs ys : List Diagnostic} {code : Code} :
    Holds (xs ++ ys) code ↔ Holds xs code ∨ Holds ys code := by
  simp only [Holds, List.mem_append, or_and_right, exists_or]

theorem holds_singleton {d : Diagnostic} {code : Code} : Holds [d] code ↔ d.code = code := by
  simp [Holds]

theorem not_holds_nil (code : Code) : ¬ Holds [] code := by
  simp [Holds]

/-- The instruction is dropped, and it would hide the character or, under `reject`, show it. -/
def Refused (policy : ReentrantShow) (i : Inst) (emitted : Option Inst) (c : CharacterId) : Prop :=
  emitted = none ∧ (i.action = .hideCharacter c ∨
    policy = .reject ∧ ∃ tags, i.action = .showCharacter c tags)

/-- What an instruction notes beside its outcome: its reports `new`, those on the state of a
character being about the one that it names and at its place, and the characters of which nothing
is known any more. -/
structure Notes (p : Program) (i : Inst) (w w' : Walk) (new : List Diagnostic) : Prop where
  diags : w'.diags = w.diags ++ new
  unknown : ∀ c, c ∈ w'.unknown ↔
    c ∈ w.unknown ∨ c ∈ i.action.characters ∧ Holds new .characterStateEmpty
  errors : ∀ d ∈ new, d.code = .characterStateError → ∃ c ∈ i.action.characters, ∃ ch reason,
    p.characters[c]? = some ch ∧ d = errorReport ch reason i.loc
  empties : ∀ d ∈ new, d.code = .characterStateEmpty → ∃ c ∈ i.action.characters, ∃ ch tags,
    p.characters[c]? = some ch ∧ d = emptyReport ch tags i.loc
  merges : ¬ Holds new .stateMergeCompensated

variable {p : Program} {policy : ReentrantShow} {w w' w'' : Walk} {stage : Snapshot}
  {id : CharacterId} {i : Inst} {r : Walked}

/-- Nothing is noted where neither reports nor unknown characters are added. -/
theorem notes_nil (hdiags : w'.diags = w.diags) (hunknown : w'.unknown = w.unknown) :
    Notes p i w w' [] := by
  refine ⟨by simp [hdiags], fun c => ?_, by simp, by simp, not_holds_nil _⟩
  rw [hunknown]
  exact ⟨.inl, fun h => h.resolve_right fun h => not_holds_nil _ h.2⟩

/-- A report that does not concern the state of a character. -/
theorem notes_other {d : Diagnostic} (hdiags : w'.diags = w.diags ++ [d])
    (hunknown : w'.unknown = w.unknown) (herror : d.code ≠ .characterStateError)
    (hempty : d.code ≠ .characterStateEmpty) (hmerge : d.code ≠ .stateMergeCompensated) :
    Notes p i w w' [d] where
  diags := hdiags
  unknown c := by simp [hunknown, holds_singleton, hempty]
  errors := by simp [herror]
  empties := by simp [hempty]
  merges := by simpa [holds_singleton] using hmerge

theorem Notes.trans {xs ys : List Diagnostic} (h : Notes p i w w' xs) (h' : Notes p i w' w'' ys) :
    Notes p i w w'' (xs ++ ys) where
  diags := by rw [h'.diags, h.diags, List.append_assoc]
  unknown c := by rw [h'.unknown, h.unknown, holds_append, and_or_left, or_assoc]
  errors := List.forall_mem_append.2 ⟨h.errors, h'.errors⟩
  empties := List.forall_mem_append.2 ⟨h.empties, h'.empties⟩
  merges := by
    rw [holds_append]
    exact fun hor => hor.elim h.merges h'.merges

/-! ### Turns -/

/-- Resolving tags notes at most that they lead nowhere. -/
theorem notes_resolve {tags path : List String} (hi : i.action.characters = [id])
    (h : resolve p w stage id tags i.loc = .ok (path, w')) :
    ∃ new, Notes p i w w' new ∧ ¬ Holds new .characterStateError := by
  obtain ⟨c, hc, rfl | rfl⟩ := resolve_cases h
  · exact ⟨[], notes_nil rfl rfl, not_holds_nil _⟩
  · have hcode : (emptyReport c tags i.loc).code = .characterStateEmpty := rfl
    refine ⟨[emptyReport c tags i.loc], ⟨rfl, fun other => ?_, ?_, ?_, ?_⟩, ?_⟩
    · simp [hi, holds_singleton, hcode, or_comm]
    · simp [hcode]
    · intro d hd _
      exact ⟨id, by simp [hi], c, tags, hc, List.mem_singleton.1 hd⟩
    · simp [holds_singleton, hcode]
    · simp [holds_singleton, hcode]

/-- An instruction that does not fit is reported unless nothing is known of its character. -/
theorem notes_stateError {reason : String} (hi : i.action.characters = [id])
    (h : stateError p w id reason i.loc = .ok w') :
    ∃ new, Notes p i w w' new ∧ (Holds new .characterStateError ↔ id ∉ w'.unknown) := by
  obtain ⟨hid, rfl⟩ | ⟨hid, c, hc, rfl⟩ := stateError_cases h
  · exact ⟨[], notes_nil rfl rfl, iff_of_false (not_holds_nil _) (not_not_intro hid)⟩
  · have hcode : (errorReport c reason i.loc).code = .characterStateError := rfl
    refine ⟨[errorReport c reason i.loc], ⟨rfl, fun other => ?_, ?_, ?_, ?_⟩,
      iff_of_true (holds_singleton.2 hcode) hid⟩
    · simp [report, holds_singleton, hcode]
    · intro d hd _
      exact ⟨id, by simp [hi], c, reason, hc, List.mem_singleton.1 hd⟩
    · simp [hcode]
    · simp [holds_singleton, hcode]

theorem notes_emitShow {path : List String} {loc : Loc}
    (h : emitShow p w stage id path loc = .ok r) : Notes p i w r.walk [] := by
  obtain ⟨c, -, rfl⟩ := emitShow_cases h
  dsimp only
  split
  · exact notes_nil rfl rfl
  · exact notes_nil rfl rfl

/-- The instruction notes something, and reports an error just for a character that it is refused
and that is not unknown after it. -/
def Tells (p : Program) (policy : ReentrantShow) (w : Walk) (i : Inst) (r : Walked) : Prop :=
  ∃ new, Notes p i w r.walk new ∧ ∀ c, c ∈ i.action.characters ∧ Holds new .characterStateError ↔
    Refused policy i r.emitted c ∧ c ∉ r.walk.unknown

/-- An instruction that reports no error and is not refused. -/
theorem tells_of_not_refused {new : List Diagnostic} (h : Notes p i w r.walk new)
    (herror : ¬ Holds new .characterStateError) (hr : ∀ c, ¬ Refused policy i r.emitted c) :
    Tells p policy w i r :=
  ⟨new, h, fun c => iff_of_false (fun h => herror h.2) fun h => hr c h.1⟩

/-- An instruction that is refused reports so, unless its character is unknown. -/
theorem tells_of_refused {new : List Diagnostic} (hi : i.action.characters = [id])
    (h : Notes p i w r.walk new) (herror : Holds new .characterStateError ↔ id ∉ r.walk.unknown)
    (hr : ∀ c, Refused policy i r.emitted c ↔ c = id) : Tells p policy w i r := by
  refine ⟨new, h, fun c => ?_⟩
  rw [hi, hr, List.mem_singleton]
  refine and_congr_right ?_
  rintro rfl
  exact herror

theorem tells_showCharacter {tags : List String} {loc : Loc}
    (h : showCharacter p policy w stage id tags loc = .ok r) :
    Tells p policy w ⟨.showCharacter id tags, loc⟩ r := by
  obtain ⟨path, w₁, hresolve, houtcome⟩ := showCharacter_cases h
  obtain ⟨xs, hxs, hnone⟩ := notes_resolve (i := ⟨.showCharacter id tags, loc⟩) rfl hresolve
  obtain ⟨-, -, hemit⟩ | ⟨rfl, rfl⟩ | ⟨rfl, w₂, herror, rfl⟩ := houtcome
  · have hall := hxs.trans (notes_emitShow hemit)
    obtain ⟨c, -, rfl⟩ := emitShow_cases hemit
    exact tells_of_not_refused hall (by rwa [List.append_nil]) fun c hr => by cases hr.1
  · refine tells_of_not_refused hxs hnone fun c hr => ?_
    obtain ⟨-, hhide | ⟨hpolicy, -⟩⟩ := hr
    · cases hhide
    · cases hpolicy
  · obtain ⟨ys, hys, hiff⟩ := notes_stateError (i := ⟨.showCharacter id tags, loc⟩) rfl herror
    refine tells_of_refused rfl (hxs.trans hys) ?_ fun c => ?_
    · rw [holds_append, or_iff_right hnone, hiff]
    · simp [Refused, eq_comm]

theorem tells_setState {tags : List String} {loc : Loc}
    (h : setState p w stage id tags loc = .ok r) :
    Tells p policy w ⟨.setState id tags, loc⟩ r := by
  have hr : ∀ emitted c, ¬ Refused policy ⟨.setState id tags, loc⟩ emitted c := by
    simp [Refused]
  obtain ⟨path, w₁, hresolve, houtcome⟩ := setState_cases h
  obtain ⟨xs, hxs, hnone⟩ := notes_resolve (i := ⟨.setState id tags, loc⟩) rfl hresolve
  obtain ⟨-, hemit⟩ | rfl | ⟨-, rfl⟩ := houtcome
  · exact tells_of_not_refused (hxs.trans (notes_emitShow hemit)) (by rwa [List.append_nil])
      (hr _)
  · exact tells_of_not_refused hxs hnone (hr _)
  · exact tells_of_not_refused hxs hnone (hr _)

theorem tells_hideCharacter {loc : Loc} (h : hideCharacter p w stage id loc = .ok r) :
    Tells p policy w ⟨.hideCharacter id, loc⟩ r := by
  obtain ⟨-, rfl⟩ | ⟨w₁, herror, rfl⟩ := hideCharacter_cases h
  · exact tells_of_not_refused (notes_nil rfl rfl) (not_holds_nil _) fun c hr => by cases hr.1
  · obtain ⟨xs, hxs, hiff⟩ := notes_stateError (i := ⟨.hideCharacter id, loc⟩) rfl herror
    exact tells_of_refused rfl hxs hiff fun c => by simp [Refused, eq_comm]

/-- A scene that is not declared is reported, and nothing else. -/
theorem tells_setScene (scene : String) (loc : Loc) :
    Tells p policy w ⟨.setScene scene, loc⟩ (setScene w stage scene loc) := by
  have hr : ∀ emitted c, ¬ Refused policy ⟨.setScene scene, loc⟩ emitted c := by
    simp [Refused]
  unfold setScene
  by_cases hany : w.scenes.any (·.name == scene) = true
  · simp only [if_pos hany]
    exact tells_of_not_refused (notes_nil rfl rfl) (not_holds_nil _) (hr _)
  · simp only [if_neg hany]
    have hnotes : Notes p ⟨.setScene scene, loc⟩ w
        { w.report (.make .sceneNotFound [("name", scene)] (some loc)) with
          scenes := w.scenes ++ [⟨scene, none⟩] }
        [.make .sceneNotFound [("name", scene)] (some loc)] :=
      notes_other rfl rfl (by simp [Diagnostic.make]) (by simp [Diagnostic.make])
        (by simp [Diagnostic.make])
    exact tells_of_not_refused hnotes (by simp [holds_singleton, Diagnostic.make]) (hr _)

/-- **An instruction that is refused is reported**, unless its character is unknown after it. -/
theorem tells_inst (h : inst p policy w stage i = .ok r) : Tells p policy w i r := by
  have hquiet : ∀ {a : Action} {loc : Loc} {e : Inst} {after : Snapshot},
      Tells p policy w ⟨a, loc⟩ ⟨some e, after, w⟩ := fun {a loc e after} =>
    tells_of_not_refused (notes_nil rfl rfl) (not_holds_nil _) fun c hr => by cases hr.1
  rcases i with ⟨a, loc⟩
  cases a with
  | say speaker status content =>
    rcases speaker with _ | id
    · cases h
      exact hquiet
    · rcases status with _ | ⟨tag, tags⟩
      · cases h
        exact hquiet
      · obtain rfl | ⟨c, path, -, -, -, rfl⟩ := sayWithStatus_cases h
        · exact hquiet
        · exact hquiet
  | showCharacter id tags => exact tells_showCharacter h
  | hideCharacter id => exact tells_hideCharacter h
  | setState id tags => exact tells_setState h
  | setScene scene =>
    cases h
    exact tells_setScene scene loc
  | clearScene | showImage _ | play _ _ | verbatim _ | comment _ =>
    cases h
    exact hquiet

namespace Turn

/-- The turn reports the code for the character, which its instruction names. -/
def Reports (t : Turn) (code : Code) (c : CharacterId) : Prop :=
  c ∈ t.source.action.characters ∧ Holds t.reports code

variable {t : Turn}

theorem Taken.tells (h : t.Taken p policy) :
    Notes p t.source t.walk t.outcome.walk t.reports ∧
      ∀ c, t.Reports .characterStateError c ↔
        Refused policy t.source t.outcome.emitted c ∧ c ∉ t.outcome.walk.unknown := by
  obtain ⟨new, hnotes, herrors⟩ := tells_inst h
  have hreports : t.reports = new := by rw [reports, hnotes.diags, List.drop_left]
  unfold Reports
  rw [hreports]
  exact ⟨hnotes, herrors⟩

/-- A command to show or hide that is dropped leaves the stage as it is. -/
theorem Taken.stage_of_dropped (h : t.Taken p policy) (hnone : t.outcome.emitted = none)
    {c : CharacterId} (hc : t.source.action = .hideCharacter c ∨
      ∃ tags, t.source.action = .showCharacter c tags) : t.outcome.stage = t.stage := by
  have heffect := h.effect
  rw [hnone] at heffect
  generalize t.source = i at heffect hc
  generalize t.outcome.stage = after at heffect
  cases heffect with
  | remember _ => simp at hc
  | drop _ => rfl

end Turn

/-! ### Runs of turns -/

/-- The reports of a run are those of its turns. -/
theorem Trail.diags_eq {turns : List Turn} (h : Trail p policy w turns w') :
    w'.diags = w.diags ++ turns.flatMap (·.reports) := by
  induction h with
  | nil => simp
  | cons htaken _ ih =>
    rw [ih, htaken.tells.1.diags, List.flatMap_cons, List.append_assoc]

/-- **A character is unknown if it was reported to be without a state**, by a turn of the run or
before it. -/
theorem Trail.mem_unknown {turns : List Turn} (h : Trail p policy w turns w') (c : CharacterId) :
    c ∈ w'.unknown ↔ c ∈ w.unknown ∨ ∃ t ∈ turns, t.Reports .characterStateEmpty c := by
  induction h with
  | nil => simp
  | @cons t turns w' htaken _ ih =>
    rw [ih, htaken.tells.1.unknown, or_assoc, List.exists_mem_cons_iff]
    rfl

/-- No patch is reported while blocks are walked. -/
theorem Trail.not_holds_merge {turns : List Turn} (h : Trail p policy w turns w') :
    ¬ Holds (turns.flatMap (·.reports)) .stateMergeCompensated := by
  rintro ⟨d, hd, hcode⟩
  obtain ⟨t, ht, hd⟩ := List.mem_flatMap.1 hd
  exact (h.taken ht).tells.1.merges ⟨d, hd, hcode⟩

/-- The reports on the states of characters account for what is dropped in a run of turns.

* An error is reported for a character just if a command to hide it is dropped, or under `reject`
  a command to show it, and no turn so far, this one included, has reported it to be without a
  state.
* Such a report, as one of tags that lead nowhere, is made for the character that the instruction
  names, and at its place.
* A command to show or hide that is dropped leaves the stage as it is.
* After a character was reported to be without a state there is no error for it. -/
structure Accounts (p : Program) (policy : ReentrantShow) (turns : List Turn) : Prop where
  errors : ∀ before t after, turns = before ++ t :: after → ∀ c,
    t.Reports .characterStateError c ↔ Refused policy t.source t.outcome.emitted c ∧
      ∀ u ∈ before ++ [t], ¬ u.Reports .characterStateEmpty c
  messages : ∀ t ∈ turns, ∀ d ∈ t.reports, d.code = .characterStateError →
    ∃ c ∈ t.source.action.characters, ∃ ch reason,
      p.characters[c]? = some ch ∧ d = errorReport ch reason t.source.loc
  empties : ∀ t ∈ turns, ∀ d ∈ t.reports, d.code = .characterStateEmpty →
    ∃ c ∈ t.source.action.characters, ∃ ch tags,
      p.characters[c]? = some ch ∧ d = emptyReport ch tags t.source.loc
  unmoved : ∀ t ∈ turns, t.outcome.emitted = none → ∀ c, (t.source.action = .hideCharacter c ∨
    ∃ tags, t.source.action = .showCharacter c tags) → t.outcome.stage = t.stage
  silenced : ∀ before t between u after, turns = before ++ t :: (between ++ u :: after) → ∀ c,
    t.Reports .characterStateEmpty c → ¬ u.Reports .characterStateError c

/-- A run that starts with no character unknown accounts for what it drops. -/
theorem Trail.accounts {turns : List Turn} (h : Trail p policy w turns w')
    (hstart : w.unknown = []) : Accounts p policy turns := by
  have herrors : ∀ before t after, turns = before ++ t :: after → ∀ c,
      t.Reports .characterStateError c ↔ Refused policy t.source t.outcome.emitted c ∧
        ∀ u ∈ before ++ [t], ¬ u.Reports .characterStateEmpty c := by
    rintro before t after rfl c
    obtain ⟨hbefore, htaken, -⟩ := h.split
    have hunknown := (hbefore.append (.cons htaken .nil)).mem_unknown c
    rw [hstart, or_iff_right (List.not_mem_nil)] at hunknown
    rw [htaken.tells.2 c, hunknown]
    simp only [not_exists, not_and]
  refine ⟨herrors, fun t ht => (h.taken ht).tells.1.errors,
    fun t ht => (h.taken ht).tells.1.empties,
    fun t ht hnone c => (h.taken ht).stage_of_dropped hnone, ?_⟩
  intro before t between u after hsplit c hempty herror
  have hall := (herrors (before ++ t :: between) u after (by simp [hsplit]) c).1 herror
  exact hall.2 t (by simp) hempty

end Walk

namespace Generate

variable {p : Program} {policy : ReentrantShow} {f : FlowGraph} {g : GeneratedFunction}

/-- The function was generated by walking its blocks in order in these passages, starting with no
character unknown; its reports are those of the turns, and behind them those of its patches. -/
structure WalkedThrough (p : Program) (policy : ReentrantShow) (f : FlowGraph)
    (g : GeneratedFunction) (reports : List Diagnostic) (xs : List Passage) : Prop where
  walk : ∃ w w', w.unknown = [] ∧ Walkthrough p policy f w xs w'
  code : Visited p policy f g (xs.map (·.visit))
  reports : reports = (turnsOf xs).flatMap (·.reports) ++ patchReports f (xs.map (·.visit))

/-- Every function of a program that is generated was walked through. -/
theorem each_walkedThrough {s : CodegenSettings} {g : Generated} (h : generate p s = .ok g) :
    Each (fun f h reports => ∃ xs, WalkedThrough p s.reentrantShow f h reports xs)
      p.functions g.functions g.diags := by
  refine each_generate h fun f w g w' hfun => ?_
  obtain ⟨xs, w₁, hwalk, hvisited, hdiags⟩ := walkthrough_function hfun
  refine ⟨_, ?_, xs, ⟨_, w₁, rfl, hwalk⟩, hvisited, rfl⟩
  rw [hdiags, hwalk.trail.diags_eq, List.append_assoc]

theorem WalkedThrough.accounts {reports : List Diagnostic} {xs : List Passage}
    (h : WalkedThrough p policy f g reports xs) : Walk.Accounts p policy (turnsOf xs) := by
  obtain ⟨w, w', hstart, hwalk⟩ := h.walk
  exact hwalk.trail.accounts hstart

/-- **What is dropped is reported.** A program whose characters are in range is generated; and for
every program that is generated, the reports of its functions, one function after the other,
account for what is dropped in each. -/
theorem generate_accounts (p : Program) (s : CodegenSettings) :
    (p.CharactersInRange → ∃ g, generate p s = .ok g) ∧
      ∀ g, generate p s = .ok g → Each (fun f h reports => ∃ xs,
        WalkedThrough p s.reentrantShow f h reports xs ∧
          Walk.Accounts p s.reentrantShow (turnsOf xs)) p.functions g.functions g.diags := by
  refine ⟨fun hp => exists_generate hp s, fun g hg => (each_walkedThrough hg).imp ?_⟩
  rintro f h reports ⟨xs, hxs⟩
  exact ⟨xs, hxs, hxs.accounts⟩

/-- A character is hidden too early, then shown in a state that it does not have and shown again;
in the next function it is hidden too early once more. -/
def stumble : Program :=
  { title := ""
    characters := [{ Character.ofName "A" with
      sprites := (SpriteTree.empty.insert (.file "1") ["calm"]).insert (.file "2") ["angry"] }]
    scenes := []
    images := []
    functions := [
      ⟨"f", [
        ⟨none, [⟨.hideCharacter 0, ⟨0, 0, 0⟩⟩, ⟨.showCharacter 0 ["merry"], ⟨1, 0, 0⟩⟩], .jump 1⟩,
        ⟨some "again", [⟨.showCharacter 0 [], ⟨2, 0, 0⟩⟩], .ret⟩], ⟨0, 0, 0⟩⟩,
      ⟨"g", [⟨none, [⟨.hideCharacter 0, ⟨3, 0, 0⟩⟩], .ret⟩], ⟨3, 0, 0⟩⟩] }

theorem stumble_accounts : stumble.CharactersInRange ∧
    ∃ g, generate stumble {} = .ok g ∧ Each (fun f h reports => ∃ xs,
      WalkedThrough stumble .reject f h reports xs ∧ Walk.Accounts stumble .reject (turnsOf xs))
        stumble.functions g.functions g.diags := by
  have hin : stumble.CharactersInRange := by decide
  obtain ⟨g, hg⟩ := (generate_accounts stumble {}).1 hin
  exact ⟨hin, g, hg, (generate_accounts stumble {}).2 g hg⟩

end Generate
end Manuscript
