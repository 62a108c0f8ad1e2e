/-
# Scenes that are set and not declared

A program may set a scene that it does not declare. Generation adds it to the scenes,
without a background, and reports it. It does so once for each name: the list of scenes
is handed on from instruction to instruction through all functions, so that a name that
was added is found when it is set again, in whatever function that is.

What is added can be read off the program alone. Going through its functions, blocks and
instructions in order, it is the list of the changes of scene whose name is neither
declared nor set before (`firstSet`). A walk adds to its scenes the first settings of the
instructions it has met (`Walk.Introduces`); walks one behind the other do so for their
instructions one behind the other, since it makes no difference whether a name was known
or was added on the way (`firstSet_append`).

Key definitions: `Inst.sceneSet?`, `firstSet`, `Program.addedScenes`,
`Walk.Introduces`, `Generated.AddsScenes`.
Key theorems: `firstSet_append`, `Walk.introduces_inst`,
`Generate.introduces_functions`, `Generate.generate_addsScenes`.
-/
import Mathlib.Data.List.Induction
import Manuscript.Proofs.Stage.Collected
import Manuscript.Proofs.Stage.Story
import Manuscript.Proofs.Stage.Trail

namespace Manuscript

/-! ### First settings -/

/-- The scene that an instruction sets, and the place where it does. -/
def Inst.sceneSet? (i : Inst) : Option (String × Loc) :=
  match i.action with
  | .setScene name => some (name, i.loc)
  | _ => none

/-- The changes of scene in a function, block by block. -/
def FlowGraph.scenesSet (f : FlowGraph) : List (String × Loc) :=
  f.blocks.flatMap fun b => b.insts.filterMap Inst.sceneSet?

/-- The changes of scene in a program, function by function. -/
def Program.scenesSet (p : Program) : List (String × Loc) := p.functions.flatMap (·.scenesSet)

/-- The changes of scene whose name is not known and was not set before. -/
def firstSet (known : List String) (changes : List (String × Loc)) : List (String × Loc) :=
  (changes.zipIdx.filter fun e =>
    !known.contains e.1.1 && !((changes.take e.2).map (·.1)).contains e.1.1).map (·.1)

/-- The changes of scene that add a scene to a program: those to a scene that is not declared and
was not set before. -/
def Program.addedScenes (p : Program) : List (String × Loc) :=
  firstSet (p.scenes.map (·.name)) p.scenesSet

section FirstSet

variable {known known' : List String} {changes : List (String × Loc)}

theorem firstSet_congr (h : ∀ name, name ∈ known ↔ name ∈ known') :
    firstSet known changes = firstSet known' changes := by
  have hcontains : ∀ name, known.contains name = known'.contains name := fun name => by
    simp [h]
  simp only [firstSet, hcontains]

/-- The first settings in two stretches of a program: in the second, what the first has set is
known. -/
theorem firstSet_append (known : List String) (xs ys : List (String × Loc)) :
    firstSet known (xs ++ ys) = firstSet known xs ++ firstSet (known ++ xs.map (·.1)) ys := by
  unfold firstSet
  rw [List.zipIdx_append, List.filter_append, List.map_append, Nat.zero_add]
  refine congrArg₂ (· ++ ·) ?_ ?_
  · refine congrArg (List.map Prod.fst) (List.filter_congr fun e he => ?_)
    obtain ⟨hlt, -⟩ := List.getElem?_eq_some_iff.1 (List.mem_zipIdx_iff_getElem?.1 he)
    rw [List.take_append_of_le_length (Nat.le_of_lt hlt)]
  · rw [List.zipIdx_eq_map_add, List.filter_map, List.map_map]
    refine congrArg (List.map Prod.fst) (List.filter_congr fun e _ => ?_)
    have htake : (xs ++ ys).take (xs.length + e.2) = xs ++ ys.take e.2 :=
      List.take_length_add_append e.2
    simp only [Function.comp_apply, htake, List.map_append, List.contains_append, Bool.not_or,
      Bool.and_assoc]

theorem firstSet_singleton (known : List String) (e : String × Loc) :
    firstSet known [e] = if e.1 ∈ known then [] else [e] := by
  by_cases h : e.1 ∈ known <;> simp [firstSet, h]

/-- The names of first settings are those that are set and not known. -/
theorem mem_names_firstSet {name : String} : name ∈ (firstSet known changes).map (·.1) ↔
    name ∈ changes.map (·.1) ∧ name ∉ known := by
  induction changes using List.reverseRecOn with
  | nil => simp [firstSet]
  | append_singleton changes e ih =>
    rw [firstSet_append, List.map_append, List.mem_append, ih, firstSet_singleton]
    simp only [List.map_append, List.mem_append]
    by_cases hname : name = e.1
    · subst hname
      by_cases hknown : e.1 ∈ known <;> by_cases hset : e.1 ∈ changes.map (·.1) <;>
        simp [hknown, hset]
    · split <;> simp [hname]

theorem nodup_firstSet (known : List String) (changes : List (String × Loc)) :
    ((firstSet known changes).map (·.1)).Nodup := by
  induction changes using List.reverseRecOn with
  | nil => simp [firstSet]
  | append_singleton changes e ih =>
    rw [firstSet_append, firstSet_singleton]
    by_cases h : e.1 ∈ known ++ changes.map (·.1)
    · rw [if_pos h, List.append_nil]
      exact ih
    · rw [if_neg h]
      refine nodup_map_concat ih fun hmem => h ?_
      exact List.mem_append_right _ (mem_names_firstSet.1 hmem).1

end FirstSet

namespace Inst

theorem sceneSet?_statusless (i : Inst) : i.statusless.sceneSet? = i.sceneSet? := by
  rcases i with ⟨action, loc⟩
  cases action <;> rfl

theorem sceneSet?_of_movesCharacter (i : Inst) (h : i.action.movesCharacter = true) :
    i.sceneSet? = none := by
  rcases i with ⟨action, loc⟩
  cases action with
  | setScene name => cases h
  | _ => rfl

end Inst

/-! ### What a walk adds -/

namespace Walk

/-- The report of a scene that is not declared. -/
def sceneReport (e : String × Loc) : Diagnostic := .make .sceneNotFound [("name", e.1)] (some e.2)

/-- The reports of scenes that are not declared, among others. -/
def sceneReports (ds : List Diagnostic) : List Diagnostic := ds.filter (·.code == .sceneNotFound)

theorem sceneReports_append (xs ys : List Diagnostic) :
    sceneReports (xs ++ ys) = sceneReports xs ++ sceneReports ys := by
  simp [sceneReports]

/-- A walk that meets these changes of scene adds the scenes it does not know, and reports them. -/
structure Introduces (w : Walk) (changes : List (String × Loc)) (w' : Walk) : Prop where
  scenes : w'.scenes = w.scenes ++
    (firstSet (w.scenes.map (·.name)) changes).map fun e => ⟨e.1, none⟩
  reports : sceneReports w'.diags = sceneReports w.diags ++
    (firstSet (w.scenes.map (·.name)) changes).map sceneReport

variable {p : Program} {policy : ReentrantShow} {w w' w'' : Walk} {stage : Snapshot}
  {id : CharacterId} {i : Inst} {r : Walked} {xs ys : List (String × Loc)}

theorem introduces_nil (hscenes : w'.scenes = w.scenes)
    (hreports : sceneReports w'.diags = sceneReports w.diags) : Introduces w [] w' := by
  constructor
  · simp [hscenes, firstSet]
  · simp [hreports, firstSet]

theorem Introduces.trans (h : Introduces w xs w') (h' : Introduces w' ys w'') :
    Introduces w (xs ++ ys) w'' := by
  -- Whether a name was known or has been added, it is not added again.
  have hknown : ∀ name, name ∈ w'.scenes.map (·.name) ↔
      name ∈ w.scenes.map (·.name) ++ xs.map (·.1) := by
    intro name
    have hnames := @mem_names_firstSet (w.scenes.map (·.name)) xs name
    rw [h.scenes, List.map_append, List.map_map, List.mem_append, List.mem_append]
    by_cases hmem : name ∈ w.scenes.map (·.name)
    · simp only [hmem, true_or]
    · simp only [hmem, false_or]
      exact hnames.trans (and_iff_left hmem)
  have hys : firstSet (w'.scenes.map (·.name)) ys =
      firstSet (w.scenes.map (·.name) ++ xs.map (·.1)) ys := firstSet_congr hknown
  constructor
  · rw [h'.scenes, hys, h.scenes, firstSet_append, List.map_append, List.append_assoc]
  · rw [h'.reports, hys, h.reports, firstSet_append, List.map_append, List.append_assoc]

theorem introduces_stateError {reason : String} {loc : Loc}
    (h : stateError p w id reason loc = .ok w') : Introduces w [] w' := by
  obtain ⟨-, rfl⟩ | ⟨-, c, -, rfl⟩ := stateError_cases h
  · exact introduces_nil rfl rfl
  · exact introduces_nil rfl (by simp [report, sceneReports, errorReport, Diagnostic.make])

theorem introduces_resolve {tags path : List String} {loc : Loc}
    (h : resolve p w stage id tags loc = .ok (path, w')) : Introduces w [] w' := by
  obtain ⟨c, -, rfl | rfl⟩ := resolve_cases h
  · exact introduces_nil rfl rfl
  · exact introduces_nil rfl (by simp [report, sceneReports, emptyReport, Diagnostic.make])

theorem introduces_emitShow {path : List String} {loc : Loc}
    (h : emitShow p w stage id path loc = .ok r) : Introduces w [] r.walk := by
  obtain ⟨c, -, rfl⟩ := emitShow_cases h
  dsimp only
  split
  · exact introduces_nil rfl rfl
  · exact introduces_nil rfl rfl

theorem introduces_setScene (w : Walk) (stage : Snapshot) (scene : String) (loc : Loc) :
    Introduces w [(scene, loc)] (setScene w stage scene loc).walk := by
  have hknown : w.scenes.any (·.name == scene) = true ↔ scene ∈ w.scenes.map (·.name) := by
    simp [List.any_eq_true]
  unfold setScene
  by_cases hany : w.scenes.any (·.name == scene) = true
  · have hnone : firstSet (w.scenes.map (·.name)) [(scene, loc)] = [] := by
      rw [firstSet_singleton, if_pos (hknown.1 hany)]
    simp only [if_pos hany]
    constructor
    · simp [hnone]
    · simp [hnone]
  · have hone : firstSet (w.scenes.map (·.name)) [(scene, loc)] = [(scene, loc)] := by
      rw [firstSet_singleton, if_neg fun h => hany (hknown.2 h)]
    simp only [if_neg hany]
    constructor
    · simp [hone]
    · rw [hone]
      exact sceneReports_append _ _

/-- **A step adds the scene that it sets**, if it is not known. -/
theorem introduces_inst (h : inst p policy w stage i = .ok r) :
    Introduces w i.sceneSet?.toList r.walk := by
  rcases i with ⟨a, loc⟩
  cases a with
  | say speaker status content =>
    rcases speaker with _ | id
    · cases h
      exact introduces_nil rfl rfl
    · rcases status with _ | ⟨tag, tags⟩
      · cases h
        exact introduces_nil rfl rfl
      · obtain rfl | ⟨c, path, -, -, -, rfl⟩ := sayWithStatus_cases h
        · exact introduces_nil rfl rfl
        · exact introduces_nil rfl rfl
  | showCharacter id tags =>
    obtain ⟨path, w₁, hresolve, houtcome⟩ := showCharacter_cases h
    have hfirst := introduces_resolve hresolve
    obtain ⟨-, -, hemit⟩ | ⟨-, rfl⟩ | ⟨-, w₂, herror, rfl⟩ := houtcome
    · exact hfirst.trans (introduces_emitShow hemit)
    · exact hfirst
    · exact hfirst.trans (introduces_stateError herror)
  | hideCharacter id =>
    obtain ⟨-, rfl⟩ | ⟨w₁, herror, rfl⟩ := hideCharacter_cases h
    · exact introduces_nil rfl rfl
    · exact introduces_stateError herror
  | setState id tags =>
    obtain ⟨path, w₁, hresolve, houtcome⟩ := setState_cases h
    have hfirst := introduces_resolve hresolve
    obtain ⟨-, hemit⟩ | rfl | ⟨-, rfl⟩ := houtcome
    · exact hfirst.trans (introduces_emitShow hemit)
    · exact hfirst
    · exact hfirst
  | setScene scene =>
    cases h
    exact introduces_setScene w stage scene loc
  | clearScene | showImage _ | play _ _ | verbatim _ | comment _ =>
    cases h
    exact introduces_nil rfl rfl

/-- Turns one after the other add the scenes that their instructions set. -/
theorem Trail.introduces {turns : List Turn} (h : Trail p policy w turns w') :
    Introduces w (turns.filterMap (·.source.sceneSet?)) w' := by
  induction h with
  | nil => exact introduces_nil rfl rfl
  | @cons t turns w' htaken _ ih =>
    have hall := (introduces_inst htaken).trans ih
    cases hset : t.source.sceneSet? with
    | none => simpa [hset] using hall
    | some e => simpa [hset] using hall

end Walk

namespace Generate

variable {p : Program} {policy : ReentrantShow} {f : FlowGraph} {w w' : Walk}

theorem sceneReports_patchReports (f : FlowGraph) (visits : List Visit) :
    Walk.sceneReports (patchReports f visits) = [] := by
  refine List.filter_eq_nil_iff.2 fun d hd => ?_
  obtain ⟨b, -, hd⟩ := List.mem_flatMap.1 hd
  obtain ⟨e, -, hreport⟩ := List.mem_filterMap.1 hd
  unfold patchReport at hreport
  split at hreport
  · cases hreport
  · cases hreport
    simp [Diagnostic.make]

theorem filterMap_sceneSet?_turnsOf {bs : List BasicBlock} {xs : List Passage}
    (h : List.Forall₂ Passage.Through bs xs) :
    (turnsOf xs).filterMap (·.source.sceneSet?) =
      bs.flatMap fun b => b.insts.filterMap Inst.sceneSet? := by
  induction h with
  | nil => rfl
  | @cons b x bs xs hthrough _ ih =>
    rw [turnsOf, List.flatMap_cons, List.filterMap_append, List.flatMap_cons, ← hthrough.sources,
      List.filterMap_map]
    exact congrArg _ ih

/-- A function adds the scenes that its blocks set. -/
theorem introduces_function {g : GeneratedFunction} (h : function p policy w f = .ok (g, w')) :
    w.Introduces f.scenesSet w' := by
  obtain ⟨visits, w₁, hvisit, rfl, rfl⟩ := function_cases h
  obtain ⟨xs, -, hthrough, htrail⟩ := exists_passages hvisit
  have hstart : w.Introduces [] { w with unknown := [] } := Walk.introduces_nil rfl rfl
  have hstop : w₁.Introduces [] { w₁ with diags := w₁.diags ++ patchReports f visits } := by
    refine Walk.introduces_nil rfl ?_
    rw [Walk.sceneReports_append, sceneReports_patchReports, List.append_nil]
  have hall := hstart.trans (htrail.introduces.trans hstop)
  rwa [List.nil_append, List.append_nil, filterMap_sceneSet?_turnsOf hthrough] at hall

/-- **Functions add the scenes that they set**, one function after the other. -/
theorem introduces_functions : ∀ {fs : List FlowGraph} {gs : List GeneratedFunction} {w w' : Walk},
    functions p policy w fs = .ok (gs, w') → w.Introduces (fs.flatMap (·.scenesSet)) w'
  | [], _, _, _, h => by
    cases h
    exact Walk.introduces_nil rfl rfl
  | f :: rest, _, _, _, h => by
    obtain ⟨⟨g, w₁⟩, hfirst, h⟩ := bind_eq_ok.1 h
    obtain ⟨⟨gs, w₂⟩, hrest, h⟩ := bind_eq_ok.1 h
    cases h
    exact (introduces_function hfirst).trans (introduces_functions hrest)

/-! ### Whole programs -/

/-- A generated block changes the scene as its block does. -/
theorem filterMap_sceneSet?_eq {b : BasicBlock} {c : GeneratedBlock} (h : c.Retells b) :
    c.body.filterMap Inst.sceneSet? = b.insts.filterMap Inst.sceneSet? := by
  rw [← Inst.filterMap_story Inst.sceneSet?_statusless Inst.sceneSet?_of_movesCharacter c.body,
    h.body, Inst.filterMap_story Inst.sceneSet?_statusless Inst.sceneSet?_of_movesCharacter]

end Generate

/-- Generation adds the scenes that a program sets and does not declare.

* The scenes are those declared, and behind them, without a background, those set and not declared,
  in the order in which they are set first.
* Each of these is added once.
* Each of these is reported, where it is set first, and no other scene is.
* Every block keeps its changes of scene. -/
structure Generated.AddsScenes (p : Program) (g : Generated) : Prop where
  scenes : g.scenes = p.scenes ++ p.addedScenes.map fun e => ⟨e.1, none⟩
  added : ∀ name, name ∈ p.addedScenes.map (·.1) ↔
    name ∈ p.scenesSet.map (·.1) ∧ name ∉ p.scenes.map (·.name)
  distinct : (p.addedScenes.map (·.1)).Nodup
  reports : g.diags.filter (·.code == .sceneNotFound) = p.addedScenes.map fun e =>
    .make .sceneNotFound [("name", e.1)] (some e.2)
  kept : List.Forall₂ (fun f h => List.Forall₂ (fun b c =>
    c.body.filterMap Inst.sceneSet? = b.insts.filterMap Inst.sceneSet?) f.blocks h.blocks)
      p.functions g.functions

namespace Generate

/-- **Scenes that are set and not declared are added**, once each. A program whose characters are in
range is generated, and every program that is generated gets its scenes in this way. -/
theorem generate_addsScenes (p : Program) (s : CodegenSettings) :
    (p.CharactersInRange → ∃ g, generate p s = .ok g) ∧
      ∀ g, generate p s = .ok g → g.AddsScenes p := by
  refine ⟨fun hp => exists_generate hp s, fun g hg => ?_⟩
  have hkept := (visited_generate hg).imp fun f h ⟨visits, hv⟩ =>
    hv.retells.blocks.imp fun b c hc => filterMap_sceneSet?_eq hc
  obtain ⟨⟨fs, w⟩, hfs, h⟩ := bind_eq_ok.1 hg
  cases h
  have hall := introduces_functions hfs
  exact ⟨hall.scenes, fun name => mem_names_firstSet, nodup_firstSet _ _, hall.reports, hkept⟩

/-- Two functions set scenes that are not declared, one of them both. -/
def excursion : Program :=
  { title := ""
    characters := []
    scenes := [⟨"home", none⟩]
    images := []
    functions := [
      ⟨"f", [
        ⟨none, [⟨.setScene "park", ⟨0, 0, 0⟩⟩, ⟨.setScene "home", ⟨1, 0, 0⟩⟩], .jump 1⟩,
        ⟨some "back", [⟨.setScene "park", ⟨2, 0, 0⟩⟩], .ret⟩], ⟨0, 0, 0⟩⟩,
      ⟨"g", [⟨none, [⟨.setScene "lake", ⟨3, 0, 0⟩⟩, ⟨.setScene "park", ⟨4, 0, 0⟩⟩], .ret⟩],
        ⟨3, 0, 0⟩⟩] }

theorem excursion_addsScenes : excursion.CharactersInRange ∧
    excursion.addedScenes = [("park", ⟨0, 0, 0⟩), ("lake", ⟨3, 0, 0⟩)] ∧
    ∃ g, generate excursion {} = .ok g ∧ g.AddsScenes excursion := by
  have hin : excursion.CharactersInRange := by decide
  obtain ⟨g, hg⟩ := (generate_addsScenes excursion {}).1 hin
  exact ⟨hin, by decide, g, hg, (generate_addsScenes excursion {}).2 g hg⟩

end Generate
end Manuscript
