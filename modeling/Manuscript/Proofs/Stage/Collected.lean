/-
# What generation collects

Generated code puts states of characters and scenes on screen, and a script has to
define an image for each. A state that is a leaf of its character's sprite tree is
defined by the tree. Any other is collected when it is shown, and a scene that was
not declared is added when it is set: over a whole program, what is collected is
exactly what the bodies of its blocks show beside the trees.

Every step is told by what it emits (`Walk.Records`), so that the steps of a block,
the blocks of a function and the functions of a program only have to be put one
behind the other.

Key definitions: `Placeholder.Ordered`, `Program.Leaf`, `Walk.Records`,
`Generate.bodies`.
Key theorems: `Placeholder.mem_insert`, `Placeholder.ordered_insert`,
`Walk.records_inst`, `Generate.records_functions`.
-/
import Mathlib.Data.List.Nodup
import Manuscript.Proofs.Program.Sprite
import Manuscript.Proofs.Stage.InRange

namespace Manuscript

/-- Keys stay distinct when an element with a new key comes behind. -/
theorem nodup_map_concat {α β : Type} {key : α → β} {xs : List α} {x : α}
    (h : (xs.map key).Nodup) (hx : key x ∉ xs.map key) : ((xs ++ [x]).map key).Nodup := by
  rw [List.map_append, List.map_singleton, ← List.concat_eq_append]
  exact List.Nodup.concat hx h

/-! ### Ordered placeholders -/

namespace Placeholder

/-- The placeholders stand in order, each once. -/
def Ordered (ps : List Placeholder) : Prop := ps.Pairwise fun a b => before a b = true

theorem before_iff {a b : Placeholder} :
    before a b = true ↔ a.1 < b.1 ∨ a.1 = b.1 ∧ a.2 < b.2 := by
  simp [before]

theorem before_trans {a b c : Placeholder} (hab : before a b = true) (hbc : before b c = true) :
    before a c = true := by
  rw [before_iff] at hab hbc ⊢
  rcases hab with hab | ⟨hab, hlt⟩
  · rcases hbc with hbc | ⟨hbc, -⟩
    · exact .inl (Nat.lt_trans hab hbc)
    · exact .inl (hbc ▸ hab)
  · rcases hbc with hbc | ⟨hbc, hlt'⟩
    · exact .inl (hab ▸ hbc)
    · exact .inr ⟨hab.trans hbc, List.lt_trans hlt hlt'⟩

theorem ne_of_before {a b : Placeholder} (h : before a b = true) : a ≠ b := by
  rintro rfl
  rcases before_iff.1 h with h | ⟨-, h⟩
  · exact Nat.lt_irrefl _ h
  · exact List.lt_irrefl _ h

/-- Of two placeholders one is before the other. -/
theorem before_of_not_before {a b : Placeholder} (hne : a ≠ b) (h : before a b = false) :
    before b a = true := by
  have hnot : ¬ (a.1 < b.1 ∨ a.1 = b.1 ∧ a.2 < b.2) := by
    rw [← before_iff, h]
    exact Bool.false_ne_true
  rw [before_iff]
  rcases Nat.lt_trichotomy b.1 a.1 with hlt | heq | hlt
  · exact .inl hlt
  · refine .inr ⟨heq, ?_⟩
    by_contra hge
    have hle : ¬ a.2 < b.2 := fun hlt => hnot (.inr ⟨heq.symm, hlt⟩)
    exact hne (Prod.ext heq.symm (List.le_antisymm hge hle))
  · exact absurd (.inl hlt) hnot

theorem mem_insert {a b : Placeholder} : ∀ {ps : List Placeholder},
    b ∈ insert a ps ↔ b = a ∨ b ∈ ps
  | [] => by simp [insert]
  | c :: rest => by
    unfold insert
    by_cases hac : a = c
    · subst hac
      simp
    · rw [if_neg hac]
      by_cases hbefore : before a c = true
      · rw [if_pos hbefore, List.mem_cons]
      · rw [if_neg hbefore, List.mem_cons, List.mem_cons, mem_insert, or_left_comm]

theorem ordered_insert (a : Placeholder) : ∀ {ps : List Placeholder}, Ordered ps →
    Ordered (insert a ps)
  | [], _ => List.pairwise_singleton _ _
  | c :: rest, h => by
    obtain ⟨hc, hrest⟩ := List.pairwise_cons.1 h
    unfold insert
    by_cases hac : a = c
    · rw [if_pos hac]
      exact h
    · rw [if_neg hac]
      by_cases hbefore : before a c = true
      · rw [if_pos hbefore]
        refine List.pairwise_cons.2 ⟨fun b hb => ?_, h⟩
        rcases List.mem_cons.1 hb with rfl | hb
        · exact hbefore
        · exact before_trans hbefore (hc b hb)
      · rw [if_neg hbefore]
        refine List.pairwise_cons.2 ⟨fun b hb => ?_, ordered_insert a hrest⟩
        rcases mem_insert.1 hb with rfl | hb
        · exact before_of_not_before hac (by simpa using hbefore)
        · exact hc b hb

theorem Ordered.nodup {ps : List Placeholder} (h : Ordered ps) : ps.Nodup :=
  h.imp ne_of_before

end Placeholder

/-! ### What a walk collects -/

/-- The path leads to a leaf of the character's sprite tree. -/
def Program.Leaf (p : Program) (id : CharacterId) (path : List String) : Prop :=
  ∃ c, p.characters[id]? = some c ∧ c.sprites.isComplete path = true

/-- The action has to be backed by something that a script defines. -/
def Action.isBacked : Action → Bool
  | .showCharacter .. | .setState .. | .setScene _ => true
  | .say _ status _ => !status.isEmpty
  | _ => false

namespace Walk

/-- What a walk collects while it emits instructions: the states shown that are no leaves, and
the scenes set. The statuses of lines are leaves. -/
structure Records (p : Program) (w : Walk) (emitted : List Inst) (w' : Walk) : Prop where
  placeholders : ∀ e, e ∈ w'.placeholders ↔ e ∈ w.placeholders ∨
    ¬ p.Leaf e.1 e.2 ∧ ∃ i ∈ emitted, i.action = .showCharacter e.1 e.2
  ordered : Placeholder.Ordered w.placeholders → Placeholder.Ordered w'.placeholders
  scenes : ∀ name, name ∈ w'.scenes.map (·.name) ↔ name ∈ w.scenes.map (·.name) ∨
    ∃ i ∈ emitted, i.action = .setScene name
  distinct : (w.scenes.map (·.name)).Nodup → (w'.scenes.map (·.name)).Nodup
  statuses : ∀ i ∈ emitted, ∀ id status content, i.action = .say (some id) status content →
    status ≠ [] → p.Leaf id status
  settled : ∀ i ∈ emitted, ∀ id tags, i.action ≠ .setState id tags

variable {p : Program} {policy : ReentrantShow} {w w' w'' : Walk} {stage : Snapshot}
  {id : CharacterId}

/-- The walk has collected nothing more. -/
def Keeps (w w' : Walk) : Prop := w'.scenes = w.scenes ∧ w'.placeholders = w.placeholders

/-- Nothing is collected for instructions that need not be backed. -/
theorem Keeps.records (h : Keeps w w') {emitted : List Inst}
    (he : ∀ i ∈ emitted, i.action.isBacked = false) : Records p w emitted w' := by
  have hnone : ∀ {a : Action}, a.isBacked = true → ¬ ∃ i ∈ emitted, i.action = a := by
    rintro a ha ⟨i, hi, rfl⟩
    rw [he i hi] at ha
    cases ha
  constructor
  case placeholders =>
    intro e
    rw [h.2]
    exact ⟨.inl, fun hor => hor.resolve_right fun hshow => hnone rfl hshow.2⟩
  case ordered => exact fun ho => h.2 ▸ ho
  case scenes =>
    intro name
    rw [h.1]
    exact ⟨.inl, fun hor => hor.resolve_right (hnone rfl)⟩
  case distinct => exact fun hd => h.1 ▸ hd
  case statuses =>
    intro i hi id status content ha hne
    have hbacked := he i hi
    rw [ha] at hbacked
    cases status with
    | nil => exact absurd rfl hne
    | cons tag tags => cases hbacked
  case settled =>
    intro i hi id tags ha
    have hbacked := he i hi
    rw [ha] at hbacked
    cases hbacked

theorem Keeps.records_nil (h : Keeps w w') : Records p w [] w' :=
  h.records fun _ hi => absurd hi List.not_mem_nil

theorem Records.trans {xs ys : List Inst} (h : Records p w xs w') (h' : Records p w' ys w'') :
    Records p w (xs ++ ys) w'' := by
  have hmem : ∀ {a : Action}, (∃ i ∈ xs ++ ys, i.action = a) ↔
      (∃ i ∈ xs, i.action = a) ∨ ∃ i ∈ ys, i.action = a := by
    intro a
    simp only [List.mem_append, or_and_right, exists_or]
  constructor
  case placeholders =>
    intro e
    rw [h'.placeholders, h.placeholders, hmem, or_assoc, ← and_or_left]
  case ordered => exact fun ho => h'.ordered (h.ordered ho)
  case scenes =>
    intro name
    rw [h'.scenes, h.scenes, hmem, or_assoc]
  case distinct => exact fun hd => h'.distinct (h.distinct hd)
  case statuses => exact List.forall_mem_append.2 ⟨h.statuses, h'.statuses⟩
  case settled => exact List.forall_mem_append.2 ⟨h.settled, h'.settled⟩

/-! ### Steps of a walk -/

theorem keeps_stateError {reason : String} {loc : Loc}
    (h : stateError p w id reason loc = .ok w') : Keeps w w' := by
  obtain ⟨-, rfl⟩ | ⟨-, c, -, rfl⟩ := stateError_cases h
  · exact ⟨rfl, rfl⟩
  · exact ⟨rfl, rfl⟩

theorem keeps_resolve {tags path : List String} {loc : Loc}
    (h : resolve p w stage id tags loc = .ok (path, w')) : Keeps w w' := by
  obtain ⟨c, -, rfl | rfl⟩ := resolve_cases h
  · exact ⟨rfl, rfl⟩
  · exact ⟨rfl, rfl⟩

/-- A state that is shown is a leaf, or it is collected. -/
theorem records_emitShow {path : List String} {loc : Loc} {r : Walked}
    (h : emitShow p w stage id path loc = .ok r) : Records p w r.emitted.toList r.walk := by
  obtain ⟨c, hc, rfl⟩ := emitShow_cases h
  have hleaf : p.Leaf id path ↔ c.sprites.isComplete path = true := by
    rw [Program.Leaf, hc]
    simp
  have hshow : ∀ e : Placeholder,
      (∃ i ∈ [(⟨.showCharacter id path, loc⟩ : Inst)], i.action = .showCharacter e.1 e.2) ↔
        e = (id, path) := by
    rintro ⟨id', path'⟩
    simp [eq_comm]
  constructor
  case placeholders =>
    intro e
    simp only [Option.toList_some, hshow]
    by_cases hcomplete : c.sprites.isComplete path = true
    · rw [if_pos hcomplete]
      refine ⟨.inl, fun hor => hor.resolve_right ?_⟩
      rintro ⟨hnot, rfl⟩
      exact hnot (hleaf.2 hcomplete)
    · rw [if_neg hcomplete, Placeholder.mem_insert, or_comm]
      refine or_congr_right ⟨?_, fun h => h.2⟩
      rintro rfl
      exact ⟨fun h => hcomplete (hleaf.1 h), rfl⟩
  case ordered =>
    intro ho
    dsimp only
    split
    · exact ho
    · exact Placeholder.ordered_insert _ ho
  case scenes =>
    intro name
    have hkept : (if c.sprites.isComplete path = true then w else
        { w with placeholders := Placeholder.insert (id, path) w.placeholders }).scenes = w.scenes := by
      split <;> rfl
    simp [hkept]
  case distinct =>
    intro hd
    dsimp only
    split <;> exact hd
  case statuses => simp
  case settled => simp

theorem records_sayWithStatus {status : List String} {content : StyledText} {loc : Loc}
    {r : Walked} (hs : status ≠ []) (h : sayWithStatus p w stage id status content loc = .ok r) :
    Records p w r.emitted.toList r.walk := by
  have hplain : Records p w [⟨.say (some id) [] content, loc⟩] w :=
    Keeps.records ⟨rfl, rfl⟩ (by simp [Action.isBacked])
  obtain rfl | ⟨c, path, hc, hpath, -, rfl⟩ := sayWithStatus_cases h
  · exact hplain
  · have hleaf : p.Leaf id path := ⟨c, hc, SpriteTree.isComplete_of_resolve? hs hpath⟩
    by_cases hshown : (stage.get id).shown
    · rw [if_pos hshown]
      constructor
      case statuses =>
        intro i hi id' status' content' ha _
        rw [Option.toList_some, List.mem_singleton] at hi
        subst hi
        cases ha
        exact hleaf
      all_goals simp
    · rw [if_neg hshown]
      exact hplain

theorem records_showCharacter {tags : List String} {loc : Loc} {r : Walked}
    (h : showCharacter p policy w stage id tags loc = .ok r) :
    Records p w r.emitted.toList r.walk := by
  obtain ⟨path, w₁, hresolve, houtcome⟩ := showCharacter_cases h
  have hfirst : Records p w [] w₁ := (keeps_resolve hresolve).records_nil
  obtain ⟨-, -, hemit⟩ | ⟨-, rfl⟩ | ⟨-, w₂, herror, rfl⟩ := houtcome
  · exact hfirst.trans (records_emitShow hemit)
  · exact hfirst
  · exact hfirst.trans (keeps_stateError herror).records_nil

theorem records_setState {tags : List String} {loc : Loc} {r : Walked}
    (h : setState p w stage id tags loc = .ok r) : Records p w r.emitted.toList r.walk := by
  obtain ⟨path, w₁, hresolve, houtcome⟩ := setState_cases h
  have hfirst : Records p w [] w₁ := (keeps_resolve hresolve).records_nil
  obtain ⟨-, hemit⟩ | rfl | ⟨-, rfl⟩ := houtcome
  · exact hfirst.trans (records_emitShow hemit)
  · exact hfirst
  · exact hfirst

theorem records_hideCharacter {loc : Loc} {r : Walked}
    (h : hideCharacter p w stage id loc = .ok r) : Records p w r.emitted.toList r.walk := by
  obtain ⟨-, rfl⟩ | ⟨w₁, herror, rfl⟩ := hideCharacter_cases h
  · exact Keeps.records ⟨rfl, rfl⟩ (by simp [Action.isBacked])
  · exact (keeps_stateError herror).records_nil

/-- A scene that is set is declared, or it is added. -/
theorem records_setScene (p : Program) (w : Walk) (stage : Snapshot) (scene : String) (loc : Loc) :
    Records p w (setScene w stage scene loc).emitted.toList (setScene w stage scene loc).walk := by
  have hset : ∀ name, (∃ i ∈ [(⟨.setScene scene, loc⟩ : Inst)], i.action = .setScene name) ↔
      name = scene := by
    intro name
    simp [eq_comm]
  have hknown : w.scenes.any (·.name == scene) = true ↔ scene ∈ w.scenes.map (·.name) := by
    simp [List.any_eq_true]
  unfold setScene
  by_cases hany : w.scenes.any (·.name == scene) = true
  · simp only [if_pos hany]
    constructor
    case scenes =>
      intro name
      rw [Option.toList_some, hset]
      refine ⟨.inl, fun hor => hor.elim (fun h => h) ?_⟩
      rintro rfl
      exact hknown.1 hany
    all_goals simp
  · simp only [if_neg hany]
    have hnew : scene ∉ w.scenes.map (·.name) := fun h => hany (hknown.2 h)
    constructor
    case scenes =>
      intro name
      rw [Option.toList_some, hset, List.map_append, List.mem_append]
      simp
    case distinct =>
      exact fun hd => nodup_map_concat hd hnew
    all_goals simp [report]

/-- **A step collects what it has to.** -/
theorem records_inst {i : Inst} {r : Walked} (h : inst p policy w stage i = .ok r) :
    Records p w r.emitted.toList r.walk := by
  have haside : ∀ {a : Action} {loc : Loc}, a.isBacked = false →
      Records p w [(⟨a, loc⟩ : Inst)] w := fun ha => Keeps.records ⟨rfl, rfl⟩ (by simpa using ha)
  rcases i with ⟨a, loc⟩
  cases a with
  | say speaker status content =>
    cases speaker with
    | none =>
      cases h
      exact haside rfl
    | some id =>
      cases status with
      | nil =>
        cases h
        exact haside rfl
      | cons tag tags => exact records_sayWithStatus (List.cons_ne_nil tag tags) h
  | showCharacter id tags => exact records_showCharacter h
  | hideCharacter id => exact records_hideCharacter h
  | setState id tags => exact records_setState h
  | setScene scene =>
    cases h
    exact records_setScene p w stage scene loc
  | clearScene =>
    cases h
    exact haside rfl
  | showImage image =>
    cases h
    exact haside rfl
  | play channel asset =>
    cases h
    exact haside rfl
  | verbatim text =>
    cases h
    exact haside rfl
  | comment text =>
    cases h
    exact haside rfl

theorem records_insts : ∀ {is emitted : List Inst} {w w' : Walk} {stage after : Snapshot},
    insts p policy w stage is = .ok (emitted, after, w') → Records p w emitted w'
  | [], _, _, _, _, _, h => by
    cases h
    exact Keeps.records_nil ⟨rfl, rfl⟩
  | i :: rest, _, _, _, _, _, h => by
    obtain ⟨r, hr, h⟩ := bind_eq_ok.1 h
    obtain ⟨⟨more, after, w₁⟩, hmore, h⟩ := bind_eq_ok.1 h
    cases h
    exact (records_inst hr).trans (records_insts hmore)

end Walk

/-! ### Whole programs -/

namespace Generate

variable {p : Program} {policy : ReentrantShow} {f : FlowGraph} {w w' : Walk}

theorem records_visitFrom : ∀ {rest : List BasicBlock} {w w' : Walk} {visits visits' : List Visit},
    visitFrom p policy f w visits rest = .ok (visits', w') →
      ∃ new, visits' = visits ++ new ∧ new.length = rest.length ∧
        Walk.Records p w (new.flatMap (·.body)) w'
  | [], _, _, _, _, h => by
    cases h
    exact ⟨[], by simp, rfl, Walk.Keeps.records_nil ⟨rfl, rfl⟩⟩
  | b :: rest, w, w', visits, visits', h => by
    obtain ⟨⟨body, exit, w₁⟩, hinsts, h⟩ := bind_eq_ok.1 h
    obtain ⟨new, rfl, hlength, hrest⟩ := records_visitFrom h
    refine ⟨_ :: new, by rw [List.append_assoc]; rfl, by rw [List.length_cons, hlength]; rfl, ?_⟩
    exact (Walk.records_insts hinsts).trans hrest

/-- The bodies of generated blocks are those of the visits. -/
theorem map_body_blocks {visits : List Visit} (h : visits.length = f.blocks.length) :
    (blocks f visits).map (·.body) = visits.map (·.body) := by
  refine List.ext_getElem (by simp [blocks, h]) fun i hi hi' => ?_
  have hv : i < visits.length := by simpa using hi'
  simp [blocks, block, List.getElem?_eq_getElem hv]

/-- All instructions in the bodies of a function's blocks. -/
def bodies (g : GeneratedFunction) : List Inst := g.blocks.flatMap (·.body)

theorem records_visit {visits : List Visit} (h : visit p policy w f = .ok (visits, w')) :
    visits.length = f.blocks.length ∧ Walk.Records p w (visits.flatMap (·.body)) w' := by
  obtain ⟨new, hnew, hlength, hrecords⟩ := records_visitFrom h
  rw [List.nil_append] at hnew
  rw [hnew]
  exact ⟨hlength, hrecords⟩

theorem records_function {g : GeneratedFunction} (h : function p policy w f = .ok (g, w')) :
    Walk.Records p w (bodies g) w' := by
  obtain ⟨visits, w₁, hvisit, rfl, rfl⟩ := function_cases h
  obtain ⟨hlength, hrecords⟩ := records_visit hvisit
  have hbodies : bodies ⟨f.name, blocks f visits⟩ = visits.flatMap (·.body) := by
    rw [bodies, List.flatMap_def, List.flatMap_def]
    exact congrArg List.flatten (map_body_blocks hlength)
  have hstart : Walk.Records p w [] { w with unknown := [] } :=
    Walk.Keeps.records_nil ⟨rfl, rfl⟩
  have hstop : Walk.Records p w₁ [] { w₁ with diags := w₁.diags ++ patchReports f visits } :=
    Walk.Keeps.records_nil ⟨rfl, rfl⟩
  have hall := hstart.trans (hrecords.trans hstop)
  rw [List.nil_append, List.append_nil, ← hbodies] at hall
  exact hall

/-- **A program collects what its blocks draw.** -/
theorem records_functions : ∀ {fs : List FlowGraph} {gs : List GeneratedFunction} {w w' : Walk},
    functions p policy w fs = .ok (gs, w') → Walk.Records p w (gs.flatMap bodies) w'
  | [], _, _, _, h => by
    cases h
    exact Walk.Keeps.records_nil ⟨rfl, rfl⟩
  | f :: rest, _, _, _, h => by
    obtain ⟨⟨g, w₁⟩, hfirst, h⟩ := bind_eq_ok.1 h
    obtain ⟨⟨gs, w₂⟩, hrest, h⟩ := bind_eq_ok.1 h
    cases h
    exact (records_function hfirst).trans (records_functions hrest)

end Generate
end Manuscript
