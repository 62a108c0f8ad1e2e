/-
# Walks turn by turn

Generation hands on only what a block emits and the stage at its end. To speak of a
single instruction, of what it met and what became of it, a walk is taken apart into
its turns: each holds an instruction, the stage and the collections it met, and its
outcome. The turns of a function follow its blocks in order. What is collected passes
from turn to turn through the whole function, while the stage passes from turn to turn
within a block only, as each block is entered with a stage of its own.

A program is generated function by function, and every function adds its reports behind
those of the functions before it (`Generate.Each`).

Key definitions: `Walk.Turn`, `Walk.Trail`, `Walk.Staged`, `Generate.Passage`,
`Generate.Walkthrough`, `Generate.Each`.
Key theorems: `Walk.exists_turns`, `Generate.walkthrough_function`,
`Generate.each_generate`.
-/
import Manuscript.Proofs.Stage.Join

namespace Manuscript

namespace Walk

/-- One turn of a walk: the instruction that was met, what was collected and staged before it,
and its outcome. -/
structure Turn where
  source : Inst
  walk : Walk
  stage : Snapshot
  outcome : Walked

namespace Turn

/-- The outcome of the turn is that of its instruction. -/
def Taken (p : Program) (policy : ReentrantShow) (t : Turn) : Prop :=
  Walk.inst p policy t.walk t.stage t.source = .ok t.outcome

/-- The reports that the turn adds. -/
def reports (t : Turn) : List Diagnostic := t.outcome.walk.diags.drop t.walk.diags.length

/-- What the turn emits. -/
def emitted (t : Turn) : List Inst := t.outcome.emitted.toList

theorem Taken.effect {p : Program} {policy : ReentrantShow} {t : Turn} (h : t.Taken p policy) :
    Effect t.stage t.source t.outcome.emitted t.outcome.stage :=
  effect_inst h

end Turn

variable {p : Program} {policy : ReentrantShow}

/-- Turns one after the other: each starts with what was collected before it. -/
inductive Trail (p : Program) (policy : ReentrantShow) : Walk → List Turn → Walk → Prop where
  | nil {w : Walk} : Trail p policy w [] w
  | cons {t : Turn} {turns : List Turn} {w : Walk} : t.Taken p policy →
    Trail p policy t.outcome.walk turns w → Trail p policy t.walk (t :: turns) w

/-- Each turn starts on the stage that the turn before it has left. -/
inductive Staged : Snapshot → List Turn → Snapshot → Prop where
  | nil {stage : Snapshot} : Staged stage [] stage
  | cons {t : Turn} {turns : List Turn} {after : Snapshot} :
    Staged t.outcome.stage turns after → Staged t.stage (t :: turns) after

theorem Trail.append {w w' w'' : Walk} {turns more : List Turn} (h : Trail p policy w turns w')
    (h' : Trail p policy w' more w'') : Trail p policy w (turns ++ more) w'' := by
  induction h with
  | nil => exact h'
  | cons htaken _ ih => exact .cons htaken (ih h')

/-- What was collected up to a turn is what the turn starts with. -/
theorem Trail.split : ∀ {before : List Turn} {t : Turn} {after : List Turn} {w w' : Walk},
    Trail p policy w (before ++ t :: after) w' →
      Trail p policy w before t.walk ∧ t.Taken p policy ∧ Trail p policy t.outcome.walk after w'
  | [], _, _, _, _, .cons htaken h => ⟨.nil, htaken, h⟩
  | _ :: _, _, _, _, _, .cons hfirst h => by
    obtain ⟨hbefore, htaken, hafter⟩ := h.split
    exact ⟨.cons hfirst hbefore, htaken, hafter⟩

theorem Trail.taken {w w' : Walk} {turns : List Turn} (h : Trail p policy w turns w') {t : Turn}
    (ht : t ∈ turns) : t.Taken p policy := by
  obtain ⟨before, after, rfl⟩ := List.append_of_mem ht
  exact h.split.2.1

/-- Instructions that have an outcome are taken turn by turn. -/
theorem exists_turns : ∀ {is emitted : List Inst} {w w' : Walk} {stage after : Snapshot},
    insts p policy w stage is = .ok (emitted, after, w') →
      ∃ turns, Trail p policy w turns w' ∧ Staged stage turns after ∧
        turns.map (·.source) = is ∧ emitted = turns.flatMap (·.emitted)
  | [], _, _, _, _, _, h => by
    cases h
    exact ⟨[], .nil, .nil, rfl, rfl⟩
  | i :: rest, _, w, _, stage, _, h => by
    obtain ⟨r, hr, h⟩ := bind_eq_ok.1 h
    obtain ⟨⟨more, after, w₁⟩, hmore, h⟩ := bind_eq_ok.1 h
    cases h
    obtain ⟨turns, htrail, hstaged, rfl, rfl⟩ := exists_turns hmore
    let t : Turn := ⟨i, w, stage, r⟩
    exact ⟨t :: turns, .cons (t := t) hr htrail, .cons (t := t) hstaged, rfl, rfl⟩

/-- Running what the turns emit takes the screen before them to the screen after them. -/
theorem Staged.run {stage after : Snapshot} {turns : List Turn} (h : Staged stage turns after)
    (htaken : ∀ t ∈ turns, t.Taken p policy) :
    stage.visible.run (turns.flatMap (·.emitted)) = after.visible := by
  induction h with
  | nil => rfl
  | @cons t turns after _ ih =>
    obtain ⟨hfirst, hrest⟩ := List.forall_mem_cons.1 htaken
    rw [List.flatMap_cons, Screen.run_append, Turn.emitted, hfirst.effect.run, ih hrest]

/-- The stage at a turn is that left by the turns before it. -/
theorem Staged.split : ∀ {before : List Turn} {t : Turn} {rest : List Turn}
    {stage after : Snapshot}, Staged stage (before ++ t :: rest) after → Staged stage before t.stage
  | [], _, _, _, _, .cons _ => .nil
  | _ :: _, _, _, _, _, .cons h => .cons h.split

end Walk

namespace Generate

variable {p : Program} {policy : ReentrantShow} {f : FlowGraph}

/-! ### Functions -/

/-- A visit of a block, with the turns in which the block was walked. -/
structure Passage where
  visit : Visit
  turns : List Walk.Turn

/-- The turns of the passage are those of the instructions of the block; they lead from the stage
at the entry to the stage at the exit, and emit the body. -/
structure Passage.Through (b : BasicBlock) (x : Passage) : Prop where
  sources : x.turns.map (·.source) = b.insts
  body : x.visit.body = x.turns.flatMap (·.emitted)
  staged : Walk.Staged x.visit.entry x.turns x.visit.exit

/-- The turns of all passages, in order. -/
def turnsOf (xs : List Passage) : List Walk.Turn := xs.flatMap (·.turns)

theorem exists_passages : ∀ {rest : List BasicBlock} {w w' : Walk} {visits visits' : List Visit},
    visitFrom p policy f w visits rest = .ok (visits', w') →
      ∃ xs : List Passage, visits' = visits ++ xs.map (·.visit) ∧
        List.Forall₂ Passage.Through rest xs ∧ Walk.Trail p policy w (turnsOf xs) w'
  | [], _, _, _, _, h => by
    cases h
    exact ⟨[], by simp, .nil, .nil⟩
  | b :: rest, _, _, visits, _, h => by
    obtain ⟨⟨body, exit, w₁⟩, hinsts, h⟩ := bind_eq_ok.1 h
    obtain ⟨turns, htrail, hstaged, hsources, hbody⟩ := Walk.exists_turns hinsts
    obtain ⟨xs, rfl, hthrough, hrest⟩ := exists_passages h
    refine ⟨⟨⟨entryOf f (.initial p) visits visits.length, exit, body⟩, turns⟩ :: xs, ?_,
      .cons ⟨hsources, hbody, hstaged⟩ hthrough, htrail.append hrest⟩
    rw [List.append_assoc]
    rfl

/-- The blocks of the function were walked in order: these are the passages, `w` and `w'` is what
was collected before and after them. -/
structure Walkthrough (p : Program) (policy : ReentrantShow) (f : FlowGraph) (w : Walk)
    (xs : List Passage) (w' : Walk) : Prop where
  visit : visit p policy w f = .ok (xs.map (·.visit), w')
  blocks : List.Forall₂ Passage.Through f.blocks xs
  trail : Walk.Trail p policy w (turnsOf xs) w'

/-- A function that is generated was walked from the start, with nobody's state unknown, and the
reports of its patches come behind those of its walk. -/
theorem walkthrough_function {w w' : Walk} {g : GeneratedFunction}
    (h : function p policy w f = .ok (g, w')) :
    ∃ xs w₁, Walkthrough p policy f { w with unknown := [] } xs w₁ ∧
      Visited p policy f g (xs.map (·.visit)) ∧
      w'.diags = w₁.diags ++ patchReports f (xs.map (·.visit)) := by
  obtain ⟨visits, w₁, hvisit, rfl, rfl⟩ := function_cases h
  obtain ⟨xs, hvisits, hthrough, htrail⟩ := exists_passages hvisit
  rw [List.nil_append] at hvisits
  subst hvisits
  obtain ⟨hfaithful, hlength⟩ := faithful_visit hvisit
  exact ⟨xs, w₁, ⟨hvisit, hthrough, htrail⟩,
    ⟨⟨w, _, h, w₁, hvisit⟩, hfaithful, hlength, rfl, rfl⟩, rfl⟩

/-! ### Programs -/

/-- Functions generated one after the other: `R` holds of each with its generated code and its own
reports, which stand behind those of the functions before it. -/
inductive Each (R : FlowGraph → GeneratedFunction → List Diagnostic → Prop) :
    List FlowGraph → List GeneratedFunction → List Diagnostic → Prop where
  | nil : Each R [] [] []
  | cons {f : FlowGraph} {g : GeneratedFunction} {reports more : List Diagnostic}
    {fs : List FlowGraph} {gs : List GeneratedFunction} :
    R f g reports → Each R fs gs more → Each R (f :: fs) (g :: gs) (reports ++ more)

variable {R S : FlowGraph → GeneratedFunction → List Diagnostic → Prop}

theorem Each.imp {fs : List FlowGraph} {gs : List GeneratedFunction} {reports : List Diagnostic}
    (h : Each R fs gs reports) (hRS : ∀ f g reports, R f g reports → S f g reports) :
    Each S fs gs reports := by
  induction h with
  | nil => exact .nil
  | cons hfirst _ ih => exact .cons (hRS _ _ _ hfirst) ih

theorem each_functions
    (hR : ∀ f w g w', function p policy w f = .ok (g, w') →
      ∃ reports, w'.diags = w.diags ++ reports ∧ R f g reports) :
    ∀ {fs : List FlowGraph} {gs : List GeneratedFunction} {w w' : Walk},
      functions p policy w fs = .ok (gs, w') →
        ∃ reports, w'.diags = w.diags ++ reports ∧ Each R fs gs reports
  | [], _, _, _, h => by
    cases h
    exact ⟨[], by simp, .nil⟩
  | f :: rest, _, w, _, h => by
    obtain ⟨⟨g, w₁⟩, hfirst, h⟩ := bind_eq_ok.1 h
    obtain ⟨⟨gs, w₂⟩, hrest, h⟩ := bind_eq_ok.1 h
    cases h
    obtain ⟨reports, hdiags, hg⟩ := hR f w g w₁ hfirst
    obtain ⟨more, hmore, hgs⟩ := each_functions hR hrest
    exact ⟨reports ++ more, by rw [hmore, hdiags, List.append_assoc], .cons hg hgs⟩

/-- **A program is generated function by function**, and its reports are those of its functions
in order. -/
theorem each_generate {s : CodegenSettings} {g : Generated} (h : generate p s = .ok g)
    (hR : ∀ f w g w', function p s.reentrantShow w f = .ok (g, w') →
      ∃ reports, w'.diags = w.diags ++ reports ∧ R f g reports) :
    Each R p.functions g.functions g.diags := by
  obtain ⟨⟨fs, w⟩, hfs, h⟩ := bind_eq_ok.1 h
  cases h
  obtain ⟨reports, hdiags, heach⟩ := each_functions hR hfs
  rw [List.nil_append] at hdiags
  exact hdiags ▸ heach

end Generate
end Manuscript
