/-
# Reading a script

The lines of a function read as a machine. Control starts at the first line. A label
marks a place, a jump goes to the place of its label, or leaves for the function of
that name, a menu goes to one of its arms as the player chooses, and a return leaves.
At any other line control goes on to the line below; a call comes back there, and
lines that the document gives as they are do not steer.

Beside it stands the route that the terminators of a function prescribe: from block
to block, by one arm or another. That lines follow routes is shown elsewhere; here is
what holds of any lines.

Key definitions: `Ending`, `Departure`, `Terminator.depart`, `Terminator.route`,
`Script.control`, `Script.run`.
Key theorems: `Script.run_straight`, `Script.run_add`.
-/
import Mathlib.Data.List.Infix
import Manuscript.Proofs.Script.Written

namespace Manuscript

/-- How a run through a function stands. -/
inductive Ending where
  /-- The steps that were allowed are used up. -/
  | going
  /-- The player has not chosen. -/
  | waiting
  | left (function : FunctionId)
  | returned
  /-- Control went where there is nothing. -/
  | astray
deriving Repr, DecidableEq

/-- A run with something in front. -/
def before {α : Type} (front : List α) (r : List α × Ending) : List α × Ending :=
  (front ++ r.1, r.2)

@[simp] theorem before_nil {α : Type} (r : List α × Ending) : before [] r = r := rfl

theorem before_before {α : Type} (a b : List α) (r : List α × Ending) :
    before a (before b r) = before (a ++ b) r := by
  simp [before]

/-! ### Routes -/

/-- How control leaves a block: along an edge to a block, with the choices that are left, or for
good. -/
inductive Departure where
  | enter (edge : Edge) (next : BlockId) (choices : List Nat)
  | done (edge : Edge) (ending : Ending)
deriving Repr, DecidableEq

/-- The edge along which control leaves. -/
def Departure.edge : Departure → Edge
  | enter e _ _ | done e _ => e

/-- How control goes along an edge to a target. -/
def Target.depart (e : Edge) (choices : List Nat) : Target → Departure
  | .block b => .enter e b choices
  | .function g => .done e (.left g)

/-- How control leaves block `i`, for the choices that the player makes. -/
def Terminator.depart (i : BlockId) (choices : List Nat) : Terminator → Departure
  | .jumpFunction g => .done ⟨i, none⟩ (.left g)
  | .call _ => .enter ⟨i, none⟩ (i + 1) choices
  | .jump b => .enter ⟨i, none⟩ b choices
  | .branch arms =>
    match choices with
    | [] => .done ⟨i, none⟩ .waiting
    | k :: choices =>
      match arms[k]? with
      | some a => a.target.depart ⟨i, some k⟩ choices
      | none => .done ⟨i, none⟩ .waiting
  | .ret => .done ⟨i, none⟩ .returned

/-- The edges along which control leaves the blocks of a function, in at most `n` blocks from
block `i` on. -/
def Terminator.route (ts : List Terminator) : Nat → BlockId → List Nat → List Edge × Ending
  | 0, _, _ => ([], .going)
  | n + 1, i, choices =>
    match ts[i]? with
    | none => ([], .astray)
    | some t =>
      match t.depart i choices with
      | .enter e next choices => before [e] (route ts n next choices)
      | .done e ending => ([e], ending)

/-- The route that a function prescribes from its first block. -/
def FlowGraph.route (f : FlowGraph) (n : Nat) (choices : List Nat) : List Edge × Ending :=
  Terminator.route (f.blocks.map (·.terminator)) n 0 choices

namespace Script

/-! ### Lines as a machine -/

/-- The statement offers an arm of a menu. -/
def Statement.isChoice : Statement → Bool
  | choice _ => true
  | _ => false

/-- The statement keeps control from going on to the line below. -/
def Statement.steers : Statement → Bool
  | jump _ | menu | choice _ | ret => true
  | _ => false

/-- The places of the arms of a menu at a depth, among the lines below it. -/
def armsBelow (depth : Nat) : Nat → List Line → List Nat
  | _, [] => []
  | pos, l :: rest =>
    if l.depth ≤ depth then []
    else if l.depth = depth + 1 ∧ l.statement.isChoice = true then pos :: armsBelow depth (pos + 1) rest
    else armsBelow depth (pos + 1) rest

/-- What control does at a line. -/
inductive Control where
  | on
  | goto (pos : Nat)
  | choose (arms : List Nat)
  | leave (function : FunctionId)
  | ret
  | astray
deriving Repr, DecidableEq

/-- What control does at a place. `functions` are the names of the functions that a jump may
leave for. An arm ends where the next begins, and control goes on behind the menu. -/
def control (functions : List String) (ls : List Line) (pos : Nat) : Control :=
  match ls[pos]? with
  | none => .astray
  | some l =>
    match l.statement with
    | .jump target =>
      match functions.findIdx? (· == target) with
      | some g => .leave g
      | none =>
        match ls.findIdx? (·.statement.label? == some target) with
        | some place => .goto place
        | none => .astray
    | .menu => .choose (armsBelow l.depth (pos + 1) (ls.drop (pos + 1)))
    | .choice _ => .goto (pos + ((ls.drop pos).takeWhile (l.depth ≤ ·.depth)).length)
    | .ret => .ret
    | _ => .on

/-- The places that control comes to in at most `n` steps, for the choices that the player
makes. -/
def run (functions : List String) (ls : List Line) : Nat → Nat → List Nat → List Nat × Ending
  | 0, _, _ => ([], .going)
  | n + 1, pos, choices =>
    match control functions ls pos with
    | .on => before [pos] (run functions ls n (pos + 1) choices)
    | .goto place => before [pos] (run functions ls n place choices)
    | .choose arms =>
      match choices with
      | [] => ([pos], .waiting)
      | k :: choices =>
        match arms[k]? with
        | some arm => before [pos, arm] (run functions ls n (arm + 1) choices)
        | none => ([pos], .waiting)
    | .leave g => ([pos], .left g)
    | .ret => ([pos], .returned)
    | .astray => ([], .astray)

/-- The statements at places that do something. -/
def performed (ls : List Line) (places : List Nat) : List Statement :=
  ((places.filterMap (ls[·]?)).map (·.statement)).filter (·.acts)

theorem performed_append (ls : List Line) (a b : List Nat) :
    performed ls (a ++ b) = performed ls a ++ performed ls b := by
  simp [performed]

variable {functions : List String} {ls : List Line}

/-! ### Parts of lines at a place -/

theorem getElem?_of_isPrefix {l : Line} {part : List Line} {pos : Nat}
    (h : l :: part <+: ls.drop pos) : ls[pos]? = some l := by
  obtain ⟨rest, hrest⟩ := h
  rw [← List.head?_drop, ← hrest]
  rfl

theorem isPrefix_of_append {a b : List Line} {pos : Nat} (h : a ++ b <+: ls.drop pos) :
    a <+: ls.drop pos ∧ b <+: ls.drop (pos + a.length) := by
  obtain ⟨rest, hrest⟩ := h
  refine ⟨⟨b ++ rest, by rw [← hrest, List.append_assoc]⟩, rest, ?_⟩
  rw [← List.drop_drop, ← hrest, List.append_assoc, List.drop_left]

theorem filterMap_range' {part : List Line} {pos : Nat} (h : part <+: ls.drop pos) :
    (List.range' pos part.length).filterMap (ls[·]?) = part := by
  induction part generalizing pos with
  | nil => rfl
  | cons l part ih =>
    have htail := (isPrefix_of_append (a := [l]) h).2
    rw [List.length_cons, List.range'_succ, List.filterMap_cons, getElem?_of_isPrefix h]
    exact congrArg (l :: ·) (ih htail)

/-- What is performed at the places of a part of the lines. -/
theorem performed_range' {part : List Line} {pos : Nat} (h : part <+: ls.drop pos) :
    performed ls (List.range' pos part.length) = (part.map (·.statement)).filter (·.acts) := by
  rw [performed, filterMap_range' h]

/-! ### Runs -/

theorem control_of_not_steers (functions : List String) {l : Line} {pos : Nat}
    (h : ls[pos]? = some l) (hl : l.statement.steers = false) :
    control functions ls pos = .on := by
  rw [control, h]
  rcases l with ⟨depth, st⟩
  cases st <;> first | rfl | cases hl

/-- Control runs straight through lines that do not steer. -/
theorem run_straight (n : Nat) (choices : List Nat) : ∀ {part : List Line} {pos : Nat},
    part <+: ls.drop pos → (∀ l ∈ part, l.statement.steers = false) →
      run functions ls (part.length + n) pos choices =
        before (List.range' pos part.length) (run functions ls n (pos + part.length) choices)
  | [], _, _, _ => by simp
  | l :: part, pos, hat, hon => by
    have hl := control_of_not_steers functions (getElem?_of_isPrefix hat)
      (hon l List.mem_cons_self)
    have htail : part <+: ls.drop (pos + 1) := (isPrefix_of_append (a := [l]) hat).2
    have ih := run_straight n choices htail fun m hm => hon m (List.mem_cons_of_mem _ hm)
    have hfuel : (l :: part).length + n = (part.length + n) + 1 := by
      rw [List.length_cons]
      omega
    rw [hfuel, run, hl]
    dsimp only
    rw [ih, before_before, List.length_cons, List.range'_succ, Nat.add_right_comm, Nat.add_assoc]
    rfl

/-- A run that may take more steps begins as the shorter one, and is the same if that had come
to an end. -/
theorem run_add (functions : List String) (ls : List Line) (j : Nat) :
    ∀ (n pos : Nat) (choices : List Nat),
    (run functions ls n pos choices).1 <+: (run functions ls (n + j) pos choices).1 ∧
      ((run functions ls n pos choices).2 = .going ∨
        run functions ls (n + j) pos choices = run functions ls n pos choices)
  | 0, pos, choices => ⟨List.nil_prefix, .inl rfl⟩
  | n + 1, pos, choices => by
    have hstep : ∀ (front : List Nat) (place : Nat) (choices : List Nat),
        (before front (run functions ls n place choices)).1 <+:
            (before front (run functions ls (n + j) place choices)).1 ∧
          ((before front (run functions ls n place choices)).2 = .going ∨
            before front (run functions ls (n + j) place choices) =
              before front (run functions ls n place choices)) := by
      intro front place choices
      obtain ⟨hbegins, hend⟩ := run_add functions ls j n place choices
      refine ⟨(List.prefix_append_right_inj front).2 hbegins, hend.imp id fun heq => ?_⟩
      rw [heq]
    rw [Nat.add_right_comm]
    unfold run
    cases control functions ls pos with
    | on => exact hstep _ _ _
    | goto place => exact hstep _ _ _
    | choose arms =>
      cases choices with
      | nil => exact ⟨List.prefix_rfl, .inr rfl⟩
      | cons k choices =>
        dsimp only
        cases arms[k]? with
        | none => exact ⟨List.prefix_rfl, .inr rfl⟩
        | some arm => exact hstep _ _ _
    | leave g => exact ⟨List.prefix_rfl, .inr rfl⟩
    | ret => exact ⟨List.prefix_rfl, .inr rfl⟩
    | astray => exact ⟨List.prefix_rfl, .inr rfl⟩

end Script
end Manuscript
