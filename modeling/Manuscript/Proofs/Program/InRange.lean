/-
# Programs that name only what they have

An instruction names characters by their place in the list of characters. In a
program whose characters are in range every such place exists, so looking a
character up yields one.

What a checked computation yields is said by `Yields`: it has a result, and the
result has a property. A chain of computations yields what its last link yields
from what the links before it yield, so a fault never has to be mentioned.

Key definitions: `Yields`, `Action.characters`, `FlowGraph.InRange`, `Program.InRange`,
`Program.CharactersInRange`.
Key theorems: `Yields.bind`, `yields_mapM`, `yields_foldlM`, `bind_eq_ok`,
`of_foldlM`, `Program.yields_character`.
-/
import Mathlib.Data.List.Forall2
import Mathlib.Tactic.Common
import Manuscript.Program.Basic

namespace Manuscript

/-- The computation has a result, and the result satisfies `P`. -/
def Yields {ε α : Type} (x : Except ε α) (P : α → Prop) : Prop := ∃ a, x = .ok a ∧ P a

section Yields

variable {ε α β : Type} {x : Except ε α} {P Q : α → Prop} {R : β → Prop}

theorem yields_ok {a : α} (h : P a) : Yields (.ok a : Except ε α) P := ⟨a, rfl, h⟩

theorem Yields.mono (h : Yields x P) (hPQ : ∀ a, P a → Q a) : Yields x Q := by
  obtain ⟨a, hx, ha⟩ := h
  exact ⟨a, hx, hPQ a ha⟩

theorem Yields.bind {f : α → Except ε β} (h : Yields x P) (hf : ∀ a, P a → Yields (f a) R) :
    Yields (x >>= f) R := by
  obtain ⟨a, rfl, ha⟩ := h
  exact hf a ha

/-- A list is mapped if each of its elements is. -/
theorem yields_mapM {f : α → Except ε β} : ∀ {xs : List α}, (∀ x ∈ xs, Yields (f x) R) →
    Yields (xs.mapM f) fun ys => ∀ y ∈ ys, R y
  | [], _ => yields_ok (by simp)
  | x :: xs, h => by
    rw [List.mapM_cons]
    refine (h x List.mem_cons_self).bind fun y hy => ?_
    refine (yields_mapM fun z hz => h z (List.mem_cons_of_mem _ hz)).bind fun ys hys => ?_
    refine yields_ok fun z hz => ?_
    rcases List.mem_cons.1 hz with rfl | hz
    · exact hy
    · exact hys z hz

/-- A property that every step of a fold keeps holds of what the fold yields. -/
theorem yields_foldlM {f : α → β → Except ε α} : ∀ {xs : List β} {a : α},
    (∀ a, ∀ x ∈ xs, P a → Yields (f a x) P) → P a → Yields (xs.foldlM f a) P
  | [], _, _, ha => yields_ok ha
  | x :: xs, a, h, ha => by
    rw [List.foldlM_cons]
    refine (h a x List.mem_cons_self ha).bind fun b hb => ?_
    exact yields_foldlM (fun c y hy => h c y (List.mem_cons_of_mem _ hy)) hb

/-- A chain has a result if its links do. -/
theorem bind_eq_ok {f : α → Except ε β} {b : β} :
    x >>= f = .ok b ↔ ∃ a, x = .ok a ∧ f a = .ok b := by
  cases x with
  | error e => simp [bind, Except.bind]
  | ok a => simp [bind, Except.bind]

/-- A property that every step of a fold keeps, where it has a result, holds at its end. -/
theorem of_foldlM {f : α → β → Except ε α} : ∀ {xs : List β} {a b : α},
    (∀ a, ∀ x ∈ xs, ∀ b, f a x = .ok b → P a → P b) → xs.foldlM f a = .ok b → P a → P b
  | [], _, _, _, h, ha => by
    cases h
    exact ha
  | x :: xs, a, b, hstep, h, ha => by
    rw [List.foldlM_cons, bind_eq_ok] at h
    obtain ⟨next, hnext, h⟩ := h
    have hP := hstep a x List.mem_cons_self next hnext ha
    exact of_foldlM (fun c y hy => hstep c y (List.mem_cons_of_mem x hy)) h hP

theorem Fault.unless_eq_ok {fault : Fault} {o : Option α} {a : α} :
    fault.unless o = .ok a ↔ o = some a := by
  cases o <;> simp [Fault.unless]

end Yields

/-- What stands on the right of related lists is related to something on the left. -/
theorem exists_of_mem_forall₂ {α β : Type} {R : α → β → Prop} {xs : List α} {ys : List β}
    (h : List.Forall₂ R xs ys) {y : β} (hy : y ∈ ys) : ∃ x ∈ xs, R x y := by
  induction h with
  | nil => cases hy
  | cons hfirst _ ih =>
    rcases List.mem_cons.1 hy with rfl | hy
    · exact ⟨_, List.mem_cons_self, hfirst⟩
    · obtain ⟨x, hx, hxy⟩ := ih hy
      exact ⟨x, List.mem_cons_of_mem _ hx, hxy⟩

/-- The characters that an action names. -/
def Action.characters : Action → List CharacterId
  | .say speaker _ _ => speaker.toList
  | .showCharacter id _ | .hideCharacter id | .setState id _ => [id]
  | .setScene _ | .clearScene | .showImage _ | .play .. | .verbatim _ | .comment _ => []

/-- The action names only the first `n` characters. -/
def Action.NamesBelow (n : Nat) (a : Action) : Prop := ∀ id ∈ a.characters, id < n

instance (n : Nat) (a : Action) : Decidable (a.NamesBelow n) :=
  inferInstanceAs (Decidable (∀ id ∈ a.characters, id < n))

theorem Action.namesBelow_of_eq_nil {a : Action} (h : a.characters = []) (n : Nat) :
    a.NamesBelow n := by
  simp [NamesBelow, h]

theorem Action.NamesBelow.mono {a : Action} {m n : Nat} (h : a.NamesBelow m) (hle : m ≤ n) :
    a.NamesBelow n := fun id hid => Nat.lt_of_lt_of_le (h id hid) hle

/-- The functions that a terminator names. -/
def Terminator.functions : Terminator → List FunctionId
  | .jumpFunction f | .call f => [f]
  | .branch arms => arms.filterMap fun a =>
    match a.target with
    | .function f => some f
    | .block _ => none
  | .jump _ | .ret => []

/-- The graph names only what there is: the first `characters` characters, the first
`functions` functions, and its own blocks. -/
structure FlowGraph.InRange (characters functions : Nat) (f : FlowGraph) : Prop where
  insts : ∀ b ∈ f.blocks, ∀ i ∈ b.insts, i.action.NamesBelow characters
  calls : ∀ b ∈ f.blocks, ∀ id ∈ b.terminator.functions, id < functions
  targets : ∀ (i : BlockId) b, f.blocks[i]? = some b →
    ∀ t ∈ b.terminator.successors (i + 1), t < f.blocks.length

namespace Program

/-- The program names only characters, functions and blocks that it has. -/
def InRange (p : Program) : Prop :=
  ∀ f ∈ p.functions, f.InRange p.characters.length p.functions.length

/-- Every instruction of the program names characters that the program has. -/
def CharactersInRange (p : Program) : Prop :=
  ∀ f ∈ p.functions, ∀ b ∈ f.blocks, ∀ i ∈ b.insts, i.action.NamesBelow p.characters.length

instance (p : Program) : Decidable p.CharactersInRange :=
  inferInstanceAs (Decidable
    (∀ f ∈ p.functions, ∀ b ∈ f.blocks, ∀ i ∈ b.insts, i.action.NamesBelow p.characters.length))

theorem InRange.characters {p : Program} (h : p.InRange) : p.CharactersInRange :=
  fun f hf => (h f hf).insts

theorem yields_character {p : Program} {id : CharacterId} (h : id < p.characters.length) :
    Yields (p.character id) fun c => p.characters[id]? = some c := by
  rw [character, List.getElem?_eq_getElem h]
  exact yields_ok rfl

end Program
end Manuscript
