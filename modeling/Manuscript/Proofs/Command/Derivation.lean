/-
# Derivations of argument lists

The grammar of argument lists, over the kinds of tokens:

    args  := empty | arg (',' arg)*
    arg   := key '=' value | value
    value := text | quoted | element | text '(' args ')'

A derivation is a tree, and the tokens it derives are its yield. In a well-formed
tree a bare value comes first in its list, a key is a word, and no list gives a key
twice, at every depth.

The grammar is unambiguous (`ListTree.eq_of_yield`): one token of lookahead tells a
key from a call from a bare text, since what follows an argument is a comma, a
closing parenthesis or the end.

Key definitions: `ValueTree`, `ListTree`, `ListTree.yield`, `ListTree.WellFormed`,
`ListTree.denote`, `ListTree.Derives`.
Key theorems: `ListTree.comma_eq`, `ListTree.eq_of_yield`.
-/
import Mathlib.Data.List.Basic
import Manuscript.Command.Argument

namespace Manuscript

/-! ### Derivations -/

mutual

/-- How a value is derived. -/
inductive ValueTree where
  | text (s : String)
  | quoted (s : String)
  | element (index : Nat)
  | call (name : String) (args : ListTree)

/-- How an argument list is derived: its first argument, and the rest of the list. -/
inductive ListTree where
  | empty
  | bare (value : ValueTree) (rest : ListTree)
  | keyword (key : String) (value : ValueTree) (rest : ListTree)

end

/-- A key is a word: it is not empty and has no blank. -/
def IsKey (key : String) : Prop := key ≠ "" ∧ ∀ c ∈ key.toList, Text.isBlank c = false

theorem isKey_iff {key : String} :
    IsKey key ↔ (key.isEmpty || key.toList.any Text.isBlank) = false := by simp [IsKey]

instance (key : String) : Decidable (IsKey key) := decidable_of_iff _ isKey_iff.symm

namespace ListTree

/-- The comma before a list of further arguments. -/
def comma : ListTree → List TokenKind
  | empty => []
  | _ => [.comma]

/-- Some argument of the list is a bare value. -/
def hasBare : ListTree → Bool
  | empty => false
  | bare .. => true
  | keyword _ _ rest => rest.hasBare

/-- The keys of the list, in order. -/
def keys : ListTree → List String
  | empty => []
  | bare _ rest => rest.keys
  | keyword key _ rest => key :: rest.keys

end ListTree

mutual

/-- The tokens that a value is derived to. -/
def ValueTree.yield : ValueTree → List TokenKind
  | .text s => [.text s]
  | .quoted s => [.quoted s]
  | .element index => [.element index]
  | .call name args => .text name :: .parenOpen :: (args.yield ++ [.parenClose])

/-- The tokens that a list is derived to. -/
def ListTree.yield : ListTree → List TokenKind
  | .empty => []
  | .bare value rest => value.yield ++ (rest.comma ++ rest.yield)
  | .keyword key value rest => .text key :: .assign :: (value.yield ++ (rest.comma ++ rest.yield))

end

mutual

/-- The lists inside the value are well formed. -/
def ValueTree.WellFormed : ValueTree → Prop
  | .text _ | .quoted _ | .element _ => True
  | .call _ args => args.WellFormed

/-- Only the first argument is a bare value, keys are words and all different, and the same
holds inside the values. -/
def ListTree.WellFormed : ListTree → Prop
  | .empty => True
  | .bare value rest => value.WellFormed ∧ rest.hasBare = false ∧ rest.WellFormed
  | .keyword key value rest => IsKey key ∧ key ∉ rest.keys ∧ value.WellFormed ∧
      rest.hasBare = false ∧ rest.WellFormed

end

mutual

/-- The value that is derived. -/
def ValueTree.denote : ValueTree → Arg
  | .text s => .text s
  | .quoted s => .quoted s
  | .element index => .element index
  | .call name args => .call name args.positional args.keywords

/-- The bare value at the front of a list. -/
def ListTree.positional : ListTree → Option Arg
  | .empty => none
  | .bare value _ => some value.denote
  | .keyword .. => none

/-- The keywords of a list with their values, in order. -/
def ListTree.keywords : ListTree → List (String × Arg)
  | .empty => []
  | .bare _ rest => rest.keywords
  | .keyword key value rest => (key, value.denote) :: rest.keywords

end

/-- The arguments that are derived. -/
def ListTree.denote (t : ListTree) : Arguments := ⟨t.positional, t.keywords⟩

/-- The tokens have this derivation, and it is well formed. -/
def ListTree.Derives (t : ListTree) (kinds : List TokenKind) : Prop :=
  t.yield = kinds ∧ t.WellFormed

/-- What may follow an argument: the end, a comma or a closing parenthesis. -/
def Stops : List TokenKind → Prop
  | [] => True
  | k :: _ => k = .comma ∨ k = .parenClose ∨ k = .eof

/-- What may follow an argument list: the end, or a closing parenthesis. -/
def Closes : List TokenKind → Prop
  | [] => True
  | k :: _ => k = .parenClose ∨ k = .eof

theorem Closes.stops {r : List TokenKind} (h : Closes r) : Stops r := by
  cases r with
  | nil => trivial
  | cons k r => exact .inr h

/-! ### The grammar is unambiguous -/

namespace ListTree

theorem comma_of_ne {t : ListTree} (h : t ≠ empty) : t.comma = [.comma] := by
  cases t with
  | empty => exact absurd rfl h
  | bare value rest => rfl
  | keyword key value rest => rfl

theorem yield_bare (value : ValueTree) (rest : ListTree) (r : List TokenKind) :
    (bare value rest).yield ++ r = value.yield ++ (rest.comma ++ rest.yield ++ r) := by
  simp [yield]

theorem yield_keyword (key : String) (value : ValueTree) (rest : ListTree) (r : List TokenKind) :
    (keyword key value rest).yield ++ r =
      .text key :: .assign :: (value.yield ++ (rest.comma ++ rest.yield ++ r)) := by
  simp [yield]

/-- Behind an argument stands the comma of the next one, or what follows the list. -/
theorem stops_behind (t : ListTree) {r : List TokenKind} (h : Stops r) :
    Stops (t.comma ++ t.yield ++ r) := by
  cases t with
  | empty => exact h
  | bare value rest => exact .inl rfl
  | keyword key value rest => exact .inl rfl

/-- A list of further arguments is told from none by its comma. -/
theorem comma_eq {t u : ListTree} {r s : List TokenKind} (hr : Closes r) (hs : Closes s)
    (h : t.comma ++ t.yield ++ r = u.comma ++ u.yield ++ s) :
    t.comma = u.comma ∧ t.yield ++ r = u.yield ++ s := by
  have hne : ∀ {r rest : List TokenKind}, Closes r → r ≠ .comma :: rest := by
    rintro r rest hr rfl
    simp [Closes] at hr
  cases t with
  | empty =>
    cases u with
    | empty => exact ⟨rfl, h⟩
    | bare value rest => exact absurd h (hne hr)
    | keyword key value rest => exact absurd h (hne hr)
  | bare value rest =>
    cases u with
    | empty => exact absurd h.symm (hne hs)
    | bare value rest => exact ⟨rfl, List.tail_eq_of_cons_eq h⟩
    | keyword key value rest => exact ⟨rfl, List.tail_eq_of_cons_eq h⟩
  | keyword key value rest =>
    cases u with
    | empty => exact absurd h.symm (hne hs)
    | bare value rest => exact ⟨rfl, List.tail_eq_of_cons_eq h⟩
    | keyword key value rest => exact ⟨rfl, List.tail_eq_of_cons_eq h⟩

end ListTree

/-- A value starts with a text, a quoted text or a medium. -/
theorem ValueTree.yield_ne_of_closes (v : ValueTree) {r s : List TokenKind} (h : Closes s) :
    v.yield ++ r ≠ s := by
  rintro rfl
  cases v <;> simp [yield, Closes] at h

/-- No value is read where a key and its assignment stand. -/
theorem ValueTree.yield_ne_key (v : ValueTree) {key : String} {r s : List TokenKind}
    (h : Stops r) : v.yield ++ r ≠ .text key :: .assign :: s := by
  intro he
  cases v with
  | text t =>
    have hr : r = .assign :: s := List.tail_eq_of_cons_eq he
    simp [hr, Stops] at h
  | quoted t => simp [yield] at he
  | element i => simp [yield] at he
  | call name args => simp [yield] at he

mutual

/-- **The grammar is unambiguous**: values that are derived to the same tokens are the same. -/
theorem ValueTree.eq_of_yield : ∀ (t u : ValueTree) {r s : List TokenKind}, Stops r → Stops s →
    t.yield ++ r = u.yield ++ s → t = u ∧ r = s
  | .text a, u, r, s, hr, _, h => by
    cases u with
    | text b =>
      obtain ⟨ha, hrest⟩ := List.cons_eq_cons.1 h
      exact ⟨by rw [TokenKind.text.inj ha], hrest⟩
    | quoted b => simp [ValueTree.yield] at h
    | element i => simp [ValueTree.yield] at h
    | call name args =>
      have hopen : r = .parenOpen :: _ := (List.cons_eq_cons.1 h).2
      simp [hopen, Stops] at hr
  | .quoted a, u, r, s, _, _, h => by
    cases u with
    | quoted b =>
      obtain ⟨ha, hrest⟩ := List.cons_eq_cons.1 h
      exact ⟨by rw [TokenKind.quoted.inj ha], hrest⟩
    | _ => simp [ValueTree.yield] at h
  | .element i, u, r, s, _, _, h => by
    cases u with
    | element j =>
      obtain ⟨hi, hrest⟩ := List.cons_eq_cons.1 h
      exact ⟨by rw [TokenKind.element.inj hi], hrest⟩
    | _ => simp [ValueTree.yield] at h
  | .call name args, u, r, s, _, hs, h => by
    cases u with
    | text b =>
      have hopen : s = .parenOpen :: _ := (List.cons_eq_cons.1 h).2.symm
      simp [hopen, Stops] at hs
    | quoted b => simp [ValueTree.yield] at h
    | element i => simp [ValueTree.yield] at h
    | call name' args' =>
      simp only [ValueTree.yield, List.cons_append, List.append_assoc, List.cons.injEq,
        TokenKind.text.injEq, true_and] at h
      obtain ⟨hname, hargs⟩ := h
      have hclose : ∀ r : List TokenKind, Closes (.parenClose :: r) := fun r => .inl rfl
      obtain ⟨heq, hrest⟩ := ListTree.eq_of_yield args args' (hclose r) (hclose s) hargs
      exact ⟨by rw [hname, heq], List.tail_eq_of_cons_eq hrest⟩

theorem ListTree.eq_of_yield : ∀ (t u : ListTree) {r s : List TokenKind}, Closes r → Closes s →
    t.yield ++ r = u.yield ++ s → t = u ∧ r = s
  | .empty, u, r, s, hr, _, h => by
    cases u with
    | empty => exact ⟨rfl, h⟩
    | bare value rest =>
      rw [ListTree.yield_bare] at h
      exact absurd h.symm (value.yield_ne_of_closes hr)
    | keyword key value rest =>
      have hkey : r = .text key :: _ := h
      simp [hkey, Closes] at hr
  | .bare value rest, u, r, s, hr, hs, h => by
    rw [ListTree.yield_bare] at h
    cases u with
    | empty => exact absurd h (value.yield_ne_of_closes hs)
    | bare value' rest' =>
      rw [ListTree.yield_bare] at h
      obtain ⟨hvalue, hmore⟩ :=
        ValueTree.eq_of_yield value value' (rest.stops_behind hr.stops)
          (rest'.stops_behind hs.stops) h
      obtain ⟨-, hrest⟩ := ListTree.comma_eq hr hs hmore
      obtain ⟨heq, htail⟩ := ListTree.eq_of_yield rest rest' hr hs hrest
      exact ⟨by rw [hvalue, heq], htail⟩
    | keyword key value' rest' =>
      rw [ListTree.yield_keyword] at h
      exact absurd h (value.yield_ne_key (rest.stops_behind hr.stops))
  | .keyword key value rest, u, r, s, hr, hs, h => by
    rw [ListTree.yield_keyword] at h
    cases u with
    | empty =>
      have hkey : s = .text key :: _ := h.symm
      simp [hkey, Closes] at hs
    | bare value' rest' =>
      rw [ListTree.yield_bare] at h
      exact absurd h.symm (value'.yield_ne_key (rest'.stops_behind hs.stops))
    | keyword key' value' rest' =>
      rw [ListTree.yield_keyword] at h
      obtain ⟨hkey, hassign⟩ := List.cons_eq_cons.1 h
      have hvalues := List.tail_eq_of_cons_eq hassign
      obtain ⟨hvalue, hmore⟩ :=
        ValueTree.eq_of_yield value value' (rest.stops_behind hr.stops)
          (rest'.stops_behind hs.stops) hvalues
      obtain ⟨-, hrest⟩ := ListTree.comma_eq hr hs hmore
      obtain ⟨heq, htail⟩ := ListTree.eq_of_yield rest rest' hr hs hrest
      exact ⟨by rw [TokenKind.text.inj hkey, hvalue, heq], htail⟩

end

mutual

theorem ValueTree.eof_not_mem : ∀ t : ValueTree, .eof ∉ t.yield
  | .text s => by simp [ValueTree.yield]
  | .quoted s => by simp [ValueTree.yield]
  | .element i => by simp [ValueTree.yield]
  | .call name args => by simp [ValueTree.yield, args.eof_not_mem]

theorem ListTree.eof_not_mem : ∀ t : ListTree, .eof ∉ t.yield
  | .empty => by simp [ListTree.yield]
  | .bare value rest => by
    have hcomma : TokenKind.eof ∉ rest.comma := by cases rest <;> simp [ListTree.comma]
    simp [ListTree.yield, value.eof_not_mem, rest.eof_not_mem, hcomma]
  | .keyword key value rest => by
    have hcomma : TokenKind.eof ∉ rest.comma := by cases rest <;> simp [ListTree.comma]
    simp [ListTree.yield, value.eof_not_mem, rest.eof_not_mem, hcomma]

end

end Manuscript
