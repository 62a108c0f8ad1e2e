/-
# The reader of argument lists accepts its grammar

Reading an argument list succeeds on the tokens that have a well-formed derivation,
and gives the arguments that the derivation denotes.

What one step of the reader does is said once for each of its functions, as a
relation (`Arguments.ReadsValue`, `Arguments.ReadsOne`, `Arguments.ReadsMore`). Then

* what is derived is read, whatever follows it (`Arguments.parseMore_goesOn`), by induction on
  the tree; four steps for every token are enough;
* what is read was derived (`Arguments.derived_of_parse`), by induction on the steps.

Key definitions: `Arguments.ReadsValue`, `Arguments.ReadsOne`, `Arguments.ReadsMore`,
`Arguments.Joins`, `Arguments.OneDerived`, `Arguments.MoreDerived`.
Key theorems: `Arguments.parseValue_of_yield`, `Arguments.parseMore_goesOn`,
`Arguments.derived_of_parse`, `Arguments.parse_grammar`.
-/
import Manuscript.Proofs.Command.Derivation

namespace Manuscript

namespace Arguments

/-! ### One step of the reader -/

open Text (Span)

variable {last : Span} {nested : Bool} {args args' : Arguments} {steps : Nat}
  {ts rest : List Token} {v : Arg}

/-- How a value is read: a call with its arguments in parentheses, or a single token. -/
inductive ReadsValue (last : Span) (steps : Nat) : List Token → Arg → List Token → Prop where
  | call {name : String} {a b c : Span} {more rest : List Token} {inner : Arguments} :
    parseList last true steps .empty more = (inner, .ok (⟨.parenClose, c⟩ :: rest)) →
    ReadsValue last steps (⟨.text name, a⟩ :: ⟨.parenOpen, b⟩ :: more)
      (.call name inner.positional inner.keywords) rest
  | text {s : String} {a : Span} {rest : List Token} : kindAt rest ≠ .parenOpen →
    ReadsValue last steps (⟨.text s, a⟩ :: rest) (.text s) rest
  | quoted (s : String) (a : Span) (rest : List Token) :
    ReadsValue last steps (⟨.quoted s, a⟩ :: rest) (.quoted s) rest
  | element (i : Nat) (a : Span) (rest : List Token) :
    ReadsValue last steps (⟨.element i, a⟩ :: rest) (.element i) rest

theorem parseValue_eq_ok :
    parseValue last (steps + 1) ts = .ok (v, rest) ↔ ReadsValue last steps ts v rest := by
  constructor
  · intro h
    unfold parseValue at h
    split at h
    · rename_i name a b more
      split at h
      · cases h
      · rename_i inner after hlist
        split at h
        · cases h
          exact .call hlist
        · cases h
    · rename_i s a more hnot
      cases h
      refine .text ?_
      rcases rest with _ | ⟨⟨kind, span⟩, rest⟩
      · exact TokenKind.noConfusion
      · rintro rfl
        exact hnot span rest rfl
    · cases h
      exact .quoted ..
    · cases h
      exact .element ..
    · cases h
    · cases h
  · intro h
    cases h with
    | call hlist => simp [parseValue, hlist]
    | text hnot =>
      rcases rest with _ | ⟨⟨kind, span⟩, rest⟩
      · rfl
      · cases kind <;> first | rfl | exact absurd rfl hnot
    | quoted s a rest => rfl
    | element i a rest => rfl

/-- A bare value is read here: the start of a value, but no key with its assignment. -/
def AtBare : List TokenKind → Prop
  | .text _ :: .assign :: _ => False
  | .text _ :: _ | .quoted _ :: _ | .element _ :: _ => True
  | _ => False

/-- How an argument is read into those before it: a keyword with its value, or a bare value. -/
inductive ReadsOne (last : Span) (args : Arguments) (steps : Nat) :
    List Token → Arguments → List Token → Prop where
  | keyword {key : String} {a b : Span} {more rest : List Token} {v : Arg} :
    checkKey last more args key = .ok () → parseValue last steps more = .ok (v, rest) →
    ReadsOne last args steps (⟨.text key, a⟩ :: ⟨.assign, b⟩ :: more)
      { args with keywords := args.keywords ++ [(key, v)] } rest
  | bare {ts rest : List Token} {v : Arg} {args' : Arguments} : AtBare (ts.map (·.kind)) →
    parseValue last steps ts = .ok (v, rest) → addPositional last rest args v = .ok args' →
    ReadsOne last args steps ts args' rest

theorem parseOne_eq_ok : parseOne last args (steps + 1) ts = .ok (args', rest) ↔
    ReadsOne last args steps ts args' rest := by
  constructor
  · intro h
    unfold parseOne at h
    split at h
    · split at h
      · cases h
      · rename_i hkey
        split at h
        · cases h
        · rename_i hvalue
          cases h
          exact .keyword hkey hvalue
    · cases h
    · cases h
    · cases h
    · cases h
    · cases h
    · cases h
    · cases h
    · rename_i hkey hassign hcomma hquote hclose hopen heof hnil
      split at h
      · cases h
      · rename_i v more hvalue
        split at h
        · cases h
        · rename_i hadd
          cases h
          refine .bare ?_ hvalue hadd
          rcases ts with _ | ⟨⟨kind, a⟩, tail⟩
          · exact hnil rfl
          · cases kind with
            | text key =>
              rcases tail with _ | ⟨⟨kind, b⟩, tail⟩
              · trivial
              · cases kind with
                | assign => exact hkey key a b tail rfl
                | _ => trivial
            | quoted s => trivial
            | element i => trivial
            | assign => exact hassign a tail rfl
            | comma => exact hcomma a tail rfl
            | parenOpen => exact hopen a tail rfl
            | parenClose => exact hclose a tail rfl
            | unterminated s => exact hquote s a tail rfl
            | eof => exact heof a tail rfl
  · intro h
    cases h with
    | keyword hkey hvalue => simp [parseOne, hkey, hvalue]
    | bare hbare hvalue hadd =>
      unfold parseOne
      split
      case h_9 => simp [hvalue, hadd]
      all_goals exact hbare.elim

/-- How arguments are read up to the end of their list: one, and behind a comma the others. -/
inductive ReadsMore (last : Span) (nested : Bool) (args : Arguments) (steps : Nat) (ts : List Token) :
    Arguments → List Token → Prop where
  | next {mid args' : Arguments} {a : Span} {tail rest : List Token} :
    parseOne last args steps ts = .ok (mid, ⟨.comma, a⟩ :: tail) →
    parseMore last nested steps mid tail = (args', .ok rest) →
    ReadsMore last nested args steps ts args' rest
  | done {args' : Arguments} {rest : List Token} : parseOne last args steps ts = .ok (args', rest) →
    atEnd nested rest = true → ReadsMore last nested args steps ts args' rest

theorem parseMore_eq_ok : parseMore last nested (steps + 1) args ts = (args', .ok rest) ↔
    ReadsMore last nested args steps ts args' rest := by
  constructor
  · intro h
    rw [parseMore] at h
    split at h
    · cases h
    · rename_i mid more hone
      split at h
      · exact .next hone h
      · split at h
        · rename_i hend
          cases h
          exact .done hone hend
        · cases h
  · intro h
    cases h with
    | next hone hmore => simp [parseMore, hone, hmore]
    | done hone hend =>
      rw [parseMore, hone]
      rcases rest with _ | ⟨⟨kind, span⟩, rest⟩
      · rfl
      · cases kind with
        | eof => rfl
        | parenClose =>
          dsimp only
          rw [if_pos hend]
        | _ => cases hend

/-! ### What is derived is read -/

/-- The arguments read so far, and those of a list behind them. -/
def extend (args : Arguments) (t : ListTree) : Arguments :=
  ⟨args.positional.or t.positional, args.keywords ++ t.keywords⟩

/-- The list may follow the arguments: a bare value follows none, and no key is given again. -/
structure Joins (args : Arguments) (t : ListTree) : Prop where
  first : t.hasBare = true → args = empty
  fresh : ∀ key ∈ t.keys, args.has key = false

theorem Joins.hasBare_eq_false {t : ListTree} (h : args.Joins t) (hne : args ≠ empty) :
    t.hasBare = false := by
  rw [← Bool.not_eq_true]
  exact fun hbare => hne (h.first hbare)

theorem closes_of_atEnd (h : atEnd nested rest = true) : Closes (rest.map (·.kind)) := by
  cases rest with
  | nil => trivial
  | cons t rest =>
    unfold atEnd kindAt at h
    dsimp only at h
    split at h
    · exact .inr ‹_›
    · exact .inl ‹_›
    · cases h

theorem stops_of_atEnd (h : atEnd nested rest = true) : Stops (rest.map (·.kind)) :=
  (closes_of_atEnd h).stops

/-- What follows an argument stops it. -/
theorem stops_of_behind {t : ListTree} {behind : List Token}
    (hbehind : behind.map (·.kind) = t.comma ++ t.yield) (hrest : Stops (rest.map (·.kind))) :
    Stops ((behind ++ rest).map (·.kind)) := by
  rw [List.map_append, hbehind]
  exact t.stops_behind hrest

theorem kindAt_eq_eof (h : atEnd false rest = true) : kindAt rest = .eof := by
  unfold atEnd at h
  split at h
  · assumption
  · cases h
  · cases h

theorem has_eq_true {key : String} : args.has key = true ↔ key ∈ args.keywords.map (·.1) := by
  rw [has, get?, List.lookup_isSome_iff, List.mem_map]
  constructor
  · rintro ⟨e, he, hkey⟩
    exact ⟨e, he, (eq_of_beq hkey).symm⟩
  · rintro ⟨e, he, rfl⟩
    exact ⟨e, he, beq_self_eq_true _⟩

theorem checkKey_eq_ok {key : String} :
    checkKey last ts args key = .ok () ↔ IsKey key ∧ args.has key = false := by
  rw [isKey_iff]
  unfold checkKey
  cases hbad : key.isEmpty || key.toList.any Text.isBlank with
  | true => simp [fail]
  | false => cases htwice : args.has key <;> simp [fail]

theorem addPositional_eq_ok : addPositional last ts args v = .ok args' ↔
    args = empty ∧ args' = ⟨some v, []⟩ := by
  rcases args with ⟨positional, keywords⟩
  cases keywords with
  | nil => cases positional <;> simp [addPositional, fail, empty, eq_comm]
  | cons e keywords => simp [addPositional, fail, empty]

/-- Where a value stands and something stops it, a bare value is read. -/
theorem atBare_yield (t : ValueTree) {r : List TokenKind} (h : Stops r) : AtBare (t.yield ++ r) := by
  cases t with
  | text s =>
    rcases r with _ | ⟨kind, r⟩
    · trivial
    · rcases h with rfl | rfl | rfl <;> trivial
  | quoted s => trivial
  | element i => trivial
  | call name args => trivial

theorem positional_eq_none : ∀ {t : ListTree}, t.hasBare = false → t.positional = none
  | .empty, _ => rfl
  | .bare _ _, h => by cases h
  | .keyword _ _ _, _ => rfl

theorem extend_empty (t : ListTree) : empty.extend t = t.denote := rfl

/-- The end of a list is not at the start of a further argument. -/
theorem atEnd_eq_false {t : ListTree} (ht : t ≠ .empty) (hts : ts.map (·.kind) = t.yield) :
    atEnd nested (ts ++ rest) = false := by
  have hstart : ∀ (v : ValueTree) {r : List TokenKind}, ts.map (·.kind) = v.yield ++ r →
      atEnd nested (ts ++ rest) = false := by
    intro v r h
    cases v with
    | call name args =>
      obtain ⟨⟨_, a⟩, more, rfl, rfl, -⟩ := List.map_eq_cons_iff.1 h
      rfl
    | _ =>
      obtain ⟨⟨_, a⟩, more, rfl, rfl, -⟩ := List.map_eq_cons_iff.1 h
      rfl
  cases t with
  | empty => exact absurd rfl ht
  | bare value rest => exact hstart value hts
  | keyword key value rest =>
    obtain ⟨⟨_, a⟩, more, rfl, rfl, -⟩ := List.map_eq_cons_iff.1 hts
    rfl

theorem parseList_of_parseMore {t : ListTree} (hts : ts.map (·.kind) = t.yield)
    (hend : atEnd nested rest = true) (hmore : t ≠ .empty →
      parseMore last nested steps .empty (ts ++ rest) = (empty.extend t, .ok rest)) :
    parseList last nested (steps + 1) .empty (ts ++ rest) = (t.denote, .ok rest) := by
  rw [parseList]
  by_cases ht : t = .empty
  · subst ht
    obtain rfl := List.map_eq_nil_iff.1 hts
    rw [List.nil_append, if_pos hend]
    rfl
  · rw [if_neg (by rw [atEnd_eq_false ht hts]; exact Bool.false_ne_true), hmore ht, extend_empty]

/-- Goes on behind an argument: behind a comma with the next one, and else at the end of the
list. -/
def goOn (last : Span) (nested : Bool) (steps : Nat) (args : Arguments) :
    List Token → Arguments × Except Failure (List Token)
  | ⟨.comma, _⟩ :: rest => parseMore last nested steps args rest
  | rest => (args, if atEnd nested rest then .ok rest else fail last rest .commaExpected)

theorem parseMore_eq_goOn {mid : Arguments} (hone : parseOne last args steps ts = .ok (mid, rest)) :
    parseMore last nested (steps + 1) args ts = goOn last nested steps mid rest := by
  rw [parseMore, hone]
  rfl

theorem goOn_of_atEnd (hend : atEnd nested rest = true) :
    goOn last nested steps args rest = (args, .ok rest) := by
  unfold goOn
  split
  · cases hend
  · rw [if_pos hend]

/-- Behind an argument the further arguments are read, and then what follows them. -/
theorem parseMore_of_parseOne {t : ListTree} {mid : Arguments} {behind : List Token}
    (hbehind : behind.map (·.kind) = t.comma ++ t.yield)
    (hone : parseOne last args steps ts = .ok (mid, behind ++ rest))
    (hmore : ∀ more, t ≠ .empty → more.map (·.kind) = t.yield → more.length < behind.length →
      ∃ left, parseMore last nested steps mid (more ++ rest) =
        goOn last nested left (mid.extend t) rest) :
    ∃ left, parseMore last nested (steps + 1) args ts =
      goOn last nested left (mid.extend t) rest := by
  rw [parseMore_eq_goOn hone]
  by_cases ht : t = .empty
  · subst ht
    obtain rfl := List.map_eq_nil_iff.1 hbehind
    have hmid : mid.extend .empty = mid := by
      simp [extend, ListTree.positional, ListTree.keywords]
    rw [hmid]
    exact ⟨steps, rfl⟩
  · rw [ListTree.comma_of_ne ht] at hbehind
    obtain ⟨⟨_, a⟩, more, rfl, rfl, hyield⟩ := List.map_eq_cons_iff.1 hbehind
    exact hmore more ht hyield (Nat.lt_succ_self _)

theorem length_pos_of_yield {t : ValueTree} (hts : ts.map (·.kind) = t.yield) : 0 < ts.length := by
  have hpos : 0 < t.yield.length := by cases t <;> simp [ValueTree.yield]
  rwa [← hts, List.length_map] at hpos

mutual

/-- A value that is derived is read, in four steps for every token. -/
theorem parseValue_of_yield : ∀ (t : ValueTree) {steps : Nat} {ts rest : List Token},
    t.WellFormed → ts.map (·.kind) = t.yield → Stops (rest.map (·.kind)) →
    4 * ts.length ≤ steps + 1 → parseValue last steps (ts ++ rest) = .ok (t.denote, rest)
  | t, 0, ts, rest, _, hts, _, hsteps => by
    have hpos := length_pos_of_yield hts
    omega
  | .text s, steps + 1, ts, rest, _, hts, hrest, _ => by
    obtain ⟨⟨_, a⟩, rfl, rfl⟩ := List.map_eq_singleton_iff.1 hts
    refine parseValue_eq_ok.2 (.text ?_)
    cases rest with
    | nil => exact TokenKind.noConfusion
    | cons t rest =>
      intro hopen
      rcases hrest with h | h | h <;> simp_all [kindAt]
  | .quoted s, steps + 1, ts, rest, _, hts, _, _ => by
    obtain ⟨⟨_, a⟩, rfl, rfl⟩ := List.map_eq_singleton_iff.1 hts
    exact parseValue_eq_ok.2 (.quoted s a rest)
  | .element i, steps + 1, ts, rest, _, hts, _, _ => by
    obtain ⟨⟨_, a⟩, rfl, rfl⟩ := List.map_eq_singleton_iff.1 hts
    exact parseValue_eq_ok.2 (.element i a rest)
  | .call name args, 1, ts, rest, _, hts, _, hsteps => by
    have hlength : ts.length = (ValueTree.call name args).yield.length := by
      rw [← hts, List.length_map]
    simp [ValueTree.yield] at hlength
    omega
  | .call name args, steps + 2, ts, rest, hwf, hts, _, hsteps => by
    obtain ⟨⟨_, a⟩, behind, rfl, rfl, hbehind⟩ := List.map_eq_cons_iff.1 hts
    obtain ⟨⟨_, b⟩, within, rfl, rfl, hwithin⟩ := List.map_eq_cons_iff.1 hbehind
    obtain ⟨inner, closing, rfl, hinner, hclosing⟩ := List.map_eq_append_iff.1 hwithin
    obtain ⟨⟨_, c⟩, rfl, rfl⟩ := List.map_eq_singleton_iff.1 hclosing
    have hlist : parseList last true (steps + 1) .empty (inner ++ (⟨.parenClose, c⟩ :: rest)) =
        (args.denote, .ok (⟨.parenClose, c⟩ :: rest)) := by
      refine parseList_of_parseMore hinner rfl fun hne => ?_
      simp only [List.length_cons, List.length_append, List.length_nil] at hsteps
      have hend : atEnd true (⟨.parenClose, c⟩ :: rest) = true := rfl
      have hmore : ∃ left, parseMore last true steps .empty (inner ++ ⟨.parenClose, c⟩ :: rest) =
          goOn last true left (empty.extend args) (⟨.parenClose, c⟩ :: rest) :=
        parseMore_goesOn args hne hwf ⟨fun _ => rfl, fun _ _ => rfl⟩ hinner (stops_of_atEnd hend)
          (by omega)
      obtain ⟨left, hmore⟩ := hmore
      exact hmore.trans (goOn_of_atEnd hend)
    have hread : ReadsValue last (steps + 1)
        (⟨.text name, a⟩ :: ⟨.parenOpen, b⟩ :: (inner ++ ⟨.parenClose, c⟩ :: rest))
        (ValueTree.call name args).denote rest := .call hlist
    simpa using parseValue_eq_ok.2 hread

/-- Further arguments that are derived are read, and then what follows them. -/
theorem parseMore_goesOn : ∀ (t : ListTree) {nested : Bool} {steps : Nat} {args : Arguments}
    {ts rest : List Token}, t ≠ .empty → t.WellFormed → args.Joins t → ts.map (·.kind) = t.yield →
    Stops (rest.map (·.kind)) → 4 * ts.length + 1 ≤ steps → ∃ left,
    parseMore last nested steps args (ts ++ rest) = goOn last nested left (args.extend t) rest
  | .empty, _, _, _, _, _, hne, _, _, _, _, _ => absurd rfl hne
  | .bare value more, nested, steps, args, ts, rest, _, hwf, hjoins, hts, hrest, hsteps => by
    obtain ⟨hvalue, hbare, hmore⟩ := hwf
    obtain ⟨front, behind, rfl, hfront, hbehind⟩ := List.map_eq_append_iff.1 hts
    have hpos := length_pos_of_yield hfront
    rw [List.length_append] at hsteps
    obtain ⟨n, rfl⟩ : ∃ n, steps = n + 2 := ⟨steps - 2, by omega⟩
    have hstops := stops_of_behind hbehind hrest
    have hread : parseValue last n (front ++ (behind ++ rest)) = .ok (value.denote, behind ++ rest) :=
      parseValue_of_yield value hvalue hfront hstops (by omega)
    have hone : parseOne last args (n + 1) (front ++ (behind ++ rest)) =
        .ok (⟨some value.denote, []⟩, behind ++ rest) := by
      refine parseOne_eq_ok.2 (.bare ?_ hread (addPositional_eq_ok.2 ⟨hjoins.first rfl, rfl⟩))
      rw [List.map_append, hfront]
      exact atBare_yield value hstops
    have hextend : args.extend (.bare value more) = extend ⟨some value.denote, []⟩ more := by
      rw [hjoins.first rfl]
      rfl
    rw [List.append_assoc, hextend]
    refine parseMore_of_parseOne hbehind hone fun tail hne htail hlt => ?_
    have htailJoins : Joins ⟨some value.denote, []⟩ more :=
      ⟨fun h => absurd h (by rw [hbare]; exact Bool.false_ne_true), fun _ _ => rfl⟩
    exact parseMore_goesOn more hne hmore htailJoins htail hrest (by omega)
  | .keyword key value more, nested, steps, args, ts, rest, _, hwf, hjoins, hts, hrest, hsteps => by
    obtain ⟨hkey, hfresh, hvalue, hbare, hmore⟩ := hwf
    obtain ⟨⟨_, a⟩, assigned, rfl, rfl, hassigned⟩ := List.map_eq_cons_iff.1 hts
    obtain ⟨⟨_, b⟩, given, rfl, rfl, hgiven⟩ := List.map_eq_cons_iff.1 hassigned
    obtain ⟨front, behind, rfl, hfront, hbehind⟩ := List.map_eq_append_iff.1 hgiven
    rw [List.length_cons, List.length_cons, List.length_append] at hsteps
    obtain ⟨n, rfl⟩ : ∃ n, steps = n + 2 := ⟨steps - 2, by omega⟩
    have hstops := stops_of_behind hbehind hrest
    have hread : parseValue last n (front ++ (behind ++ rest)) = .ok (value.denote, behind ++ rest) :=
      parseValue_of_yield value hvalue hfront hstops (by omega)
    have hunused : args.has key = false := hjoins.fresh key List.mem_cons_self
    have hone : parseOne last args (n + 1)
        (⟨.text key, a⟩ :: ⟨.assign, b⟩ :: (front ++ (behind ++ rest))) =
        .ok ({ args with keywords := args.keywords ++ [(key, value.denote)] }, behind ++ rest) :=
      parseOne_eq_ok.2 (.keyword (checkKey_eq_ok.2 ⟨hkey, hunused⟩) hread)
    have hextend : args.extend (.keyword key value more) =
        extend { args with keywords := args.keywords ++ [(key, value.denote)] } more := by
      simp [extend, ListTree.positional, ListTree.keywords, positional_eq_none hbare]
    rw [List.cons_append, List.cons_append, List.append_assoc, hextend]
    refine parseMore_of_parseOne hbehind hone fun tail hne htail hlt => ?_
    refine parseMore_goesOn more hne hmore ⟨fun h => ?_, fun other hother => ?_⟩ htail hrest (by omega)
    · rw [hbare] at h
      cases h
    · have hold := hjoins.fresh other (List.mem_cons_of_mem key hother)
      have hdiffers : other ≠ key := fun he => hfresh (he ▸ hother)
      rw [← Bool.not_eq_true, has_eq_true] at hold ⊢
      simpa [hdiffers] using hold

end

theorem parseMore_of_yield {t : ListTree} (hne : t ≠ .empty) (hwf : t.WellFormed)
    (hjoins : args.Joins t) (hts : ts.map (·.kind) = t.yield) (hend : atEnd nested rest = true)
    (hsteps : 4 * ts.length + 1 ≤ steps) :
    parseMore last nested steps args (ts ++ rest) = (args.extend t, .ok rest) := by
  obtain ⟨left, hmore⟩ := parseMore_goesOn t hne hwf hjoins hts (stops_of_atEnd hend) hsteps
  exact hmore.trans (goOn_of_atEnd hend)

/-! ### What is read was derived -/

/-- A value and the tokens it was read from. -/
def ValueDerived (ts : List Token) (v : Arg) (rest : List Token) : Prop :=
  ∃ (t : ValueTree) (front : List Token), t.WellFormed ∧ t.denote = v ∧ ts = front ++ rest ∧
    front.map (·.kind) = t.yield

/-- An argument and the tokens it was read from, between the arguments `args` and `mid`: it goes
before any list that may follow it. -/
def OneDerived (args : Arguments) (ts : List Token) (mid : Arguments) (rest : List Token) : Prop :=
  ∃ (grow : ListTree → ListTree) (front : List Token), ts = front ++ rest ∧
    ∀ u, u.WellFormed → mid.Joins u → grow u ≠ .empty ∧ (grow u).WellFormed ∧ args.Joins (grow u) ∧
      args.extend (grow u) = mid.extend u ∧
      (grow u).yield = front.map (·.kind) ++ (u.comma ++ u.yield)

/-- Some arguments and the tokens they were read from, behind the arguments `args`. -/
def MoreDerived (args : Arguments) (ts : List Token) (args' : Arguments) (rest : List Token) : Prop :=
  ∃ (t : ListTree) (front : List Token), t ≠ .empty ∧ t.WellFormed ∧ args.Joins t ∧
    args.extend t = args' ∧ ts = front ++ rest ∧ front.map (·.kind) = t.yield

/-- An argument list and the tokens it was read from. -/
def ListDerived (ts : List Token) (args : Arguments) (rest : List Token) : Prop :=
  ∃ (t : ListTree) (front : List Token), t.WellFormed ∧ t.denote = args ∧ ts = front ++ rest ∧
    front.map (·.kind) = t.yield

theorem joins_empty (args : Arguments) : args.Joins .empty where
  first h := by cases h
  fresh key h := by cases h

theorem ReadsOne.oneDerived {mid : Arguments} (h : ReadsOne last args steps ts mid rest)
    (hvalue : ∀ {ts : List Token} {v : Arg} {rest : List Token},
      parseValue last steps ts = .ok (v, rest) → ValueDerived ts v rest) :
    OneDerived args ts mid rest := by
  cases h with
  | @keyword key a b more rest v hkey hread =>
    obtain ⟨hword, hunused⟩ := checkKey_eq_ok.1 hkey
    obtain ⟨t, front, hwf, rfl, rfl, hfront⟩ := hvalue hread
    refine ⟨.keyword key t, ⟨.text key, a⟩ :: ⟨.assign, b⟩ :: front, rfl, fun u hu hjoins => ?_⟩
    have hbare : u.hasBare = false := hjoins.hasBare_eq_false (by simp [empty])
    have hold : ∀ other ∈ u.keys, other ≠ key ∧ args.has other = false := by
      intro other hother
      have hfresh := hjoins.fresh other hother
      rw [← Bool.not_eq_true, has_eq_true] at hfresh ⊢
      simp only [List.map_append, List.map_cons, List.map_nil, List.mem_append, List.mem_singleton,
        not_or] at hfresh
      exact ⟨hfresh.2, hfresh.1⟩
    refine ⟨by simp, ⟨hword, fun hmem => (hold key hmem).1 rfl, hwf, hbare, hu⟩, ⟨?_, ?_⟩, ?_, ?_⟩
    · intro hb
      rw [ListTree.hasBare, hbare] at hb
      cases hb
    · intro other hother
      rcases List.mem_cons.1 hother with rfl | hother
      · exact hunused
      · exact (hold other hother).2
    · simp [extend, ListTree.positional, ListTree.keywords, positional_eq_none hbare]
    · simp [ListTree.yield, hfront]
  | bare hbare hread hadd =>
    obtain ⟨rfl, rfl⟩ := addPositional_eq_ok.1 hadd
    obtain ⟨t, front, hwf, rfl, rfl, hfront⟩ := hvalue hread
    refine ⟨.bare t, front, rfl, fun u hu hjoins => ?_⟩
    have hbare : u.hasBare = false := hjoins.hasBare_eq_false (by simp [empty])
    refine ⟨by simp, ⟨hwf, hbare, hu⟩, ⟨fun _ => rfl, fun _ _ => rfl⟩, rfl, ?_⟩
    rw [ListTree.yield, hfront]

/-- An argument at the end of its list. -/
theorem OneDerived.done (h : OneDerived args ts args' rest) : MoreDerived args ts args' rest := by
  obtain ⟨grow, front, hts, hgrow⟩ := h
  obtain ⟨hne, hwf, hjoins, hextend, hyield⟩ := hgrow .empty trivial (joins_empty args')
  refine ⟨grow .empty, front, hne, hwf, hjoins, ?_, hts, ?_⟩
  · rw [hextend]
    simp [extend, ListTree.positional, ListTree.keywords]
  · rw [hyield]
    simp [ListTree.comma, ListTree.yield]

/-- An argument before others. -/
theorem OneDerived.next {mid : Arguments} {a : Span} {tail : List Token}
    (h : OneDerived args ts mid (⟨.comma, a⟩ :: tail)) (hmore : MoreDerived mid tail args' rest) :
    MoreDerived args ts args' rest := by
  obtain ⟨grow, front, rfl, hgrow⟩ := h
  obtain ⟨u, behind, hu, hwf, hjoins, rfl, rfl, hbehind⟩ := hmore
  obtain ⟨hne, hwf', hjoins', hextend, hyield⟩ := hgrow u hwf hjoins
  refine ⟨grow u, front ++ ⟨.comma, a⟩ :: behind, hne, hwf', hjoins', hextend, by simp, ?_⟩
  rw [hyield, ListTree.comma_of_ne hu]
  simp [hbehind]

/-- A list is read as no arguments at its end, or as some arguments. -/
theorem listDerived_of_parseList (hmore : ∀ {args' : Arguments} {ts rest : List Token},
      parseMore last nested steps .empty ts = (args', .ok rest) →
      MoreDerived .empty ts args' rest ∧ atEnd nested rest = true)
    (h : parseList last nested (steps + 1) .empty ts = (args', .ok rest)) :
    ListDerived ts args' rest ∧ atEnd nested rest = true := by
  rw [parseList] at h
  split at h
  · rename_i hend
    cases h
    exact ⟨⟨.empty, [], trivial, rfl, rfl, rfl⟩, hend⟩
  · obtain ⟨⟨t, front, -, hwf, -, hdenote, hts, hfront⟩, hend⟩ := hmore h
    exact ⟨⟨t, front, hwf, hdenote, hts, hfront⟩, hend⟩

/-- What is read in a number of steps was derived, by induction on the steps: a value reads its
arguments, and an argument its value, with fewer. -/
theorem derived_of_parse (last : Span) (steps : Nat) :
    (∀ {ts : List Token} {v : Arg} {rest : List Token},
      parseValue last steps ts = .ok (v, rest) → ValueDerived ts v rest) ∧
    ∀ {nested : Bool} {args args' : Arguments} {ts rest : List Token},
      parseMore last nested steps args ts = (args', .ok rest) →
      MoreDerived args ts args' rest ∧ atEnd nested rest = true := by
  induction steps using Nat.strongRecOn with
  | ind steps ih =>
    constructor
    · intro ts v rest h
      cases steps with
      | zero => cases h
      | succ steps =>
        cases parseValue_eq_ok.1 h with
        | @call name a b c more rest inner hlist =>
          cases steps with
          | zero => cases hlist
          | succ steps =>
            obtain ⟨⟨t, front, hwf, rfl, rfl, hfront⟩, -⟩ :=
              listDerived_of_parseList (ih steps (by omega)).2 hlist
            refine ⟨.call name t, ⟨.text name, a⟩ :: ⟨.parenOpen, b⟩ :: (front ++ [⟨.parenClose, c⟩]),
              hwf, rfl, by simp, ?_⟩
            simp [ValueTree.yield, hfront]
        | @text s a rest hnot => exact ⟨.text s, [⟨.text s, a⟩], trivial, rfl, rfl, rfl⟩
        | quoted s a rest => exact ⟨.quoted s, [⟨.quoted s, a⟩], trivial, rfl, rfl, rfl⟩
        | element i a rest => exact ⟨.element i, [⟨.element i, a⟩], trivial, rfl, rfl, rfl⟩
    · intro nested args args' ts rest h
      have hone : ∀ {n : Nat} {mid : Arguments} {more : List Token}, n < steps →
          parseOne last args n ts = .ok (mid, more) → OneDerived args ts mid more := by
        intro n mid more hlt hread
        cases n with
        | zero => cases hread
        | succ n => exact (parseOne_eq_ok.1 hread).oneDerived (ih n (by omega)).1
      cases steps with
      | zero => cases h
      | succ steps =>
        cases parseMore_eq_ok.1 h with
        | next hread hmore =>
          obtain ⟨hderived, hend⟩ := (ih steps (by omega)).2 hmore
          exact ⟨(hone (by omega) hread).next hderived, hend⟩
        | done hread hend => exact ⟨(hone (by omega) hread).done, hend⟩

/-! ### The reader and the grammar -/

variable {e : Token}

theorem exists_parseList (nested : Bool) (ts : List Token) :
    ∃ last, (parse nested ts).1 = (parseList last nested (Arguments.steps ts) .empty ts).1 := by
  refine ⟨(ts.getLast?.map (·.span)).getD ⟨0, 0⟩, ?_⟩
  rw [parse]
  split <;> rename_i heq <;> rw [heq]

/-- A derived list is read as what it denotes. -/
theorem parse_of_yield {t : ListTree} (he : e.kind = .eof) (hwf : t.WellFormed)
    (hts : t.yield = ts.map (·.kind)) : parse false (ts ++ [e]) = (t.denote, none) := by
  have hend : atEnd false [e] = true := by simp [atEnd, kindAt, he]
  unfold parse
  dsimp only
  generalize ((ts ++ [e]).getLast?.map (·.span)).getD ⟨0, 0⟩ = last
  obtain ⟨n, hn⟩ : ∃ n, steps (ts ++ [e]) = n + 1 := ⟨_, rfl⟩
  have hlist : parseList last false (steps (ts ++ [e])) .empty (ts ++ [e]) = (t.denote, .ok [e]) := by
    rw [hn]
    refine parseList_of_parseMore hts.symm hend fun hne => ?_
    refine parseMore_of_yield hne hwf ⟨fun _ => rfl, fun _ _ => rfl⟩ hts.symm hend ?_
    simp only [steps, List.length_append, List.length_singleton] at hn
    omega
  rw [hlist]

/-- A list that is read was derived, up to where it ends. -/
theorem exists_listDerived (h : parse nested ts = (args, none)) :
    ∃ rest, ListDerived ts args rest ∧ atEnd nested rest = true := by
  unfold parse at h
  dsimp only at h
  generalize (ts.getLast?.map (·.span)).getD ⟨0, 0⟩ = last at h
  obtain ⟨n, hn⟩ : ∃ n, Arguments.steps ts = n + 1 := ⟨_, rfl⟩
  rw [hn] at h
  split at h
  · rename_i rest hlist
    cases h
    exact ⟨rest, listDerived_of_parseList (derived_of_parse last n).2 hlist⟩
  · cases h

/-- A list that is read was derived: the end is the only place where it may stop. -/
theorem exists_of_parse (hts : ∀ t ∈ ts, t.kind ≠ .eof) (he : e.kind = .eof)
    (h : (parse false (ts ++ [e])).2 = none) :
    ∃ t : ListTree, t.Derives (ts.map (·.kind)) := by
  obtain ⟨rest, ⟨t, front, hwf, -, hsplit, hfront⟩, hend⟩ := exists_listDerived (Prod.ext rfl h)
  refine ⟨t, ?_, hwf⟩
  rw [← hfront]
  rcases List.append_eq_append_iff.1 hsplit with ⟨past, rfl, hpast⟩ | ⟨left, rfl, rfl⟩
  · cases past with
    | nil => simp
    | cons x past =>
      -- the list would have been read past the end
      obtain ⟨rfl, -⟩ := List.cons_eq_cons.1 hpast
      refine absurd ?_ t.eof_not_mem
      rw [← hfront, ← he]
      simp
  · cases left with
    | nil => simp
    | cons x left =>
      refine absurd ?_ (hts x (by simp))
      exact kindAt_eq_eof hend

/-- **The grammar of argument lists.** Of tokens that end once, at their end, those are accepted
that have a well-formed derivation. They are read as what it denotes, and there is only one. -/
theorem parse_grammar (hts : ∀ t ∈ ts, t.kind ≠ .eof) (he : e.kind = .eof) :
    ((parse false (ts ++ [e])).2 = none ↔ ∃ t : ListTree, t.Derives (ts.map (·.kind))) ∧
    (∀ t : ListTree, t.Derives (ts.map (·.kind)) → parse false (ts ++ [e]) = (t.denote, none)) ∧
    ∀ t u : ListTree, t.yield = ts.map (·.kind) → u.yield = ts.map (·.kind) → t = u := by
  have hread : ∀ t : ListTree, t.Derives (ts.map (·.kind)) →
      parse false (ts ++ [e]) = (t.denote, none) := fun t ht => parse_of_yield he ht.2 ht.1
  refine ⟨⟨exists_of_parse hts he, ?_⟩, hread, ?_⟩
  · rintro ⟨t, ht⟩
    rw [hread t ht]
  · intro t u ht hu
    have hsame : t.yield ++ [] = u.yield ++ [] := by rw [ht, hu]
    have hend : Closes [] := trivial
    exact (ListTree.eq_of_yield t u hend hend hsame).1

/-- Tokens of `f(a, b="x"), k=￼`. -/
def nestedCall : List Token := [
  ⟨.text "f", ⟨0, 1⟩⟩, ⟨.parenOpen, ⟨1, 2⟩⟩, ⟨.text "a", ⟨2, 3⟩⟩, ⟨.comma, ⟨3, 4⟩⟩,
  ⟨.text "b", ⟨5, 6⟩⟩, ⟨.assign, ⟨6, 7⟩⟩, ⟨.quoted "x", ⟨7, 10⟩⟩, ⟨.parenClose, ⟨10, 11⟩⟩,
  ⟨.comma, ⟨11, 12⟩⟩, ⟨.text "k", ⟨13, 14⟩⟩, ⟨.assign, ⟨14, 15⟩⟩, ⟨.element 0, ⟨15, 18⟩⟩]

theorem parse_nestedCall : (∀ t ∈ nestedCall, t.kind ≠ .eof) ∧
    parse false (nestedCall ++ [⟨.eof, ⟨18, 18⟩⟩]) =
      (⟨some (.call "f" (some (.text "a")) [("b", .quoted "x")]), [("k", .element 0)]⟩, none) := by
  have hts : ∀ t ∈ nestedCall, t.kind ≠ .eof := by decide
  have hkey : IsKey "b" ∧ IsKey "k" := by decide
  have hderives : (ListTree.bare (.call "f" (.bare (.text "a") (.keyword "b" (.quoted "x") .empty)))
      (.keyword "k" (.element 0) .empty)).Derives (nestedCall.map (·.kind)) := by
    refine ⟨rfl, ⟨trivial, rfl, hkey.1, by simp [ListTree.keys], trivial, rfl, trivial⟩,
      rfl, hkey.2, by simp [ListTree.keys], trivial, rfl, trivial⟩
  exact ⟨hts, (parse_grammar hts rfl).2.1 _ hderives⟩

end Arguments
end Manuscript
