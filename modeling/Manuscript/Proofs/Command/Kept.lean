/-
# What is read before a fault is kept

Arguments are read one by one into those read before. A bare value is only taken into
an empty list, a keyword goes behind the others, and no keyword is taken twice; so each
argument keeps those before it (`Arguments.keeps_parseOne`), and reading on keeps them up
to the end or to the fault (`Arguments.of_parseMore`).

A list that is accepted is read in the same way when a comma and anything else follow it
(`Arguments.exists_parseMore`). What follows may add keywords or be a fault, at any depth
of nesting, and takes nothing away (`Arguments.parse_keeps`).

Key definitions: `Arguments.Keeps`, `Arguments.Unique`, `Command.argumentTokens`,
`Command.NameKept`.
Key theorems: `Arguments.keeps_parseOne`, `Arguments.exists_parseMore`,
`Arguments.unique_parse`, `Command.exists_parse?`, `Arguments.parse_keeps`.
-/
import Mathlib.Data.List.Nodup
import Manuscript.Proofs.Command.Grammar
import Manuscript.Proofs.Line.Cuts

namespace Manuscript

open Text (Span)

namespace Arguments

variable {last : Span} {nested : Bool} {args mid : Arguments} {steps : Nat} {ts rest : List Token}

/-! ### One argument more -/

/-- What was read stays: the bare value, and the keywords in front of any read later. -/
structure Keeps (before after : Arguments) : Prop where
  positional : after.positional = before.positional
  keywords : before.keywords <+: after.keywords

/-- No keyword is given twice. -/
def Unique (args : Arguments) : Prop := (args.keywords.map (·.1)).Nodup

theorem Keeps.refl (args : Arguments) : args.Keeps args := ⟨rfl, List.prefix_refl _⟩

theorem Keeps.trans {after : Arguments} (h : args.Keeps mid) (h' : mid.Keeps after) :
    args.Keeps after :=
  ⟨h'.positional.trans h.positional, h.keywords.trans h'.keywords⟩

/-- An argument behind others keeps them: it is a keyword, which goes behind the last one. -/
theorem keeps_parseOne (hne : args ≠ empty) (h : parseOne last args steps ts = .ok (mid, rest)) :
    args.Keeps mid ∧ mid ≠ empty := by
  cases steps with
  | zero => cases h
  | succ steps =>
    cases parseOne_eq_ok.1 h with
    | keyword _ _ => exact ⟨⟨rfl, List.prefix_append _ _⟩, by simp [empty]⟩
    | bare _ _ hadd => exact absurd (addPositional_eq_ok.1 hadd).1 hne

theorem unique_parseOne (hunique : args.Unique) (h : parseOne last args steps ts = .ok (mid, rest)) :
    mid.Unique := by
  cases steps with
  | zero => cases h
  | succ steps =>
    cases parseOne_eq_ok.1 h with
    | @keyword key _ _ _ _ v hkey _ =>
      have hnew : key ∉ args.keywords.map (·.1) := by
        rw [← has_eq_true, (checkKey_eq_ok.1 hkey).2]
        exact Bool.false_ne_true
      rw [Unique, List.map_append, List.map_singleton, ← List.concat_eq_append]
      exact List.Nodup.concat hnew hunique
    | bare _ _ hadd =>
      rw [(addPositional_eq_ok.1 hadd).2]
      exact List.nodup_nil

/-! ### Reading on -/

/-- What every argument preserves is preserved up to the end of the list, or up to a fault. -/
theorem of_parseMore {P : Arguments → Prop} (hone : ∀ {args mid : Arguments} {n : Nat}
      {ts rest : List Token}, parseOne last args n ts = .ok (mid, rest) → P args → P mid)
    (steps : Nat) : ∀ {args : Arguments} {ts : List Token}, P args →
      P (parseMore last nested steps args ts).1 := by
  induction steps with
  | zero => exact fun h => h
  | succ steps ih =>
    intro args ts h
    rw [parseMore]
    split
    · exact h
    · rename_i mid rest hread
      split
      · exact ih (hone hread h)
      · exact hone hread h

theorem keeps_parseMore (hne : args ≠ empty) : args.Keeps (parseMore last nested steps args ts).1 := by
  have hstep : ∀ {before mid : Arguments} {n : Nat} {ts rest : List Token},
      parseOne last before n ts = .ok (mid, rest) → args.Keeps before ∧ before ≠ empty →
      args.Keeps mid ∧ mid ≠ empty := by
    rintro before mid n ts rest hread ⟨hkeeps, hbefore⟩
    obtain ⟨hmore, hmid⟩ := keeps_parseOne hbefore hread
    exact ⟨hkeeps.trans hmore, hmid⟩
  exact (of_parseMore hstep steps ⟨.refl args, hne⟩).1

/-- **No keyword is given twice** in what is read of a list, be it malformed or not. -/
theorem unique_parse (nested : Bool) (ts : List Token) : (parse nested ts).1.Unique := by
  have hempty : empty.Unique := List.nodup_nil
  obtain ⟨last, hparse⟩ := exists_parseList nested ts
  rw [hparse, Arguments.steps, parseList]
  split
  · exact hempty
  · exact of_parseMore (fun hread hunique => unique_parseOne hunique hread) _ hempty

/-! ### A list that goes on -/

/-- Tokens that are accepted and do not hold the end are derived. -/
theorem exists_denote (hts : ∀ t ∈ ts, t.kind ≠ .eof) (h : parse false ts = (args, none)) :
    ∃ t : ListTree, t.Derives (ts.map (·.kind)) ∧ t.denote = args := by
  obtain ⟨rest, ⟨t, front, hwf, hdenote, rfl, hfront⟩, hend⟩ := exists_listDerived h
  cases rest with
  | nil => exact ⟨t, ⟨by rw [List.append_nil, hfront], hwf⟩, hdenote⟩
  | cons x rest => exact absurd (kindAt_eq_eof hend) (hts x (by simp))

/-- **A list that is accepted is read in the same way before a comma**, and then reading goes on
with what follows the comma. -/
theorem exists_parseMore (hne : ts ≠ []) (hts : ∀ t ∈ ts, t.kind ≠ .eof)
    (h : parse false ts = (args, none)) (a : Span) (more : List Token) : args ≠ empty ∧ ∃ last left,
      (parse false (ts ++ ⟨.comma, a⟩ :: more)).1 = (parseMore last false left args more).1 := by
  obtain ⟨t, ⟨hyield, hwf⟩, rfl⟩ := exists_denote hts h
  have ht : t ≠ .empty := by
    rintro rfl
    exact hne (List.map_eq_nil_iff.1 hyield.symm)
  refine ⟨?_, ?_⟩
  · cases t with
    | empty => exact absurd rfl ht
    | bare value rest => simp [ListTree.denote, ListTree.positional, empty]
    | keyword key value rest => simp [ListTree.denote, ListTree.keywords, empty]
  · obtain ⟨last, hparse⟩ := exists_parseList false (ts ++ ⟨.comma, a⟩ :: more)
    have hmore : ∃ left, parseMore last false (4 * (ts ++ ⟨.comma, a⟩ :: more).length + 3) .empty
        (ts ++ ⟨.comma, a⟩ :: more) = goOn last false left t.denote (⟨.comma, a⟩ :: more) :=
      parseMore_goesOn t ht hwf ⟨fun _ => rfl, fun _ _ => rfl⟩ hyield.symm (.inl rfl)
        (by rw [List.length_append]; omega)
    obtain ⟨left, hmore⟩ := hmore
    refine ⟨last, left, ?_⟩
    rw [hparse, Arguments.steps, parseList, if_neg (by simp [atEnd_eq_false ht hyield.symm]), hmore]
    rfl

end Arguments

/-! ### Commands -/

namespace Command

/-- The tokens of the arguments that start at byte `start` of a command's text. -/
def argumentTokens (interior : String) (start element : Nat) : List Token :=
  Token.scan start element (Text.dropBytes start interior.toList)

/-- What is read of a command whose name can be read: a command of this name, with the arguments
read before any fault, and one report exactly if there is a fault. -/
structure NameKept (name : String) (tokens : List Token) (c : Command) (ds : List Diagnostic) :
    Prop where
  name : c.name = name
  args : c.args = (Arguments.parse false tokens).1
  atMostOne : ds.length ≤ 1
  reported : ds ≠ [] ↔ (Arguments.parse false tokens).2 ≠ none

/-- **A command whose name can be read is read**, whatever is wrong with its arguments. -/
theorem exists_parse? {interior name : String} {start : Nat}
    (h : splitName? interior = some (name, start)) (loc : Loc) (element : Nat) :
    ∃ c ds, parse? interior loc element = some (c, ds) ∧
      NameKept name (argumentTokens interior start element) c ds := by
  obtain ⟨⟨nameChars, rest⟩, htake, hsplit⟩ := Option.map_eq_some_iff.1 h
  cases hsplit
  obtain ⟨between, hbetween, -⟩ := exists_eq_append_takeName? htake
  have hdrop : Text.dropBytes (Text.size interior.toList - Text.size rest) interior.toList = rest := by
    have hinterior : interior.toList =
        (interior.toList.takeWhile Text.isBlank ++ (nameChars ++ between)) ++ rest := by
      rw [List.append_assoc, List.append_assoc, ← hbetween, Text.takeWhile_append_trimStart]
    rw [hinterior, Text.size_append, Nat.add_sub_cancel, Text.dropBytes_append]
  simp only [argumentTokens, hdrop, parse?, htake, Option.bind_eq_bind, Option.bind_some]
  split
  · rename_i hnone
    exact ⟨_, _, rfl, rfl, rfl, by simp, by simp [hnone]⟩
  · rename_i f hsome
    exact ⟨_, _, rfl, rfl, rfl, by simp, by simp [hsome]⟩

end Command

namespace Arguments

/-- **What is read before a fault is kept.** Of a list that goes on behind a comma, everything that
was accepted before the comma is kept, and no keyword is given twice, whether the list is then
accepted or not. And a command is read whenever its name can be read. -/
theorem parse_keeps (ts more : List Token) (a : Span) (interior : String) (loc : Loc)
    (element : Nat) :
    (ts ≠ [] → (∀ t ∈ ts, t.kind ≠ .eof) → ∀ args, parse false ts = (args, none) →
      args.Keeps (parse false (ts ++ ⟨.comma, a⟩ :: more)).1 ∧
        (parse false (ts ++ ⟨.comma, a⟩ :: more)).1.Unique) ∧
    ∀ name start, Command.splitName? interior = some (name, start) →
      ∃ c ds, Command.parse? interior loc element = some (c, ds) ∧
        Command.NameKept name (Command.argumentTokens interior start element) c ds := by
  refine ⟨fun hne hts args h => ⟨?_, unique_parse _ _⟩,
    fun name start h => Command.exists_parse? h loc element⟩
  obtain ⟨hargs, last, left, hmore⟩ := exists_parseMore hne hts h a more
  rw [hmore]
  exact keeps_parseMore hargs

/-- Tokens of `a, k="x"`. -/
def oneKeyword : List Token := [
  ⟨.text "a", ⟨0, 1⟩⟩, ⟨.comma, ⟨1, 2⟩⟩, ⟨.text "k", ⟨3, 4⟩⟩, ⟨.assign, ⟨4, 5⟩⟩,
  ⟨.quoted "x", ⟨5, 8⟩⟩]

/-- Tokens of `k=f(`, which repeat a key and leave a call open. -/
def openCall : List Token := [
  ⟨.text "k", ⟨10, 11⟩⟩, ⟨.assign, ⟨11, 12⟩⟩, ⟨.text "f", ⟨12, 13⟩⟩, ⟨.parenOpen, ⟨13, 14⟩⟩]

theorem parse_keeps_oneKeyword : oneKeyword ≠ [] ∧ (∀ t ∈ oneKeyword, t.kind ≠ .eof) ∧
    parse false oneKeyword = (⟨some (.text "a"), [("k", .quoted "x")]⟩, none) ∧
    (parse false (oneKeyword ++ ⟨.comma, ⟨8, 9⟩⟩ :: openCall)).2.isSome = true ∧
    Keeps ⟨some (.text "a"), [("k", .quoted "x")]⟩
      (parse false (oneKeyword ++ ⟨.comma, ⟨8, 9⟩⟩ :: openCall)).1 ∧
    Command.splitName? "Show：k=" = some ("Show", 7) ∧
    ∃ c ds, Command.parse? "Show：k=" ⟨0, 0, 11⟩ 0 = some (c, ds) ∧ c.name = "Show" := by
  have hne : oneKeyword ≠ [] := by decide
  have hts : ∀ t ∈ oneKeyword, t.kind ≠ .eof := by decide
  have hread : parse false oneKeyword = (⟨some (.text "a"), [("k", .quoted "x")]⟩, none) := rfl
  have hname : Command.splitName? "Show：k=" = some ("Show", 7) := by decide
  obtain ⟨hkeeps, hnamed⟩ := parse_keeps oneKeyword openCall ⟨8, 9⟩ "Show：k=" ⟨0, 0, 11⟩ 0
  obtain ⟨c, ds, hparse, hkept⟩ := hnamed "Show" 7 hname
  exact ⟨hne, hts, hread, rfl, (hkeeps hne hts _ hread).1, hname, c, ds, hparse, hkept.name⟩

end Arguments
end Manuscript
