/-
# Escaped text reads back

The engine reads the text of a literal in two steps: it collapses runs of spaces, and then
decodes from left to right, where a backslash takes the character behind it along and a
doubled bracket or brace stands for one. Escaped text is read as the text it was made from,
without the medium marks.

The two steps do not get into each other's way. In escaped text no space stands next to a
space, since all but the first of a row have a backslash before them; so collapsing finds
nothing to do (`collapse_escapeChars`). And the decoder reads spelling by spelling
(`Spelling.read?_append`), as no spelling can be taken for the front of another one. The
same order shows that a double quote always has its own backslash: the backslashes right
before it are pairs and one more (`Guarded`).

Key definitions: `Script.collapse`, `Script.read?`, `Script.slashes`, `Script.Guarded`,
`Script.Readable`.
Key theorems: `Script.collapse_escapeChars`, `Script.Spells.read?_eq`,
`Script.Spells.guarded`, `Script.escape_readable`.
-/
import Mathlib.Algebra.Ring.Parity
import Mathlib.Data.List.Destutter
import Mathlib.Data.List.DropRight
import Manuscript.Proofs.Script.Literal

namespace Manuscript.Script

variable {c : Char} {cs ds unit written : List Char}

/-! ### Rows of spaces -/

/-- The two characters are not both spaces. -/
def Apart (a b : Char) : Prop := ¬ (a = ' ' ∧ b = ' ')

instance : DecidableRel Apart := fun a b => inferInstanceAs (Decidable (¬ (a = ' ' ∧ b = ' ')))

/-- The text with each row of spaces collapsed to one space. -/
def collapse (cs : List Char) : List Char := cs.destutter Apart

example : collapse "a   b c ".toList = "a b c ".toList := by decide

/-- Protected spaces stand apart, also from a space before the text. -/
theorem isChain_protectSpaces : ∀ (cs : List Char) (behindSpace : Bool),
    (protectSpaces behindSpace cs).IsChain Apart ∧
      (behindSpace = true → ∀ d ∈ (protectSpaces behindSpace cs).head?, d ≠ ' ')
  | [], _ => ⟨.nil, by simp [protectSpaces]⟩
  | c :: cs, behindSpace => by
    obtain ⟨hspaced, hhead⟩ := isChain_protectSpaces cs true
    have hspace : (' ' :: protectSpaces true cs).IsChain Apart :=
      List.isChain_cons.2 ⟨fun d hd hboth => hhead rfl d hd hboth.2, hspaced⟩
    rw [protectSpaces]
    by_cases hc : c = ' '
    · cases behindSpace with
      | false => simpa [hc] using hspace
      | true =>
        have hslash : ('\\' :: ' ' :: protectSpaces true cs).IsChain Apart :=
          List.isChain_cons_cons.2 ⟨fun hboth => absurd hboth.1 (by decide), hspace⟩
        simpa [hc] using hslash
    · rw [if_neg hc]
      obtain ⟨hrest, -⟩ := isChain_protectSpaces cs false
      refine ⟨List.isChain_cons.2 ⟨fun d _ hboth => hc hboth.1, hrest⟩, fun _ d hd => ?_⟩
      rw [List.head?_cons, Option.mem_some_iff] at hd
      exact hd ▸ hc

/-- **Escaped text has no row of spaces to collapse.** -/
theorem collapse_escapeChars (cs : List Char) : collapse (escapeChars cs) = escapeChars cs :=
  List.destutter_of_isChain _ _ (isChain_protectSpaces _ false).1

/-! ### Decoding -/

/-- The text that the engine decodes from left to right; none if a backslash has nothing to take
along. -/
def read? : List Char → Option (List Char)
  | [] => some []
  | [c] => if c = '\\' then none else some [c]
  | c :: d :: rest =>
    if c = '\\' then (read? rest).map ((if d = 'n' then '\n' else d) :: ·)
    else if (c = '[' ∨ c = '\x7b') ∧ d = c then (read? rest).map (c :: ·)
    else (read? (d :: rest)).map (c :: ·)

/-- **A spelling is read as its character**, whatever follows it. -/
theorem Spelling.read?_append (h : Spelling c unit) (rest : List Char) :
    read? (unit ++ rest) = (read? rest).map (c :: ·) := by
  cases h with
  | itself hslash _ _ hbracket hbrace =>
    cases rest with
    | nil => simp [read?, hslash]
    | cons d rest => simp [read?, hslash, hbracket, hbrace]
  | twice hc => rcases hc with rfl | rfl <;> simp [read?]
  | behind hn => simp [read?, hn]
  | line hc => simp [read?, hc]

theorem Spells.read?_eq (h : Spells cs written) : read? written = some cs := by
  induction h with
  | nil => rfl
  | cons hunit _ ih => rw [hunit.read?_append, ih, Option.map_some]

/-! ### Backslashes before quotes -/

/-- The number of backslashes at the end of the text. -/
def slashes (cs : List Char) : Nat := (cs.rtakeWhile (· == '\\')).length

/-- Pairs of backslashes at the end of a text do not matter to what follows. -/
theorem even_slashes_append (h : Even (slashes cs)) :
    Even (slashes (cs ++ ds)) ↔ Even (slashes ds) := by
  unfold slashes List.rtakeWhile at h ⊢
  simp only [List.length_reverse, List.reverse_append, List.takeWhile_append] at h ⊢
  split
  · -- What follows is backslashes only, so those at the end of the text go on in it.
    rename_i hall
    rw [List.length_append, hall, List.length_reverse]
    exact Nat.even_add.trans (iff_true_right h)
  · rfl

/-- Every double quote has its own backslash, and so has what follows the text. -/
structure Guarded (cs : List Char) : Prop where
  /-- The backslashes right before a quote are pairs and one more. -/
  quotes : ∀ front back, cs = front ++ '"' :: back → Odd (slashes front)
  ends : Even (slashes cs)

theorem guarded_of_not_mem (hquote : '"' ∉ cs) (hends : Even (slashes cs)) : Guarded cs :=
  ⟨fun _ _ heq => absurd (by rw [heq]; simp) hquote, hends⟩

theorem Guarded.append (hc : Guarded cs) (hd : Guarded ds) : Guarded (cs ++ ds) := by
  refine ⟨fun front back heq => ?_, (even_slashes_append hc.ends).2 hd.ends⟩
  rcases List.append_eq_append_iff.1 heq with ⟨mid, rfl, hmid⟩ | ⟨mid, rfl, hmid⟩
  · rw [← Nat.not_even_iff_odd, even_slashes_append hc.ends, Nat.not_even_iff_odd]
    exact hd.quotes mid back hmid
  · cases mid with
    | nil =>
      -- The quote is the first character behind the text, with no backslash of its own.
      have hodd := hd.quotes [] back hmid.symm
      exact absurd hodd (by decide)
    | cons d mid =>
      obtain ⟨rfl, -⟩ := List.cons.inj hmid
      exact hc.quotes front mid rfl

theorem Spelling.guarded (h : Spelling c unit) : Guarded unit := by
  cases h with
  | itself hslash hquote =>
    exact guarded_of_not_mem (by simpa using hquote.symm)
      (by simp [slashes, List.rtakeWhile, hslash])
  | twice hc => rcases hc with rfl | rfl <;> exact guarded_of_not_mem (by decide) (by decide)
  | behind =>
    refine ⟨fun front back heq => ?_, ?_⟩
    · -- Only the character behind the backslash can be the quote.
      rcases front with _ | ⟨d, _ | ⟨e, front⟩⟩
      · simp at heq
      · obtain ⟨rfl, -⟩ := List.cons.inj heq
        decide
      · simp at heq
    · by_cases hc : c = '\\'
      · subst hc
        decide
      · simp [slashes, List.rtakeWhile, hc]
  | line => exact guarded_of_not_mem (by decide) (by decide)

theorem Spells.guarded (h : Spells cs written) : Guarded written := by
  induction h with
  | nil => exact guarded_of_not_mem (by simp) (by decide)
  | cons hunit _ ih => exact hunit.guarded.append ih

/-! ### The whole reading -/

/-- What stands in a literal is read as the text, and it neither closes the literal, nor breaks the
line, nor takes the closing quote along. -/
structure Readable (text written : List Char) : Prop extends Guarded written where
  reads : read? (collapse written) = some text
  line : '\n' ∉ written

/-- **Escaped text reads back** as the text without its medium marks. -/
theorem escape_readable (s : String) :
    Readable (s.toList.filter (· ≠ elementMark)) (escape s).toList := by
  have hspells := spells_escapeChars s.toList
  rw [escape, String.toList_ofList]
  exact
    { toGuarded := hspells.guarded
      reads := by rw [collapse_escapeChars, hspells.read?_eq]
      line := hspells.inert.line }

end Manuscript.Script
