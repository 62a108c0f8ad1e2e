/-
# Rows of spaces in markup

The engine collapses rows of spaces before it decodes a text. Escaping keeps the spaces of one run
apart, and a run in tags has a brace at each of its ends. So two spaces can stand next to each other
only where a run without tags ends in a space and the next run that is written has no tags either and
starts with one (`Script.row_markup_iff`). In a text whose neighbours differ in style this takes a
run between them of which nothing is left: one of medium marks only (`Script.meet_iff_overMarks`).

At such a place the text is changed by the collapsing: the decoder reads at most as many spaces as
the text has (`Script.count_of_decode?`), and markup has as many as the styled text
(`Script.SignsWritten.count_space`), so a space that is collapsed is missing. Anywhere else nothing
is collapsed. The two spaces need not both be unescaped: the last one of a longer row in a run stands
behind a backslash.

Key definitions: `Script.Row`, `Script.EndsInSpace`, `Script.Free`, `Script.Next`, `Script.Meet`,
`Script.OverMarks`, `Run.EndsInSpace`, `Run.StartsWithSpace`.
Key theorems: `Script.row_append`, `Script.row_markup_iff`, `Script.endsInSpace_escapeChars_iff`,
`Script.decode?_collapse_iff`, `Script.spaces_survive_iff`.
-/
import Manuscript.Proofs.Document.Styled
import Manuscript.Proofs.Script.Escape
import Manuscript.Proofs.Script.Markup

namespace Manuscript

namespace Script

variable {p : List Char → Prop} {cs ds : List Char}

/-! ### Spaces next to each other -/

/-- Two spaces stand next to each other, behind a text of this kind. -/
def Row (p : List Char → Prop) (cs : List Char) : Prop :=
  ∃ front back, cs = front ++ ' ' :: ' ' :: back ∧ p front

/-- The text ends in a space, behind a text of this kind. -/
def EndsInSpace (p : List Char → Prop) (cs : List Char) : Prop := ∃ front, cs = front ++ [' '] ∧ p front

/-- What follows the text has no backslash of its own: those at the end of the text are pairs. -/
def Free (front : List Char) : Prop := Even (slashes front)

instance (front : List Char) : Decidable (Free front) := inferInstanceAs (Decidable (Even _))

theorem not_row_of_not_mem (h : ' ' ∉ cs) : ¬ Row p cs := by
  rintro ⟨front, back, rfl, -⟩
  simp at h

theorem endsInSpace_concat {c : Char} : EndsInSpace p (cs ++ [c]) ↔ c = ' ' ∧ p cs := by
  constructor
  · rintro ⟨front, heq, hp⟩
    obtain ⟨rfl, hc⟩ := List.append_inj' heq rfl
    exact ⟨by simpa using hc, hp⟩
  · rintro ⟨rfl, hp⟩
    exact ⟨cs, rfl, hp⟩

theorem not_endsInSpace_nil : ¬ EndsInSpace p [] := by
  rintro ⟨front, heq, -⟩
  simp at heq

/-- **Where two texts meet** a row can start in the first and end in the second. -/
theorem row_append (hp : ∀ es, p (cs ++ es) ↔ p es) : Row p (cs ++ ds) ↔
    Row p cs ∨ (EndsInSpace p cs ∧ ds.head? = some ' ') ∨ Row p ds := by
  constructor
  · rintro ⟨front, back, heq, hfront⟩
    rcases List.append_eq_append_iff.1 heq with ⟨mid, rfl, hds⟩ | ⟨mid, rfl, hmid⟩
    · exact .inr (.inr ⟨mid, back, hds, (hp mid).1 hfront⟩)
    · -- Of the two spaces none, one or both may be left in the first text.
      rcases mid with _ | ⟨c, _ | ⟨d, mid⟩⟩
      · have hnil : p [] := (hp []).1 (by simpa using hfront)
        exact .inr (.inr ⟨[], back, hmid.symm, hnil⟩)
      · obtain ⟨rfl, rfl⟩ := List.cons.inj hmid
        exact .inr (.inl ⟨⟨front, rfl, hfront⟩, rfl⟩)
      · obtain ⟨rfl, htail⟩ := List.cons.inj hmid
        obtain ⟨rfl, -⟩ := List.cons.inj htail
        exact .inl ⟨front, mid, rfl, hfront⟩
  · rintro (⟨front, back, rfl, hfront⟩ | ⟨⟨front, rfl, hfront⟩, hhead⟩ | ⟨front, back, rfl, hfront⟩)
    · exact ⟨front, back ++ ds, by simp, hfront⟩
    · obtain ⟨rest, rfl⟩ := List.head?_eq_some_iff.1 hhead
      exact ⟨front, rest, by simp, hfront⟩
    · exact ⟨cs ++ front, back, by simp, (hp front).2 hfront⟩

/-- **A text without rows is not collapsed.** -/
theorem isChain_apart_iff : ∀ {cs : List Char}, cs.IsChain Apart ↔ ¬ Row (fun _ => True) cs
  | [] => iff_of_true .nil (not_row_of_not_mem (by simp))
  | c :: cs => by
    have hone : ¬ Row (fun _ => True) [c] := by
      rintro ⟨front, back, heq, -⟩
      have hlength := congrArg List.length heq
      simp only [List.length_append, List.length_cons, List.length_nil] at hlength
      omega
    have hends : EndsInSpace (fun _ => True) [c] ↔ c = ' ' := by
      rw [← List.nil_append [c], endsInSpace_concat, and_true]
    have hrow : Row (fun _ => True) ([c] ++ cs) ↔ _ := row_append fun _ => Iff.rfl
    rw [← List.singleton_append, hrow, hends, or_iff_right hone, List.singleton_append, List.isChain_cons,
      isChain_apart_iff, not_or]
    refine and_congr_left fun _ => ⟨fun h hboth => h ' ' hboth.2 ⟨hboth.1, rfl⟩, ?_⟩
    rintro h d hd ⟨hc, rfl⟩
    exact h ⟨hc, hd⟩

/-! ### The ends of escaped text -/

/-- What is behind a text that was protected is protected as if it stood behind its last character. -/
theorem protectSpaces_append (cs ds : List Char) (behindSpace : Bool) :
    protectSpaces behindSpace (cs ++ ds) = protectSpaces behindSpace cs ++
      protectSpaces (cs.foldl (fun _ c => c == ' ') behindSpace) ds := by
  induction cs generalizing behindSpace with
  | nil => rfl
  | cons c cs ih =>
    rw [List.cons_append, protectSpaces, protectSpaces, List.foldl_cons]
    by_cases hc : c = ' '
    · cases behindSpace <;> simp [hc, ih]
    · rw [if_neg hc, if_neg hc, ih, beq_false_of_ne hc]
      rfl

theorem escapeChars_visible (cs : List Char) :
    escapeChars (cs.filter (· ≠ elementMark)) = escapeChars cs := by
  have hflat : (cs.filter (· ≠ elementMark)).flatMap escapeChar = cs.flatMap escapeChar := by
    induction cs with
    | nil => rfl
    | cons c cs ih =>
      by_cases hc : c = elementMark
      · subst hc
        have hnone : escapeChar elementMark = [] := by decide
        rw [List.filter_cons_of_neg (by simp), ih, List.flatMap_cons, hnone, List.nil_append]
      · rw [List.filter_cons_of_pos (by simpa using hc), List.flatMap_cons, ih, List.flatMap_cons]
  rw [escapeChars, hflat, escapeChars]

/-- Only a space is escaped to a text with a space. -/
theorem space_not_mem_escapeChar {c : Char} (hspace : c ≠ ' ') : ' ' ∉ escapeChar c := by
  fun_cases escapeChar c with
  | case9 => simpa using hspace.symm
  | _ => decide

theorem escapeChar_ne_nil {c : Char} (hmark : c ≠ elementMark) : escapeChar c ≠ [] := by
  fun_cases escapeChar c with
  | case8 _ _ _ _ _ _ _ h => exact absurd h hmark
  | _ => exact List.cons_ne_nil _ _

/-- A character that is no space is escaped to a text that starts and ends with none. -/
theorem exists_escapeChar_eq {c : Char} (hmark : c ≠ elementMark) (hspace : c ≠ ' ') :
    (∃ front d, escapeChar c = front ++ [d] ∧ d ≠ ' ') ∧
      (∃ d back, escapeChar c = d :: back ∧ d ≠ ' ') := by
  have hmem : ∀ d ∈ escapeChar c, d ≠ ' ' := fun d hd heq => space_not_mem_escapeChar hspace (heq ▸ hd)
  constructor
  · rcases List.eq_nil_or_concat' (escapeChar c) with hnil | ⟨front, d, hescape⟩
    · exact absurd hnil (escapeChar_ne_nil hmark)
    · exact ⟨front, d, hescape, hmem d (by simp [hescape])⟩
  · obtain ⟨d, back, hescape⟩ := List.exists_cons_of_ne_nil (escapeChar_ne_nil hmark)
    exact ⟨d, back, hescape, hmem d (by simp [hescape])⟩

theorem foldl_escapeChar (hmark : elementMark ∉ cs) :
    (cs.flatMap escapeChar).foldl (fun _ c => c == ' ') false = (cs.getLast? == some ' ') := by
  rcases List.eq_nil_or_concat' cs with rfl | ⟨cs, c, rfl⟩
  · rfl
  · rw [List.flatMap_append, List.foldl_append, List.flatMap_singleton, List.getLast?_concat]
    by_cases hspace : c = ' '
    · subst hspace
      rfl
    · have hc : c ≠ elementMark := fun heq => hmark (by simp [heq])
      obtain ⟨⟨front, d, hescape, hd⟩, -⟩ := exists_escapeChar_eq hc hspace
      rw [hescape, List.foldl_append]
      simp [hd, hspace]

/-- **Escaped text ends in a space** if the text does, and the space has a backslash if another one
stands before it. -/
theorem endsInSpace_escapeChars_iff (hmark : elementMark ∉ cs) :
    EndsInSpace p (escapeChars cs) ↔ EndsInSpace (fun front =>
      p (escapeChars front ++ if front.getLast? = some ' ' then ['\\'] else [])) cs := by
  rcases List.eq_nil_or_concat' cs with rfl | ⟨cs, c, rfl⟩
  · exact iff_of_false not_endsInSpace_nil not_endsInSpace_nil
  · have hcs : elementMark ∉ cs := fun h => hmark (List.mem_append_left _ h)
    rw [endsInSpace_concat, escapeChars, List.flatMap_append, List.flatMap_singleton,
      protectSpaces_append, foldl_escapeChar hcs, ← escapeChars]
    by_cases hspace : c = ' '
    · subst hspace
      have hlast : protectSpaces (cs.getLast? == some ' ') (escapeChar ' ') =
          (if cs.getLast? = some ' ' then ['\\'] else []) ++ [' '] := by
        by_cases h : cs.getLast? = some ' '
        · rw [if_pos h, h]
          rfl
        · rw [if_neg h, beq_false_of_ne h]
          rfl
      rw [hlast, ← List.append_assoc, endsInSpace_concat]
    · have hc : c ≠ elementMark := fun heq => hmark (by simp [heq])
      obtain ⟨⟨front, d, hescape, hd⟩, -⟩ := exists_escapeChar_eq hc hspace
      have hlast : ∀ b, protectSpaces b [d] = [d] := fun b => by rw [protectSpaces, if_neg hd]; rfl
      rw [hescape, protectSpaces_append, hlast, ← List.append_assoc, endsInSpace_concat]
      exact iff_of_false (fun h => hd h.1) (fun h => hspace h.1)

theorem head?_protectSpaces (cs : List Char) : (protectSpaces false cs).head? = cs.head? := by
  cases cs with
  | nil => rfl
  | cons c cs =>
    rw [protectSpaces]
    split
    · rename_i hc
      rw [hc]
      rfl
    · rfl

/-- **Escaped text starts with a space** if the text does. -/
theorem head?_escapeChars_iff (hmark : elementMark ∉ cs) :
    (escapeChars cs).head? = some ' ' ↔ cs.head? = some ' ' := by
  rw [escapeChars, head?_protectSpaces]
  cases cs with
  | nil => rfl
  | cons c cs =>
    rw [List.flatMap_cons, List.head?_cons]
    by_cases hspace : c = ' '
    · subst hspace
      exact iff_of_true rfl rfl
    · have hc : c ≠ elementMark := fun heq => hmark (by simp [heq])
      obtain ⟨-, d, back, hescape, hd⟩ := exists_escapeChar_eq hc hspace
      rw [hescape]
      simp [hd, hspace]

/-! ### Runs that meet -/

/-- The first runs are medium marks only, and the one behind them is of this kind. -/
def Next (q : Run → Prop) (rs : List Run) : Prop :=
  ∃ marks r back, rs = marks ++ r :: back ∧ (∀ m ∈ marks, m.visible = []) ∧ q r

/-- A run of the first kind, and behind it one of the second, with at most medium marks between. -/
def Meet (p q : Run → Prop) (rs : List Run) : Prop :=
  ∃ front r back, rs = front ++ r :: back ∧ p r ∧ Next q back

section Runs

variable {q : Run → Prop} {r : Run} {rs : List Run}

theorem next_cons : Next q (r :: rs) ↔ q r ∨ (r.visible = [] ∧ Next q rs) := by
  constructor
  · rintro ⟨_ | ⟨m, marks⟩, r', back, heq, hmarks, hq⟩
    · obtain ⟨rfl, rfl⟩ := List.cons.inj heq
      exact .inl hq
    · obtain ⟨rfl, rfl⟩ := List.cons.inj heq
      obtain ⟨hr, hmarks⟩ := List.forall_mem_cons.1 hmarks
      exact .inr ⟨hr, marks, r', back, rfl, hmarks, hq⟩
  · rintro (hq | ⟨hr, marks, r', back, rfl, hmarks, hq⟩)
    · exact ⟨[], r, rs, rfl, List.forall_mem_nil _, hq⟩
    · exact ⟨r :: marks, r', back, rfl, List.forall_mem_cons.2 ⟨hr, hmarks⟩, hq⟩

theorem meet_cons {p : Run → Prop} : Meet p q (r :: rs) ↔ (p r ∧ Next q rs) ∨ Meet p q rs := by
  constructor
  · rintro ⟨_ | ⟨m, front⟩, r', back, heq, hp, hq⟩
    · obtain ⟨rfl, rfl⟩ := List.cons.inj heq
      exact .inl ⟨hp, hq⟩
    · obtain ⟨rfl, rfl⟩ := List.cons.inj heq
      exact .inr ⟨front, r', back, rfl, hp, hq⟩
  · rintro (⟨hp, hq⟩ | ⟨front, r', back, rfl, hp, hq⟩)
    · exact ⟨[], r, rs, rfl, hp, hq⟩
    · exact ⟨r :: front, r', back, rfl, hp, hq⟩

theorem meet_congr {p p' q' : Run → Prop} (hp : ∀ r, p r ↔ p' r) (hq : ∀ r, q r ↔ q' r) :
    Meet p q rs ↔ Meet p' q' rs := by
  simp only [Meet, Next, hp, hq]

end Runs

/-! ### Runs and their tags -/

theorem visible_not_mem (r : Run) : elementMark ∉ r.visible := by
  simp [Run.visible]

theorem space_not_mem_braced {body : List Char} (h : ' ' ∉ body) : ' ' ∉ braced body := by
  simpa [braced] using h

theorem space_not_mem_openTags (s : Style) : ' ' ∉ (openTags s).toList := by
  rw [toList_openTags, List.mem_flatMap]
  rintro ⟨tag, -, h⟩
  exact space_not_mem_braced (not_mem_tag (by decide) (by decide) tag) h

theorem space_not_mem_closeTags (s : Style) : ' ' ∉ (closeTags s).toList := by
  rw [toList_closeTags, List.mem_flatMap]
  rintro ⟨tag, -, h⟩
  exact space_not_mem_braced (by cases tag.name <;> decide) h

/-- A style without tags is the plain one. -/
theorem tagsOf_eq_nil_iff {s : Style} : tagsOf s = [] ↔ s = .plain := by
  constructor
  · intro h
    rw [← styleIn_tagsOf s, h]
    rfl
  · rintro rfl
    rfl

/-- A run in tags has a brace at each of its ends. -/
theorem exists_braced {r : Run} (hstyle : r.style ≠ .plain) (hr : r.visible ≠ []) :
    ∃ body, (markupRun r).toList = braced body := by
  obtain ⟨tag, tags, htags⟩ := List.exists_cons_of_ne_nil (mt tagsOf_eq_nil_iff.1 hstyle)
  rw [toList_markupRun, if_neg hr, toList_openTags, toList_closeTags, htags, List.reverse_cons,
    List.flatMap_cons, List.flatMap_append, List.flatMap_singleton]
  refine ⟨tag.body ++ ['\x7d'] ++ (tags.flatMap fun tag => braced tag.body) ++
    escapeChars r.text.toList ++ (tags.reverse.flatMap fun tag => braced tag.name.body) ++
    '\x7b' :: tag.name.body, ?_⟩
  simp [braced]

/-- A run without tags is its escaped text. -/
theorem toList_markupRun_plain {r : Run} (hstyle : r.style = .plain) :
    (markupRun r).toList = escapeChars r.visible := by
  have hnone := tagsOf_eq_nil_iff.2 hstyle
  rw [toList_markupRun, toList_openTags, toList_closeTags, hnone, Run.visible, escapeChars_visible]
  split
  · rename_i hr
    rw [← escapeChars_visible, hr]
    rfl
  · simp

theorem toList_markupRun_eq_nil_iff (r : Run) : (markupRun r).toList = [] ↔ r.visible = [] := by
  rw [toList_markupRun]
  split
  · rename_i hr
    exact iff_of_true rfl hr
  · rename_i hr
    refine iff_of_false (fun hnil => hr ?_) hr
    have hescaped := (List.append_eq_nil_iff.1 (List.append_eq_nil_iff.1 hnil).2).1
    exact (spells_escapeChars r.text.toList).eq_nil_iff.1 hescaped

/-- **A run ends in a space** if it has no tags and its text does. -/
theorem endsInSpace_markupRun_iff (r : Run) : EndsInSpace p (markupRun r).toList ↔
    r.style = .plain ∧ EndsInSpace (fun front =>
      p (escapeChars front ++ if front.getLast? = some ' ' then ['\\'] else [])) r.visible := by
  by_cases hstyle : r.style = .plain
  · rw [toList_markupRun_plain hstyle, endsInSpace_escapeChars_iff (visible_not_mem r), and_iff_right hstyle]
  · refine iff_of_false (fun h => ?_) fun h => hstyle h.1
    by_cases hr : r.visible = []
    · rw [toList_markupRun, if_pos hr] at h
      exact not_endsInSpace_nil h
    · obtain ⟨body, hbody⟩ := exists_braced hstyle hr
      rw [hbody, braced, ← List.cons_append, endsInSpace_concat] at h
      exact absurd h.1 (by decide)

/-- **A run starts with a space** if it has no tags and its text does. -/
theorem head?_markupRun_iff (r : Run) : (markupRun r).toList.head? = some ' ' ↔
    r.style = .plain ∧ r.visible.head? = some ' ' := by
  by_cases hstyle : r.style = .plain
  · rw [toList_markupRun_plain hstyle, head?_escapeChars_iff (visible_not_mem r), and_iff_right hstyle]
  · refine iff_of_false (fun h => ?_) fun h => hstyle h.1
    by_cases hr : r.visible = []
    · rw [toList_markupRun, if_pos hr] at h
      cases h
    · obtain ⟨body, hbody⟩ := exists_braced hstyle hr
      rw [hbody] at h
      exact absurd h (by simp [braced])

/-- **A run has no row of spaces.** -/
theorem not_row_markupRun (r : Run) : ¬ Row (fun _ => True) (markupRun r).toList := by
  have hescaped : ¬ Row (fun _ => True) (escapeChars r.text.toList) :=
    isChain_apart_iff.1 (isChain_protectSpaces _ false).1
  rw [toList_markupRun]
  split
  · exact not_row_of_not_mem (by simp)
  · have hopen : ¬ EndsInSpace (fun _ => True) (openTags r.style).toList := by
      rintro ⟨front, heq, -⟩
      exact space_not_mem_openTags r.style (by simp [heq])
    have hclose : (closeTags r.style).toList.head? ≠ some ' ' :=
      fun hhead => space_not_mem_closeTags r.style (List.mem_of_mem_head? hhead)
    rw [row_append fun _ => Iff.rfl, row_append fun _ => Iff.rfl]
    rintro (h | h | h | h | h)
    · exact not_row_of_not_mem (space_not_mem_openTags r.style) h
    · exact hopen h.1
    · exact hescaped h
    · exact hclose h.2
    · exact not_row_of_not_mem (space_not_mem_closeTags r.style) h

/-! ### Whole texts -/

theorem next_markup_iff (rs : List Run) : (rs.flatMap fun r => (markupRun r).toList).head? = some ' ' ↔
    Next (fun r => (markupRun r).toList.head? = some ' ') rs := by
  induction rs with
  | nil =>
    refine iff_of_false (by simp) ?_
    rintro ⟨marks, r, back, heq, -⟩
    simp at heq
  | cons r rs ih =>
    rw [List.flatMap_cons, next_cons, ← ih]
    by_cases hr : r.visible = []
    · rw [(toList_markupRun_eq_nil_iff r).2 hr]
      simp [hr]
    · have hne := mt (toList_markupRun_eq_nil_iff r).1 hr
      rw [List.head?_append_of_ne_nil _ hne]
      simp [hr]

/-- **A row of spaces in markup** goes from one run to the next that is written. -/
theorem row_markup_iff (hp : ∀ r ds, p ((markupRun r).toList ++ ds) ↔ p ds) (rs : List Run) :
    Row p (rs.flatMap fun r => (markupRun r).toList) ↔
      Meet (fun r => EndsInSpace p (markupRun r).toList)
        (fun r => (markupRun r).toList.head? = some ' ') rs := by
  induction rs with
  | nil =>
    refine iff_of_false (not_row_of_not_mem (by simp)) ?_
    rintro ⟨front, r, back, heq, -⟩
    simp at heq
  | cons r rs ih =>
    have hrun : ¬ Row p (markupRun r).toList :=
      fun ⟨front, back, heq, _⟩ => not_row_markupRun r ⟨front, back, heq, trivial⟩
    rw [List.flatMap_cons, row_append (hp r), or_iff_right hrun, ih, next_markup_iff, meet_cons]

/-! ### Counting spaces -/

theorem SignWritten.count_space {s : Sign} {unit : List Char} (h : SignWritten s unit) :
    unit.count ' ' = if s = .char ' ' then 1 else 0 := by
  have hbraced {body : List Char} (hbody : ' ' ∉ body) : (braced body).count ' ' = 0 :=
    List.count_eq_zero.2 (space_not_mem_braced hbody)
  cases h with
  | char hunit =>
    cases hunit with
    | itself => simp [List.count_singleton]
    | twice hc => rcases hc with rfl | rfl <;> decide
    | behind => simp [List.count_cons]
    | line hc => simp [hc]
  | opens tag => exact hbraced (not_mem_tag (by decide) (by decide) tag)
  | closes name => exact hbraced (by cases name <;> decide)

theorem SignWritten.even_slashes {s : Sign} {unit : List Char} (h : SignWritten s unit) :
    Even (slashes unit) := by
  have hbraced (body : List Char) : Even (slashes (braced body)) := by
    simp [slashes, braced, List.rtakeWhile]
  cases h with
  | char hunit => exact hunit.guarded.ends
  | opens tag => exact hbraced _
  | closes name => exact hbraced _

/-- Backslashes at the end of markup are pairs. -/
theorem SignsWritten.even_slashes {signs : List Sign} {written : List Char}
    (h : SignsWritten signs written) : Even (slashes written) := by
  induction h with
  | nil => decide
  | cons hunit _ ih => exact (even_slashes_append hunit.even_slashes).2 ih

/-- **Markup has as many spaces as its signs.** -/
theorem SignsWritten.count_space {signs : List Sign} {written : List Char}
    (h : SignsWritten signs written) : written.count ' ' = signs.count (.char ' ') := by
  induction h with
  | nil => rfl
  | cons hunit _ ih =>
    rw [List.count_append, List.count_cons, hunit.count_space, ih, Nat.add_comm]
    simp

theorem tagOf?_ne_char {body : List Char} {c : Char} : tagOf? body ≠ some (.char c) := by
  unfold tagOf?
  split_ifs <;> simp

/-- A sign takes the spaces that it is read from. -/
theorem count_of_sign? {c : Char} {rest : List Char} {s : Sign} (h : sign? c cs = some (s, rest)) :
    (if s = .char ' ' then 1 else 0) + rest.count ' ' ≤ (c :: cs).count ' ' := by
  obtain ⟨d, rfl, rfl, rfl⟩ | ⟨-, rfl, rfl⟩ | ⟨body, rfl, rfl, htag⟩ | ⟨rfl, rfl⟩ := exists_of_sign? h
  · by_cases hd : d = ' '
    · simp [hd]
      omega
    · have hne : (if d = 'n' then '\n' else d) ≠ ' ' := by
        split
        · decide
        · exact hd
      simp [hne, List.count_cons]
  · simp only [List.count_cons, beq_iff_eq, Sign.char.injEq]
    omega
  · rw [if_neg (fun heq => tagOf?_ne_char (heq ▸ htag)), Nat.zero_add]
    have hrest : rest.Sublist (body ++ '\x7d' :: rest) :=
      (List.sublist_cons_self _ rest).trans (List.sublist_append_right body _)
    exact (hrest.cons '\x7b').count_le ' '
  · simp only [List.count_cons, beq_iff_eq, Sign.char.injEq]
    omega

theorem count_of_signs? {signs : List Sign} (h : signs? cs = some signs) :
    signs.count (.char ' ') ≤ cs.count ' ' := by
  fun_induction signs? cs generalizing signs with
  | case1 =>
    cases h
    exact Nat.le_refl 0
  | case2 => cases h
  | case3 c cs s rest hsign ih =>
    obtain ⟨signs, hrest, rfl⟩ := Option.map_eq_some_iff.1 h
    have hstep := count_of_sign? hsign
    have hle := ih hrest
    simp only [List.count_cons, beq_iff_eq] at hstep ⊢
    omega

theorem count_of_paint {tags : List Tag} {signs : List Sign} {out : List (Char × Style) × List Tag}
    (h : paint tags signs = some out) : (out.1.map (·.1)).count ' ' = signs.count (.char ' ') := by
  fun_induction paint tags signs generalizing out with
  | case1 =>
    cases h
    rfl
  | case2 tags c rest ih =>
    obtain ⟨out, hrest, rfl⟩ := Option.map_eq_some_iff.1 h
    have hcount := ih hrest
    simp only [List.map_cons, List.count_cons, hcount, beq_iff_eq, Sign.char.injEq]
  | case3 tags tag rest ih => rw [ih h, List.count_cons_of_ne (by simp)]
  | case4 => cases h
  | case5 _ _ _ ih => rw [ih h, List.count_cons_of_ne (by simp)]
  | case6 => cases h

/-- **Decoding makes no spaces.** -/
theorem count_of_decode? {out : List (Char × Style) × List Tag} (h : decode? cs = some out) :
    (out.1.map (·.1)).count ' ' ≤ cs.count ' ' := by
  obtain ⟨signs, hsigns, hpaint⟩ := Option.bind_eq_some_iff.1 h
  rw [count_of_paint hpaint]
  exact count_of_signs? hsigns

/-- **Collapsing takes spaces away.** -/
theorem count_collapse_lt (h : ¬ cs.IsChain Apart) : (collapse cs).count ' ' < cs.count ' ' := by
  cases cs with
  | nil => exact absurd .nil h
  | cons c cs =>
    unfold collapse
    rw [List.destutter_cons']
    induction cs generalizing c with
    | nil => exact absurd (.singleton c) h
    | cons d cs ih =>
      by_cases hcd : Apart c d
      · have hrest : ¬ (d :: cs).IsChain Apart := fun hrest => h (List.isChain_cons_cons.2 ⟨hcd, hrest⟩)
        have hlt := ih d hrest
        rw [List.destutter'_cons_pos _ hcd, List.count_cons, List.count_cons]
        omega
      · have hle : (cs.destutter' Apart c).count ' ' ≤ (c :: cs).count ' ' :=
          (List.destutter'_sublist _ _ c).count_le ' '
        obtain ⟨rfl, rfl⟩ := not_not.1 hcd
        rw [List.destutter'_cons_neg _ hcd, List.count_cons_self]
        omega

/-- **The engine decodes the text** if it collapses nothing, and only then. -/
theorem decode?_collapse_iff (t : StyledText) : decode? (collapse (markup t).toList) =
    some (t.chars.filter (·.1 ≠ elementMark), []) ↔ (markup t).toList.IsChain Apart := by
  have hwritten := signsWritten_markup t
  have hpaint := paint_signs t
  constructor
  · intro hdecode
    by_contra hchain
    -- A space that is collapsed is missing in what is decoded.
    have hlt := count_collapse_lt hchain
    have hle := count_of_decode? hdecode
    have hchars := count_of_paint hpaint
    rw [hchars, ← hwritten.count_space] at hle
    omega
  · intro hchain
    rw [collapse, List.destutter_of_isChain _ _ hchain, decode?, hwritten.signs?_eq, Option.bind_some,
      hpaint]

/-! ### Texts whose neighbours differ in style -/

end Script

/-- The run has no tags and ends in a space, behind a text of this kind. -/
def Run.EndsInSpace (p : List Char → Prop) (r : Run) : Prop :=
  r.style = .plain ∧ Script.EndsInSpace p r.visible

/-- The run has no tags and starts with a space. -/
def Run.StartsWithSpace (r : Run) : Prop := r.style = .plain ∧ r.visible.head? = some ' '

namespace Script

theorem free_markupRun (r : Run) (ds : List Char) : Free ((markupRun r).toList ++ ds) ↔ Free ds :=
  even_slashes_append (signsWritten_markupRun r).even_slashes

/-- The last space of a text is unescaped if it is the first of its row. -/
theorem free_escapeChars_iff (front : List Char) :
    Free (escapeChars front ++ if front.getLast? = some ' ' then ['\\'] else []) ↔
      front.getLast? ≠ some ' ' := by
  have hpairs : Even (slashes (escapeChars front)) := (spells_escapeChars front).guarded.ends
  rw [Free, even_slashes_append hpairs]
  by_cases hlast : front.getLast? = some ' '
  · rw [if_pos hlast]
    exact iff_of_false (by decide) (not_not.2 hlast)
  · rw [if_neg hlast]
    exact iff_of_true (by decide) hlast

/-- **Unescaped spaces in a row** come from a run that ends in a single space. -/
theorem row_free_iff (t : StyledText) : Row Free (markup t).toList ↔
    Meet (Run.EndsInSpace fun front => front.getLast? ≠ some ' ') Run.StartsWithSpace t.runs := by
  rw [toList_markup, row_markup_iff free_markupRun]
  refine meet_congr (fun r => ?_) head?_markupRun_iff
  simp only [endsInSpace_markupRun_iff, free_escapeChars_iff]
  rfl

/-- **Spaces are collapsed** behind any run that ends in a space. -/
theorem isChain_markup_iff (t : StyledText) : (markup t).toList.IsChain Apart ↔
    ¬ Meet (Run.EndsInSpace fun _ => True) Run.StartsWithSpace t.runs := by
  rw [isChain_apart_iff, toList_markup, row_markup_iff (p := fun _ => True) fun _ _ => Iff.rfl]
  exact not_congr (meet_congr endsInSpace_markupRun_iff head?_markupRun_iff)

/-- A run of the first kind, and behind it one of the second, with runs between them that are medium
marks only. -/
def OverMarks (p q : Run → Prop) (rs : List Run) : Prop :=
  ∃ front r marks r' back, rs = front ++ r :: (marks ++ r' :: back) ∧ marks ≠ [] ∧
    (∀ m ∈ marks, m.visible = []) ∧ p r ∧ q r'

theorem not_overMarks {p q : Run → Prop} {rs : List Run} (h : ∀ r ∈ rs, r.visible ≠ []) :
    ¬ OverMarks p q rs := by
  rintro ⟨front, r, marks, r', back, rfl, hne, hmarks, -⟩
  obtain ⟨m, hm⟩ := List.exists_mem_of_ne_nil marks hne
  exact h m (by simp [hm]) (hmarks m hm)

/-- **Plain runs of a merged text** meet only over medium marks. -/
theorem meet_iff_overMarks {t : StyledText} (h : t.Merged) {p q : Run → Prop}
    (hp : ∀ r, p r → r.style = .plain) (hq : ∀ r, q r → r.style = .plain) :
    Meet p q t.runs ↔ OverMarks p q t.runs := by
  constructor
  · rintro ⟨front, r, _, hruns, hr, marks, r', back, rfl, hmarks, hr'⟩
    refine ⟨front, r, marks, r', back, hruns, ?_, hmarks, hr, hr'⟩
    -- Without a run between them they would be neighbours in one style.
    rintro rfl
    have hapart := h.apart
    rw [hruns, List.nil_append, List.map_append, List.map_cons, List.map_cons] at hapart
    have hne := (List.isChain_cons_cons.1 hapart.right_of_append).1
    exact hne ((hp r hr).trans (hq r' hr').symm)
  · rintro ⟨front, r, marks, r', back, hruns, -, hmarks, hr, hr'⟩
    exact ⟨front, r, _, hruns, hr, marks, r', back, rfl, hmarks, hr'⟩

/-- **Where rows of spaces survive.** In a text whose neighbours differ in style, unescaped spaces
stand in a row only where two plain runs meet over a run of medium marks, a single space before and
one behind it. And the engine decodes the text from what it collapsed unless plain runs meet so, any
number of spaces before the marks. -/
theorem spaces_survive_iff {t : StyledText} (h : t.Merged) :
    (Row Free (markup t).toList ↔ OverMarks
      (Run.EndsInSpace fun front => front.getLast? ≠ some ' ') Run.StartsWithSpace t.runs) ∧
    (decode? (collapse (markup t).toList) = some (t.chars.filter (·.1 ≠ elementMark), []) ↔
      ¬ OverMarks (Run.EndsInSpace fun _ => True) Run.StartsWithSpace t.runs) := by
  have hstarts : ∀ r : Run, r.StartsWithSpace → r.style = .plain := fun _ hr => hr.1
  have hends : ∀ (p : List Char → Prop) (r : Run), r.EndsInSpace p → r.style = .plain :=
    fun _ _ hr => hr.1
  rw [row_free_iff, decode?_collapse_iff, isChain_markup_iff, meet_iff_overMarks h (hends _) hstarts,
    meet_iff_overMarks h (hends _) hstarts]
  exact ⟨Iff.rfl, Iff.rfl⟩

/-- Spaces on both sides of text in tags, which has a medium mark. -/
def spacedByTags : StyledText :=
  ⟨[⟨"a  ", .plain⟩, ⟨" ￼b ", ⟨true, false, none⟩⟩, ⟨" c", .plain⟩]⟩

theorem spacedByTags_survive : spacedByTags.Merged ∧ ¬ Row Free (markup spacedByTags).toList ∧
    decode? (collapse (markup spacedByTags).toList) =
      some (spacedByTags.chars.filter (·.1 ≠ elementMark), []) := by
  have hmerged : spacedByTags.Merged := ⟨by decide, by decide⟩
  have hvisible : ∀ r ∈ spacedByTags.runs, r.visible ≠ [] := by decide
  obtain ⟨hrow, hdecode⟩ := spaces_survive_iff hmerged
  exact ⟨hmerged, mt hrow.1 (not_overMarks hvisible), hdecode.2 (not_overMarks hvisible)⟩

/-- Spaces on both sides of a medium mark in a style of its own. -/
def spacedByMark : StyledText :=
  ⟨[⟨"a ", .plain⟩, ⟨"￼", ⟨true, false, none⟩⟩, ⟨" b", .plain⟩]⟩

/-- A space is lost where nothing is left of the run between two others, its tags neither. -/
theorem spacedByMark_collapses : spacedByMark.Merged ∧ markup spacedByMark = "a  b" ∧
    Row Free (markup spacedByMark).toList ∧
    decode? (collapse (markup spacedByMark).toList) =
      some ([('a', .plain), (' ', .plain), ('b', .plain)], []) ∧
    spacedByMark.chars.filter (·.1 ≠ elementMark) =
      [('a', .plain), (' ', .plain), (' ', .plain), ('b', .plain)] := by
  have hmarkup : markup spacedByMark = "a  b" := by decide
  refine ⟨⟨by decide, by decide⟩, hmarkup, ?_, ?_, by decide⟩
  · rw [hmarkup]
    exact ⟨['a'], ['b'], rfl, by decide⟩
  · rw [hmarkup]
    decide +kernel

end Script
end Manuscript
