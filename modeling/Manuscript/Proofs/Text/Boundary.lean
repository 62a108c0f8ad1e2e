/-
# Cuts between characters

A part stands in a text at a byte offset if the text is something of that size,
the part, and something more. Whatever a scanner reads off the front of what is
left stands where the scanner is, so its spans can be cut out of the text
(`Text.Stands.slice?_eq`).

An offset is a boundary of a text if it lies between two characters, and between two
boundaries stands a part. Any other offset lies behind the text or cuts a character of it
in two (`Text.not_inside_iff`). Which offsets do so is told by the stretches of the text
one by one (`Text.inside_append`), and so are the cuts of a styled text by its runs: the
only fault is a cut inside a character (`StyledText.slice_eq_error`).

Key definitions: `Text.Stands`, `Text.Boundary`, `Text.Fits`, `Text.Inside`.
Key theorems: `Text.Stands.slice?_eq`, `Text.Fits.slice?_eq`, `Text.not_inside_iff`,
`StyledText.slice_eq_error`, `StyledText.yields_slice`, `StyledText.yields_trim`.
-/
import Manuscript.Document.Styled
import Manuscript.Proofs.Program.InRange
import Manuscript.Text.Blank

namespace Manuscript

namespace Text

variable {cs part a b : List Char} {pos m n : Nat}

/-! ### Parts of a text -/

/-- The part stands in the text at byte `pos`. -/
def Stands (cs : List Char) (pos : Nat) (part : List Char) : Prop :=
  ∃ before after, cs = before ++ (part ++ after) ∧ pos = size before

theorem Stands.self (cs : List Char) : Stands cs 0 cs := ⟨[], [], by simp, rfl⟩

theorem Stands.left (h : Stands cs pos (a ++ b)) : Stands cs pos a := by
  obtain ⟨before, after, rfl, rfl⟩ := h
  exact ⟨before, b ++ after, by simp, rfl⟩

theorem Stands.right (h : Stands cs pos (a ++ b)) : Stands cs (pos + size a) b := by
  obtain ⟨before, after, rfl, rfl⟩ := h
  exact ⟨before ++ a, after, by simp, by simp⟩

theorem Stands.tail {c : Char} (h : Stands cs pos (c :: b)) : Stands cs (pos + c.utf8Size) b := by
  have hright := Stands.right (a := [c]) h
  simpa using hright

/-- What stands in a part stands in the text. -/
theorem Stands.trans (h : Stands cs pos part) (ha : Stands part n a) : Stands cs (pos + n) a := by
  obtain ⟨before, after, rfl, rfl⟩ := ha
  exact h.right.left

theorem takeBytes_append : ∀ a b : List Char, takeBytes (size a) (a ++ b) = a
  | [], [] => rfl
  | [], c :: b => by
    have hc : ¬ c.utf8Size ≤ 0 := Nat.not_le_of_lt (Char.utf8Size_pos c)
    rw [List.nil_append, size_nil, takeBytes, if_neg hc]
  | c :: a, b => by
    rw [size_cons, List.cons_append, takeBytes, if_pos (Nat.le_add_right _ _),
      Nat.add_sub_cancel_left, takeBytes_append a b]

/-- A part can be cut out where it stands. -/
theorem Stands.slice?_eq (h : Stands cs pos part) :
    slice? cs ⟨pos, pos + size part⟩ = some part := by
  obtain ⟨before, after, rfl, rfl⟩ := h
  rw [slice?, if_pos (Nat.le_add_right _ _), splitAt?_append, Nat.add_sub_cancel_left]
  simp only [Option.bind_eq_bind, Option.bind_some, splitAt?_append]

theorem Stands.slice_eq (h : Stands cs pos part) : slice cs ⟨pos, pos + size part⟩ = part := by
  obtain ⟨before, after, rfl, rfl⟩ := h
  rw [slice, dropBytes_append, Nat.add_sub_cancel_left, takeBytes_append]

/-! ### Trimming -/

theorem takeWhile_append_trimStart (cs : List Char) : cs.takeWhile isBlank ++ trimStart cs = cs :=
  List.takeWhile_append_dropWhile

theorem Stands.trimStart (h : Stands cs pos part) :
    Stands cs (pos + (size part - size (trimStart part))) (Text.trimStart part) := by
  have hsize : size part = size (part.takeWhile isBlank) + size (Text.trimStart part) := by
    rw [← size_append, takeWhile_append_trimStart]
  rw [← takeWhile_append_trimStart part] at h
  rw [hsize, Nat.add_sub_cancel]
  exact h.right

/-- The end of a text stands where its size says. -/
theorem stands_of_eq_append (h : cs = a ++ b) : Stands cs (size cs - size b) b := by
  subst h
  rw [size_append, Nat.add_sub_cancel]
  exact ⟨a, [], by simp, rfl⟩

/-- Trimming the end takes blanks off. -/
theorem exists_eq_trimEnd_append (cs : List Char) :
    ∃ blanks, cs = trimEnd cs ++ blanks ∧ ∀ c ∈ blanks, isBlank c = true := by
  refine ⟨(cs.reverse.takeWhile isBlank).reverse, ?_, fun c hc => ?_⟩
  · rw [trimEnd, ← List.reverse_append, List.takeWhile_append_dropWhile, List.reverse_reverse]
  · exact List.all_eq_true.1 List.all_takeWhile c (List.mem_reverse.1 hc)

theorem Stands.trimEnd (h : Stands cs pos part) : Stands cs pos (Text.trimEnd part) := by
  obtain ⟨blanks, hpart, -⟩ := exists_eq_trimEnd_append part
  rw [hpart] at h
  exact h.left

/-! ### Boundaries -/

/-- The offset lies between two characters of the text, or at one of its ends. -/
def Boundary (cs : List Char) (n : Nat) : Prop :=
  ∃ before after, cs = before ++ after ∧ n = size before

theorem Stands.boundary (h : Stands cs pos part) : Boundary cs pos := by
  obtain ⟨before, after, rfl, rfl⟩ := h
  exact ⟨before, part ++ after, rfl, rfl⟩

theorem Stands.boundary_stop (h : Stands cs pos part) : Boundary cs (pos + size part) := by
  obtain ⟨before, after, rfl, rfl⟩ := h
  exact ⟨before ++ part, after, by simp, by simp⟩

theorem eq_nil_of_size (h : size cs = 0) : cs = [] := by
  cases cs with
  | nil => rfl
  | cons c cs =>
    have hc := Char.utf8Size_pos c
    rw [size_cons] at h
    omega

theorem Boundary.le (h : Boundary cs n) : n ≤ size cs := by
  obtain ⟨before, after, rfl, rfl⟩ := h
  rw [size_append]
  exact Nat.le_add_right _ _

/-- Between two boundaries stands a part. -/
theorem Boundary.exists_stands (hm : Boundary cs m) (hn : Boundary cs n) (hle : m ≤ n) :
    ∃ part, Stands cs m part ∧ n = m + size part := by
  obtain ⟨before, after, rfl, rfl⟩ := hm
  obtain ⟨before', after', heq, rfl⟩ := hn
  rcases List.append_eq_append_iff.1 heq with ⟨part, rfl, rfl⟩ | ⟨part, rfl, rfl⟩
  · exact ⟨part, ⟨before, after', rfl, rfl⟩, by simp⟩
  · -- the boundaries are in order, so the other case leaves nothing between them
    rw [size_append] at hle
    obtain rfl := eq_nil_of_size (show size part = 0 by omega)
    exact ⟨[], ⟨before', after, by simp, by simp⟩, by simp⟩

/-- A span lies in a text: its ends are in order, and between characters. -/
structure Fits (cs : List Char) (s : Span) : Prop where
  le : s.start ≤ s.stop
  start : Boundary cs s.start
  stop : Boundary cs s.stop

theorem Stands.fits (h : Stands cs pos part) : Fits cs ⟨pos, pos + size part⟩ :=
  ⟨Nat.le_add_right _ _, h.boundary, h.boundary_stop⟩

/-- A span that fits can be cut out, and the cut is the text of the span. -/
theorem Fits.slice?_eq {s : Span} (h : Fits cs s) : slice? cs s = some (slice cs s) := by
  obtain ⟨part, hstands, hstop⟩ := h.start.exists_stands h.stop h.le
  have hspan : s = ⟨s.start, s.start + size part⟩ := by rw [← hstop]
  rw [hspan, hstands.slice?_eq, hstands.slice_eq]

theorem splitAt?_eq_some : ∀ {n : Nat} {cs a b : List Char}, splitAt? n cs = some (a, b) →
    cs = a ++ b ∧ n = size a
  | 0, cs, a, b, h => by
    rw [splitAt?] at h
    cases h
    exact ⟨rfl, rfl⟩
  | n + 1, [], a, b, h => by cases h
  | n + 1, c :: cs, a, b, h => by
    rw [splitAt?] at h
    split at h
    · rename_i hle
      obtain ⟨⟨x, y⟩, hsplit, heq⟩ := Option.map_eq_some_iff.1 h
      cases heq
      obtain ⟨rfl, hsize⟩ := splitAt?_eq_some hsplit
      exact ⟨rfl, by rw [size_cons]; omega⟩
    · cases h

/-- What is cut out stands where it was cut out. -/
theorem stands_of_slice? {s : Span} (h : slice? cs s = some part) :
    Stands cs s.start part ∧ s.stop = s.start + size part := by
  unfold slice? at h
  split at h
  · rename_i hle
    obtain ⟨⟨before, rest⟩, hbefore, h⟩ := Option.bind_eq_some_iff.1 h
    obtain ⟨⟨mid, after⟩, hmid, h⟩ := Option.bind_eq_some_iff.1 h
    cases h
    obtain ⟨rfl, hstart⟩ := splitAt?_eq_some hbefore
    obtain ⟨rfl, hstop⟩ := splitAt?_eq_some hmid
    exact ⟨⟨before, after, rfl, hstart⟩, by omega⟩
  · cases h

/-! ### Inside a character -/

/-- The offset cuts a character of the text in two. -/
def Inside (cs : List Char) (n : Nat) : Prop :=
  ∃ before c after, cs = before ++ c :: after ∧ size before < n ∧ n < size before + c.utf8Size

theorem Inside.zero_lt (h : Inside cs n) : 0 < n := by
  obtain ⟨before, c, after, rfl, hlo, hhi⟩ := h
  omega

theorem Inside.lt_size (h : Inside cs n) : n < size cs := by
  obtain ⟨before, c, after, rfl, hlo, hhi⟩ := h
  rw [size_append, size_cons]
  omega

theorem inside_cons {c : Char} : Inside (c :: cs) n ↔
    (0 < n ∧ n < c.utf8Size) ∨ Inside cs (n - c.utf8Size) := by
  constructor
  · rintro ⟨before, d, after, heq, hlo, hhi⟩
    cases before with
    | nil =>
      obtain ⟨rfl, -⟩ := List.cons.inj heq
      exact .inl ⟨hlo, by simpa using hhi⟩
    | cons e before =>
      obtain ⟨rfl, rfl⟩ := List.cons.inj heq
      rw [size_cons] at hlo hhi
      exact .inr ⟨before, d, after, rfl, by omega, by omega⟩
  · rintro (⟨hlo, hhi⟩ | ⟨before, d, after, rfl, hlo, hhi⟩)
    · exact ⟨[], c, cs, rfl, hlo, by simpa using hhi⟩
    · exact ⟨c :: before, d, after, rfl, by rw [size_cons]; omega, by rw [size_cons]; omega⟩

/-- A character is cut in one stretch of the text or in the other. -/
theorem inside_append : ∀ {a b : List Char} {n : Nat},
    Inside (a ++ b) n ↔ Inside a n ∨ Inside b (n - size a)
  | [], b, n => by simp [Inside]
  | c :: a, b, n => by
    rw [List.cons_append, inside_cons, inside_append, inside_cons, size_cons, Nat.sub_sub, or_assoc]

theorem boundary_cons {c : Char} : Boundary (c :: cs) n ↔
    n = 0 ∨ c.utf8Size ≤ n ∧ Boundary cs (n - c.utf8Size) := by
  constructor
  · rintro ⟨before, after, heq, rfl⟩
    cases before with
    | nil => exact .inl rfl
    | cons d before =>
      obtain ⟨rfl, rfl⟩ := List.cons.inj heq
      rw [size_cons, Nat.add_sub_cancel_left]
      exact .inr ⟨Nat.le_add_right _ _, before, after, rfl, rfl⟩
  · rintro (rfl | ⟨hle, before, after, rfl, hsize⟩)
    · exact ⟨[], c :: cs, rfl, rfl⟩
    · exact ⟨c :: before, after, rfl, by rw [size_cons]; omega⟩

/-- **An offset cuts a character** unless it is a boundary or lies behind the text. -/
theorem not_inside_iff : ∀ {cs : List Char} {n : Nat},
    ¬ Inside cs n ↔ Boundary cs n ∨ size cs < n
  | [], n => by
    have hnone : ¬ Inside [] n := by simp [Inside]
    have hzero : Boundary [] n ↔ n = 0 := by simp [Boundary]
    rw [iff_true_left hnone, hzero, size_nil]
    omega
  | c :: cs, n => by
    have hc := Char.utf8Size_pos c
    rw [inside_cons, not_or, not_inside_iff, boundary_cons, size_cons]
    by_cases hle : c.utf8Size ≤ n
    · have hlt : size cs < n - c.utf8Size ↔ c.utf8Size + size cs < n := by omega
      have hne : n ≠ 0 := by omega
      simp [hle, hlt, hne]
    · have hlt : ¬ c.utf8Size + size cs < n := by omega
      have hzero : n - c.utf8Size = 0 := by omega
      have hboundary : Boundary cs 0 := ⟨[], cs, rfl, rfl⟩
      simp only [hle, hlt, hzero, hboundary, or_false, true_or, and_true]
      omega

theorem Boundary.not_inside (h : Boundary cs n) : ¬ Inside cs n := not_inside_iff.2 (.inl h)

/-- An offset behind the text may be held to its end. -/
theorem inside_min : Inside cs (min n (size cs)) ↔ Inside cs n := by
  rcases Nat.lt_or_ge n (size cs) with hlt | hge
  · rw [Nat.min_eq_left (Nat.le_of_lt hlt)]
  · rw [Nat.min_eq_right hge]
    exact iff_of_false (fun h => absurd h.lt_size (by omega)) (fun h => absurd h.lt_size (by omega))

/-- A part of the text cannot be cut out if one of its ends cuts a character. -/
theorem slice?_eq_none {s : Span} (hle : s.start ≤ s.stop) (hstop : s.stop ≤ size cs) :
    slice? cs s = none ↔ Inside cs s.start ∨ Inside cs s.stop := by
  constructor
  · intro hnone
    by_contra hclear
    rw [not_or, not_inside_iff, not_inside_iff] at hclear
    have hfits : Fits cs s :=
      ⟨hle, hclear.1.resolve_right (by omega), hclear.2.resolve_right (by omega)⟩
    rw [hfits.slice?_eq] at hnone
    cases hnone
  · intro hinside
    rw [Option.eq_none_iff_forall_ne_some]
    intro part hpart
    obtain ⟨hstands, hsize⟩ := stands_of_slice? hpart
    have hend := hstands.boundary_stop
    rw [← hsize] at hend
    rcases hinside with h | h
    · exact hstands.boundary.not_inside h
    · exact hend.not_inside h

end Text

/-! ### Styled text -/

namespace StyledText

open Text (Span Boundary Inside)

variable {s : Span} {fault : Fault}

/-- A run that starts at byte `offset` cannot be cut if the span ends in a character of it. -/
theorem cutRun_eq_error {offset : Nat} {r : Run} : cutRun s offset r = .error fault ↔
    fault = .offBoundary ∧ s.start < s.stop ∧
      (Inside r.text.toList (s.start - offset) ∨ Inside r.text.toList (s.stop - offset)) := by
  rw [cutRun]
  split
  · rename_i hlt
    have hlo : max s.start offset - offset = s.start - offset := by omega
    have hhi : min s.stop (offset + Text.size r.text.toList) - offset =
        min (s.stop - offset) (Text.size r.text.toList) := by omega
    have hstart : s.start < s.stop := by omega
    have hnone : Text.slice? r.text.toList
        ⟨s.start - offset, min (s.stop - offset) (Text.size r.text.toList)⟩ = none ↔
        Inside r.text.toList (s.start - offset) ∨ Inside r.text.toList (s.stop - offset) := by
      rw [Text.slice?_eq_none (by dsimp only; omega) (Nat.min_le_right _ _), Text.inside_min]
    rw [hlo, hhi, and_iff_right hstart, ← hnone]
    cases Text.slice? r.text.toList
      ⟨s.start - offset, min (s.stop - offset) (Text.size r.text.toList)⟩ with
    | none => simp [Fault.unless, bind, Except.bind, eq_comm]
    | some text => simp [Fault.unless, bind, Except.bind, pure, Except.pure]
  · rename_i hlt
    refine iff_of_false (by simp [pure, Except.pure]) ?_
    rintro ⟨-, hstart, h | h⟩
    · have hpos := h.zero_lt
      have hsize := h.lt_size
      omega
    · have hpos := h.zero_lt
      have hsize := h.lt_size
      omega

theorem sliceFrom_eq_error : ∀ {runs : List Run} {offset : Nat} {out : StyledText},
    sliceFrom s offset runs out = .error fault ↔ fault = .offBoundary ∧ s.start < s.stop ∧
      (Inside (runs.flatMap (·.text.toList)) (s.start - offset) ∨
        Inside (runs.flatMap (·.text.toList)) (s.stop - offset))
  | [], offset, out => by simp [sliceFrom, Inside]
  | r :: rest, offset, out => by
    simp only [List.flatMap_cons, Text.inside_append, Nat.sub_sub]
    rw [sliceFrom]
    cases hcut : cutRun s offset r with
    | error fault' =>
      obtain ⟨rfl, hlt, hinside⟩ := cutRun_eq_error.1 hcut
      simp only [bind, Except.bind, Except.error.injEq]
      constructor
      · rintro rfl
        exact ⟨rfl, hlt, hinside.imp .inl .inl⟩
      · rintro ⟨rfl, -⟩
        rfl
    | ok part =>
      have hclear : ¬ (s.start < s.stop ∧ (Inside r.text.toList (s.start - offset) ∨
          Inside r.text.toList (s.stop - offset))) := fun h => by
        rw [cutRun_eq_error.2 ⟨rfl, h⟩] at hcut
        cases hcut
      simp only [bind, Except.bind]
      rw [sliceFrom_eq_error]
      refine and_congr_right fun _ => and_congr_right fun hlt => ?_
      rw [and_iff_right hlt, not_or] at hclear
      simp only [hclear.1, hclear.2, false_or]

/-- **The only fault of a cut** is an end inside a character of the plain text. -/
theorem slice_eq_error {t : StyledText} : t.slice s = .error fault ↔
    fault = .offBoundary ∧ s.start < s.stop ∧
      (Inside t.plainChars s.start ∨ Inside t.plainChars s.stop) :=
  sliceFrom_eq_error

/-- Styled text can be cut unless an end of the span is inside a character. -/
theorem exists_slice {t : StyledText} (hstart : ¬ Inside t.plainChars s.start)
    (hstop : ¬ Inside t.plainChars s.stop) : ∃ u, t.slice s = .ok u := by
  cases h : t.slice s with
  | ok u => exact ⟨u, rfl⟩
  | error fault =>
    obtain ⟨-, -, hinside⟩ := slice_eq_error.1 h
    exact absurd hinside (not_or.2 ⟨hstart, hstop⟩)

/-- Styled text can be cut between boundaries of its plain text. -/
theorem yields_slice {t : StyledText} (h : Text.Fits t.plainChars s) :
    Yields (t.slice s) fun _ => True := by
  obtain ⟨u, hu⟩ := exists_slice h.start.not_inside h.stop.not_inside
  exact ⟨u, hu, trivial⟩

theorem yields_trim (t : StyledText) : Yields t.trim fun _ => True := by
  unfold trim
  dsimp only
  split
  · exact yields_ok trivial
  · rename_i hlt
    have hself := Text.Stands.self t.plainChars
    have hstart := hself.trimStart.boundary
    have hstop := hself.trimEnd.boundary_stop
    rw [Nat.zero_add] at hstart hstop
    exact yields_slice ⟨Nat.le_of_not_le hlt, hstart, hstop⟩

end StyledText
end Manuscript
