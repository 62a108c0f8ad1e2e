/-
# Where a class of characters ends

A stretch of characters of a class, followed by something that does not start with
one, is what the class takes off the front of the text. So a text has one such
front part (`Text.append_inj_of_startsOff`), and trimming finds it.

Key definitions: `Text.StartsOff`.
Key theorems: `Text.takeWhile_append_of_startsOff`, `Text.dropWhile_append_of_startsOff`,
`Text.append_inj_of_startsOff`.
-/
import Mathlib.Data.List.TakeWhile
import Manuscript.Text.Blank

namespace Manuscript.Text

variable {p : Char → Bool} {a b r s cs : List Char}

/-- The text does not start with a character of the class. -/
def StartsOff (p : Char → Bool) (cs : List Char) : Prop := ∀ c ∈ cs.head?, p c = false

theorem startsOff_nil (p : Char → Bool) : StartsOff p [] := by simp [StartsOff]

theorem startsOff_cons {c : Char} : StartsOff p (c :: cs) ↔ p c = false := by simp [StartsOff]

theorem takeWhile_of_startsOff (h : StartsOff p cs) : cs.takeWhile p = [] := by
  cases cs with
  | nil => rfl
  | cons c cs => rw [List.takeWhile_cons, startsOff_cons.1 h]; rfl

theorem startsOff_dropWhile (p : Char → Bool) (cs : List Char) : StartsOff p (cs.dropWhile p) := by
  intro c hc
  cases h : cs.dropWhile p with
  | nil => simp [h] at hc
  | cons d rest =>
    have hd := List.head_dropWhile_not p (by rw [h]; simp)
    simp only [h, List.head_cons, List.head?_cons, Option.mem_some_iff] at hd hc
    rw [← hc, hd]

theorem takeWhile_append_of_startsOff (ha : ∀ c ∈ a, p c = true) (hr : StartsOff p r) :
    (a ++ r).takeWhile p = a := by
  rw [List.takeWhile_append_of_pos ha, takeWhile_of_startsOff hr, List.append_nil]

theorem dropWhile_append_of_startsOff (ha : ∀ c ∈ a, p c = true) (hr : StartsOff p r) :
    (a ++ r).dropWhile p = r := by
  have hsplit : (a ++ r).takeWhile p ++ (a ++ r).dropWhile p = a ++ r :=
    List.takeWhile_append_dropWhile
  rw [takeWhile_append_of_startsOff ha hr] at hsplit
  exact List.append_cancel_left hsplit

/-- **A text has one front part of a class** that what follows does not go on with. -/
theorem append_inj_of_startsOff (ha : ∀ c ∈ a, p c = true) (hb : ∀ c ∈ b, p c = true)
    (hr : StartsOff p r) (hs : StartsOff p s) (h : a ++ r = b ++ s) : a = b ∧ r = s := by
  have hfront : a = b := by
    rw [← takeWhile_append_of_startsOff ha hr, h, takeWhile_append_of_startsOff hb hs]
  rw [hfront] at h
  exact ⟨hfront, List.append_cancel_left h⟩

theorem trimEnd_eq_nil_iff : trimEnd cs = [] ↔ ∀ c ∈ cs, isBlank c = true := by
  simp [trimEnd]

theorem length_trimEnd_le (cs : List Char) : (trimEnd cs).length ≤ cs.length := by
  have hle := (List.dropWhile_sublist (l := cs.reverse) isBlank).length_le
  rw [List.length_reverse] at hle
  rw [trimEnd, List.length_reverse]
  exact hle

/-- A trimmed text starts with no blank, and ends with none. -/
theorem trim_eq_self (h : trim cs = cs) : StartsOff isBlank cs ∧ trimEnd cs = cs := by
  have hstart : trimStart cs = cs := by
    apply (List.dropWhile_suffix isBlank).eq_of_length_le
    have hle := length_trimEnd_le (trimStart cs)
    rw [← trim, h] at hle
    exact hle
  refine ⟨?_, ?_⟩
  · rw [← hstart]
    exact startsOff_dropWhile isBlank cs
  · rw [trim, hstart] at h
    exact h

theorem trimStart_of_startsOff (h : StartsOff isBlank cs) : trimStart cs = cs := by
  cases cs with
  | nil => rfl
  | cons c cs => rw [trimStart, List.dropWhile_cons, startsOff_cons.1 h]; rfl

theorem startsOff_trimEnd (h : StartsOff p cs) : StartsOff p (trimEnd cs) := by
  obtain ⟨blanks, hblanks⟩ : trimEnd cs <+: cs := by
    rw [← List.reverse_suffix, trimEnd, List.reverse_reverse]
    exact List.dropWhile_suffix isBlank
  cases htrim : trimEnd cs with
  | nil => exact startsOff_nil p
  | cons c rest =>
    rw [htrim] at hblanks
    rw [← hblanks, List.cons_append, startsOff_cons] at h
    exact startsOff_cons.2 h

/-- What is trimmed once is trimmed. -/
theorem trim_trim (cs : List Char) : trim (trim cs) = trim cs := by
  have hstart : trimStart (trim cs) = trim cs :=
    trimStart_of_startsOff (startsOff_trimEnd (startsOff_dropWhile isBlank cs))
  rw [trim, hstart, trim, trimEnd, trimEnd, List.reverse_reverse]
  exact congrArg List.reverse (trimStart_of_startsOff (startsOff_dropWhile isBlank _))

end Manuscript.Text
