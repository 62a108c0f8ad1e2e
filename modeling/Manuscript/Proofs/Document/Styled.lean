/-
# Operations on styled text are exact

A styled text means its list of styled characters, and its runs are only one way to group
them. Each operation does to the list what its name says: adding concatenates, a cut keeps
the characters that start in the span, trimming drops the blanks at the ends, and leaving
out drops the characters of a class. None of them looks at the runs, which may be empty or
in the style of their neighbours.

What comes out is grouped in one way only. Cutting, trimming and leaving out put parts
behind each other from nothing (`StyledText.append`), which skips empty parts and joins a
part to the last run if it has its style. So no run is empty and no two neighbours have one
style, and such a text is told by its styled characters (`Merged.eq_of_chars`).

Key definitions: `StyledText.Merged`, `StyledText.Gives`, `StyledText.Exact`.
Key theorems: `StyledText.chars_of_trim`, `StyledText.chars_without`,
`StyledText.Merged.append`, `StyledText.Merged.eq_of_chars`, `StyledText.operations_exact`.
-/
import Mathlib.Data.List.Chain
import Mathlib.Data.List.DropRight
import Manuscript.Proofs.Text.Plain

namespace Manuscript.StyledText

open Text (Span Boundary Inside)

variable {t u v : StyledText} {s : Span} {pos : Nat} {xs front mid back : List (Char × Style)}

/-! ### Trimming and leaving out -/

theorem map_snd_located : ∀ (pos : Nat) (xs : List (Char × Style)), (located pos xs).map (·.2) = xs
  | _, [] => rfl
  | pos, x :: xs => by rw [located, List.map_cons, map_snd_located _ xs]

theorem bounds_of_mem_located : ∀ {pos : Nat} {xs : List (Char × Style)} {e : Nat × Char × Style},
    e ∈ located pos xs → pos ≤ e.1 ∧ e.1 < pos + Text.size (xs.map (·.1))
  | _, [], _, h => by cases h
  | pos, x :: xs, e, h => by
    have hx := Char.utf8Size_pos x.1
    rw [List.map_cons, Text.size_cons]
    rcases List.mem_cons.1 h with rfl | h
    · exact ⟨Nat.le_refl _, by dsimp only; omega⟩
    · obtain ⟨hlo, hhi⟩ := bounds_of_mem_located h
      omega

theorem charsIn_eq_nil (h : ∀ n, pos ≤ n → n < pos + Text.size (xs.map (·.1)) →
    ¬ (s.start ≤ n ∧ n < s.stop)) : charsIn s pos xs = [] := by
  rw [charsIn, List.map_eq_nil_iff, List.filter_eq_nil_iff]
  intro e he
  obtain ⟨hlo, hhi⟩ := bounds_of_mem_located he
  simpa using h e.1 hlo hhi

theorem charsIn_eq_self (h : ∀ n, pos ≤ n → n < pos + Text.size (xs.map (·.1)) →
    s.start ≤ n ∧ n < s.stop) : charsIn s pos xs = xs := by
  rw [charsIn, List.filter_eq_self.2, map_snd_located]
  intro e he
  obtain ⟨hlo, hhi⟩ := bounds_of_mem_located he
  simpa using h e.1 hlo hhi

/-- The characters in a span that runs from the end of a front part to the end of what follows. -/
theorem charsIn_middle (hstart : s.start = Text.size (front.map (·.1)))
    (hstop : s.stop = s.start + Text.size (mid.map (·.1))) :
    charsIn s 0 (front ++ (mid ++ back)) = mid := by
  have hfront : charsIn s 0 front = [] := charsIn_eq_nil fun n _ hn => by omega
  have hmid : charsIn s (0 + Text.size (front.map (·.1))) mid = mid :=
    charsIn_eq_self fun n hn hlt => by omega
  have hback : charsIn s (0 + Text.size (front.map (·.1)) + Text.size (mid.map (·.1))) back = [] :=
    charsIn_eq_nil fun n hn _ => by omega
  calc charsIn s 0 (front ++ (mid ++ back))
      = charsIn s 0 front ++ (charsIn s (0 + Text.size (front.map (·.1))) mid ++
          charsIn s (0 + Text.size (front.map (·.1)) + Text.size (mid.map (·.1))) back) := by
        rw [charsIn_append, charsIn_append]
    _ = mid := by rw [hfront, hmid, hback, List.append_nil, List.nil_append]

/-- The styled character is a blank. -/
def blank (x : Char × Style) : Bool := Text.isBlank x.1

/-- **Trimming drops the blanks at the ends.** -/
theorem chars_of_trim (h : t.trim = .ok u) :
    u.chars = (t.chars.dropWhile blank).rdropWhile blank := by
  have hfront : t.plainChars.takeWhile Text.isBlank = (t.chars.takeWhile blank).map (·.1) := by
    rw [plainChars_eq, List.takeWhile_map]
    rfl
  have htrim : Text.trim t.plainChars =
      ((t.chars.dropWhile blank).rdropWhile blank).map (·.1) := by
    rw [Text.trim, Text.trimStart, Text.trimEnd, plainChars_eq, List.dropWhile_map,
      ← List.map_reverse, List.dropWhile_map, ← List.map_reverse]
    rfl
  by_cases hblank : Text.trim t.plainChars = []
  · rw [trim_of_blank hblank] at h
    cases h
    rw [htrim, List.map_eq_nil_iff] at hblank
    rw [hblank]
    rfl
  · rw [trim_eq_slice hblank, hfront, htrim] at h
    have hparts : t.chars = t.chars.takeWhile blank ++
        ((t.chars.dropWhile blank).rdropWhile blank ++
          (t.chars.dropWhile blank).rtakeWhile blank) := by
      rw [List.rdropWhile_append_rtakeWhile, List.takeWhile_append_dropWhile]
    rw [chars_of_slice h]
    exact (congrArg (charsIn _ 0) hparts).trans (charsIn_middle rfl rfl)

theorem without_eq (t : StyledText) (p : Char → Bool) : t.without p = empty.append
    ⟨t.runs.map fun r => ⟨String.ofList (r.text.toList.filter (!p ·)), r.style⟩⟩ := by
  rw [without, append, List.foldl_map]

/-- **Leaving out drops the characters of the class.** -/
theorem chars_without (t : StyledText) (p : Char → Bool) :
    (t.without p).chars = t.chars.filter fun x => !p x.1 := by
  rw [without_eq, chars_append]
  simp [chars, runChars, empty, List.flatMap_map, List.filter_flatMap, List.filter_map,
    Function.comp_def]

/-! ### Merged runs -/

/-- The runs are as few as they can be: none is empty, and neighbours differ in style. -/
structure Merged (t : StyledText) : Prop where
  filled : ∀ r ∈ t.runs, r.text ≠ ""
  apart : (t.runs.map (·.style)).IsChain (· ≠ ·)

theorem merged_empty : empty.Merged := ⟨by simp [empty], .nil⟩

/-- A run that is added brings its style, unless the last run has it. -/
theorem map_style_pushRun : ∀ (rs : List Run) (r : Run), (pushRun rs r).map (·.style) =
    if (rs.map (·.style)).getLast? = some r.style then rs.map (·.style)
    else rs.map (·.style) ++ [r.style]
  | [], r => rfl
  | [last], r => by
    rw [pushRun]
    by_cases h : last.style = r.style <;> simp [h]
  | x :: y :: rest, r => by
    rw [pushRun, List.map_cons, map_style_pushRun (y :: rest) r]
    simp only [List.map_cons, List.getLast?_cons_cons]
    split <;> rfl

theorem filled_pushRun {r : Run} (hr : r.text ≠ "") : ∀ {rs : List Run},
    (∀ x ∈ rs, x.text ≠ "") → ∀ x ∈ pushRun rs r, x.text ≠ ""
  | [], _ => by simpa [pushRun] using hr
  | [last], h => by
    rw [pushRun]
    split
    · simp [hr]
    · simpa [hr] using h
  | x :: y :: rest, h => by
    obtain ⟨hx, hrest⟩ := List.forall_mem_cons.1 h
    exact List.forall_mem_cons.2 ⟨hx, filled_pushRun hr hrest⟩

/-- Adding a run to merged runs leaves them merged. -/
theorem Merged.push (h : t.Merged) (r : Run) : (t.push r).Merged := by
  by_cases hr : r.text = ""
  · simpa [StyledText.push, hr] using h
  · have hpush : t.push r = ⟨pushRun t.runs r⟩ := by simp [StyledText.push, hr]
    rw [hpush]
    refine ⟨filled_pushRun hr h.filled, ?_⟩
    rw [map_style_pushRun]
    split
    · exact h.apart
    · rename_i hlast
      refine List.isChain_append.2 ⟨h.apart, List.isChain_singleton _, ?_⟩
      rintro style hstyle other hother rfl
      rw [List.head?_cons, Option.mem_some_iff] at hother
      exact hlast (hother ▸ hstyle)

/-- **What is added to merged runs is merged**, whatever its own runs are. -/
theorem Merged.append (h : t.Merged) (u : StyledText) : (t.append u).Merged := by
  rw [StyledText.append]
  induction u.runs generalizing t with
  | nil => exact h
  | cons r rest ih => exact ih (h.push r)

theorem exists_head_runChars {r : Run} (h : r.text ≠ "") :
    ∃ c cs, runChars r = (c, r.style) :: cs := by
  cases htext : r.text.toList with
  | nil => exact absurd (String.toList_eq_nil_iff.1 htext) h
  | cons c cs => exact ⟨c, cs.map (·, r.style), by rw [runChars, htext, List.map_cons]⟩

/-- Behind a run of merged runs, the characters start off in another style. -/
theorem takeWhile_chars_cons {r : Run} {rest : List Run} (h : Merged ⟨r :: rest⟩) :
    (chars ⟨r :: rest⟩).takeWhile (fun x => decide (x.2 = r.style)) = runChars r := by
  have hall : ∀ x ∈ runChars r, decide (x.2 = r.style) = true := by simp [runChars]
  rw [chars, List.flatMap_cons, List.takeWhile_append_of_pos hall]
  cases rest with
  | nil => simp
  | cons next rest =>
    obtain ⟨c, cs, hnext⟩ := exists_head_runChars (h.filled next (by simp))
    have hother : next.style ≠ r.style := ((List.isChain_cons_cons.1 h.apart).1).symm
    rw [List.flatMap_cons, hnext, List.cons_append,
      List.takeWhile_cons_of_neg (by simpa using hother), List.append_nil]

theorem head?_chars_cons {r : Run} {rest : List Run} (h : Merged ⟨r :: rest⟩) :
    (chars ⟨r :: rest⟩).head?.map (·.2) = some r.style := by
  obtain ⟨c, cs, hr⟩ := exists_head_runChars (h.filled r (by simp))
  rw [chars, List.flatMap_cons, hr]
  rfl

theorem Merged.tail {r : Run} {rest : List Run} (h : Merged ⟨r :: rest⟩) : Merged ⟨rest⟩ :=
  ⟨fun x hx => h.filled x (List.mem_cons_of_mem r hx), List.IsChain.tail h.apart⟩

/-- **A merged text is told by its styled characters.** The characters up to the first change of
style are the first run. -/
theorem Merged.eq_of_chars : ∀ {rs qs : List Run}, Merged ⟨rs⟩ → Merged ⟨qs⟩ →
    chars ⟨rs⟩ = chars ⟨qs⟩ → rs = qs
  | [], [], _, _, _ => rfl
  | [], q :: qs, _, hq, h => by
    have hhead := head?_chars_cons hq
    rw [← h] at hhead
    cases hhead
  | r :: rs, [], hr, _, h => by
    have hhead := head?_chars_cons hr
    rw [h] at hhead
    cases hhead
  | r :: rs, q :: qs, hr, hq, h => by
    have hstyle : r.style = q.style := by
      have hhead := head?_chars_cons hr
      rw [h, head?_chars_cons hq] at hhead
      exact (Option.some.inj hhead).symm
    have hfirst : runChars r = runChars q := by
      rw [← takeWhile_chars_cons hr, ← takeWhile_chars_cons hq, h, hstyle]
    have htext : r.text = q.text := by
      have hplain := congrArg (List.map Prod.fst) hfirst
      simp only [runChars, List.map_map, Function.comp_def, List.map_id'] at hplain
      exact String.toList_injective hplain
    have hrest : chars ⟨rs⟩ = chars ⟨qs⟩ := by
      simp only [chars, List.flatMap_cons, hfirst] at h
      exact List.append_cancel_left h
    have hrun : r = q := by
      rcases r with ⟨_, _⟩
      rcases q with ⟨_, _⟩
      exact congrArg₂ Run.mk htext hstyle
    rw [hrun, Merged.eq_of_chars hr.tail hq.tail hrest]

/-! ### All operations -/

/-- A text comes out of another by cutting, trimming or leaving out. -/
inductive Gives (t : StyledText) : StyledText → Prop
  | slice {s : Span} {u : StyledText} : t.slice s = .ok u → Gives t u
  | trim {u : StyledText} : t.trim = .ok u → Gives t u
  | without (p : Char → Bool) : Gives t (t.without p)

theorem merged_of_slice (h : t.slice s = .ok u) : u.Merged := by
  obtain ⟨parts, rfl, -⟩ := exists_of_sliceFrom h
  exact merged_empty.append parts

theorem Gives.merged (h : t.Gives u) : u.Merged := by
  cases h with
  | slice h => exact merged_of_slice h
  | trim h =>
    by_cases hblank : Text.trim t.plainChars = []
    · rw [trim_of_blank hblank] at h
      cases h
      exact merged_empty
    · rw [trim_eq_slice hblank] at h
      exact merged_of_slice h
  | without p =>
    rw [without_eq]
    exact merged_empty.append _

/-- What the operations on a text do to its styled characters, and how they group what comes out. -/
structure Exact (t : StyledText) : Prop where
  push : ∀ r, (t.push r).chars = t.chars ++ runChars r
  append : ∀ u, (t.append u).chars = t.chars ++ u.chars
  /-- A cut succeeds at the boundaries of the plain text and behind it. -/
  cuts : ∀ s : Span, (Boundary t.plainChars s.start ∨ Text.size t.plainChars < s.start) →
    (Boundary t.plainChars s.stop ∨ Text.size t.plainChars < s.stop) → ∃ u, t.slice s = .ok u
  slice : ∀ s u, t.slice s = .ok u → u.chars = charsIn s 0 t.chars
  faults : ∀ s fault, t.slice s = .error fault ↔ fault = .offBoundary ∧ s.start < s.stop ∧
    (Inside t.plainChars s.start ∨ Inside t.plainChars s.stop)
  trim : ∃ u, t.trim = .ok u ∧ u.chars = (t.chars.dropWhile blank).rdropWhile blank
  without : ∀ p, (t.without p).chars = t.chars.filter fun x => !p x.1
  merged : ∀ u, t.Gives u → u.Merged
  /-- What comes out is told by its styled characters. -/
  told : ∀ u (other : StyledText) v, t.Gives u → other.Gives v → u.chars = v.chars → u = v

/-- **The operations on styled text are exact** on its styled characters. -/
theorem operations_exact (t : StyledText) : Exact t where
  push := chars_push t
  append := chars_append t
  cuts _ hstart hstop := exists_slice (Text.not_inside_iff.2 hstart) (Text.not_inside_iff.2 hstop)
  slice _ _ := chars_of_slice
  faults _ _ := slice_eq_error
  trim := by
    obtain ⟨u, hu, -⟩ := t.yields_trim
    exact ⟨u, hu, chars_of_trim hu⟩
  without := chars_without t
  merged _ := Gives.merged
  told _ _ _ hu hv h := congrArg StyledText.mk (Merged.eq_of_chars hu.merged hv.merged h)

end Manuscript.StyledText
