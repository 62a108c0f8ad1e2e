/-
# Cutting styled text is cutting its plain text

Runs are cut one by one, each at the offset where it starts. What comes out is told
by the characters alone: a character of the text is kept if it starts in the span
(`Text.within`), whatever run it is in, and it keeps its style (`StyledText.charsIn`). So
the plain text of a part is that part of the plain text, and the plain text of the
trimmed text is the trimmed plain text.

Key definitions: `Text.within`, `StyledText.located`, `StyledText.charsIn`.
Key theorems: `Text.within_append`, `StyledText.chars_of_slice`,
`StyledText.plainChars_of_slice`, `StyledText.plainChars_of_trim`,
`Assembly.plainChars_of_contentOf`.
-/
import Manuscript.Assembly.Code
import Manuscript.Proofs.Text.Boundary
import Manuscript.Proofs.Text.Trim

namespace Manuscript

open Text (Span)

/-! ### Characters in a span -/

namespace Text

/-- The characters of a text that starts at byte `pos` which start in the span. -/
def within (s : Span) : Nat → List Char → List Char
  | _, [] => []
  | pos, c :: cs =>
    if s.start ≤ pos ∧ pos < s.stop then c :: within s (pos + c.utf8Size) cs
    else within s (pos + c.utf8Size) cs

variable {s : Span} {pos : Nat} {cs part a b : List Char}

theorem within_append (s : Span) : ∀ (pos : Nat) (a b : List Char),
    within s pos (a ++ b) = within s pos a ++ within s (pos + size a) b
  | _, [], _ => rfl
  | pos, c :: a, b => by
    have ih := within_append s (pos + c.utf8Size) a b
    rw [Nat.add_assoc, ← size_cons] at ih
    rw [List.cons_append, within, within, ih]
    split <;> rfl

/-- No character starts in the span. -/
theorem within_eq_nil : ∀ {pos : Nat} {cs : List Char},
    (∀ n, pos ≤ n → n < pos + size cs → ¬ (s.start ≤ n ∧ n < s.stop)) → within s pos cs = []
  | _, [], _ => rfl
  | pos, c :: cs, h => by
    have hc := Char.utf8Size_pos c
    rw [size_cons] at h
    rw [within, if_neg (h pos (Nat.le_refl _) (by omega))]
    exact within_eq_nil fun n hn hlt => h n (by omega) (by omega)

/-- Every character starts in the span. -/
theorem within_eq_self : ∀ {pos : Nat} {cs : List Char},
    (∀ n, pos ≤ n → n < pos + size cs → s.start ≤ n ∧ n < s.stop) → within s pos cs = cs
  | _, [], _ => rfl
  | pos, c :: cs, h => by
    have hc := Char.utf8Size_pos c
    rw [size_cons] at h
    rw [within, if_pos (h pos (Nat.le_refl _) (by omega))]
    exact congrArg (c :: ·) (within_eq_self fun n hn hlt => h n (by omega) (by omega))

/-- The characters in a span that fits are the text of the span. -/
theorem Fits.within_eq (h : Fits cs s) : within s 0 cs = slice cs s := by
  obtain ⟨part, hstands, hstop⟩ := h.start.exists_stands h.stop h.le
  have hspan : s = ⟨s.start, s.start + size part⟩ := by rw [← hstop]
  have hslice : slice cs s = part := by rw [hspan, hstands.slice_eq]
  obtain ⟨before, after, rfl, hstart⟩ := hstands
  have hbefore : within s 0 before = [] := within_eq_nil fun n _ hlt => by omega
  have hpart : within s (0 + size before) part = part := within_eq_self fun n hle hlt => by omega
  have hafter : within s (0 + size before + size part) after = [] :=
    within_eq_nil fun n hle _ => by omega
  rw [hslice, within_append, within_append, hbefore, hpart, hafter, List.append_nil, List.nil_append]

/-! ### Trimming -/

theorem trimEnd_append (h : trimEnd b ≠ []) : trimEnd (a ++ b) = a ++ trimEnd b := by
  have hne : (b.reverse.dropWhile isBlank).isEmpty = false := by simpa [trimEnd] using h
  rw [trimEnd, List.reverse_append, List.dropWhile_append, hne]
  simp [trimEnd]

/-- A text that trims to nothing is blank. -/
theorem trimEnd_eq_nil_of_trim (h : trim cs = []) : trimEnd cs = [] := by
  rw [trim, trimEnd_eq_nil_iff] at h
  rw [trimEnd_eq_nil_iff, ← takeWhile_append_trimStart cs, List.forall_mem_append]
  exact ⟨fun c hc => List.mem_takeWhile_imp hc, h⟩

/-- The trimmed text stands behind the blanks at the start. -/
theorem stands_trim (cs : List Char) : Stands cs (size (cs.takeWhile isBlank)) (trim cs) := by
  obtain ⟨blanks, hblanks, -⟩ := exists_eq_trimEnd_append (trimStart cs)
  refine ⟨cs.takeWhile isBlank, blanks, ?_, rfl⟩
  rw [trim, ← hblanks, takeWhile_append_trimStart]

end Text

/-! ### Styled text -/

namespace StyledText

variable {s : Span} {t u out : StyledText}

theorem plainChars_eq (t : StyledText) : t.plainChars = t.chars.map (·.1) := by
  simp [plainChars, chars, runChars, List.map_flatMap, Function.comp_def]

@[simp] theorem plainChars_push (t : StyledText) (r : Run) :
    (t.push r).plainChars = t.plainChars ++ r.text.toList := by
  simp [plainChars_eq, runChars, Function.comp_def]

@[simp] theorem plainChars_append (t u : StyledText) :
    (t.append u).plainChars = t.plainChars ++ u.plainChars := by
  simp [plainChars_eq]

@[simp] theorem plain_ofString (text : String) : (ofString text).plain = text := by
  rw [plain, ofString, plainChars_push]
  exact String.ofList_toList

/-- **A run is cut to its characters in the span**, and keeps its style. -/
theorem eq_of_cutRun {offset : Nat} {r part : Run} (h : cutRun s offset r = .ok part) :
    part = ⟨String.ofList (Text.within s offset r.text.toList), r.style⟩ := by
  unfold cutRun at h
  dsimp only at h
  split at h
  · rename_i hlt
    obtain ⟨text, hslice, h⟩ := bind_eq_ok.1 h
    cases h
    obtain ⟨hstands, hstop⟩ := Text.stands_of_slice? (Fault.unless_eq_ok.1 hslice)
    obtain ⟨before, after, htext, hstart⟩ := hstands
    dsimp only at hstart hstop
    have hsize : Text.size r.text.toList = Text.size before + (Text.size text + Text.size after) := by
      rw [htext, Text.size_append, Text.size_append]
    have hbefore : Text.within s offset before = [] := Text.within_eq_nil fun n hle hn => by omega
    have hpart : Text.within s (offset + Text.size before) text = text :=
      Text.within_eq_self fun n hle hn => by omega
    have hafter : Text.within s (offset + Text.size before + Text.size text) after = [] :=
      Text.within_eq_nil fun n hle hn => by omega
    have hwithin : Text.within s offset r.text.toList = text := by
      rw [htext, Text.within_append, Text.within_append, hbefore, hpart, hafter]
      simp
    rw [hwithin]
  · cases h
    have hnone : Text.within s offset r.text.toList = [] :=
      Text.within_eq_nil fun n hle hn => by omega
    rw [hnone]

/-! ### Styled characters in a span -/

/-- Styled characters with the bytes at which they start, the first at byte `pos`. -/
def located : Nat → List (Char × Style) → List (Nat × Char × Style)
  | _, [] => []
  | pos, x :: xs => (pos, x) :: located (pos + x.1.utf8Size) xs

/-- The styled characters, of which the first starts at byte `pos`, that start in the span. -/
def charsIn (s : Span) (pos : Nat) (xs : List (Char × Style)) : List (Char × Style) :=
  ((located pos xs).filter fun e => s.start ≤ e.1 ∧ e.1 < s.stop).map (·.2)

variable {pos : Nat} {xs ys : List (Char × Style)}

theorem charsIn_cons {x : Char × Style} : charsIn s pos (x :: xs) =
    if s.start ≤ pos ∧ pos < s.stop then x :: charsIn s (pos + x.1.utf8Size) xs
    else charsIn s (pos + x.1.utf8Size) xs := by
  rw [charsIn, located, List.filter_cons]
  by_cases h : s.start ≤ pos ∧ pos < s.stop
  · simp [h, charsIn]
  · simp only [h, decide_false, Bool.false_eq_true, if_false, charsIn]

theorem charsIn_append : ∀ {pos : Nat} (xs ys : List (Char × Style)), charsIn s pos (xs ++ ys) =
    charsIn s pos xs ++ charsIn s (pos + Text.size (xs.map (·.1))) ys
  | _, [], _ => rfl
  | pos, x :: xs, ys => by
    rw [List.cons_append, charsIn_cons, charsIn_cons, charsIn_append xs ys, List.map_cons,
      Text.size_cons, Nat.add_assoc]
    split <;> rfl

/-- Without their styles, they are the characters that start in the span. -/
theorem map_fst_charsIn : ∀ {pos : Nat} (xs : List (Char × Style)),
    (charsIn s pos xs).map (·.1) = Text.within s pos (xs.map (·.1))
  | _, [] => rfl
  | pos, x :: xs => by
    rw [charsIn_cons, List.map_cons, Text.within, ← map_fst_charsIn xs]
    split <;> rfl

/-- In one style, they are the characters that start in the span. -/
theorem charsIn_map (style : Style) : ∀ {pos : Nat} (cs : List Char),
    charsIn s pos (cs.map (·, style)) = (Text.within s pos cs).map (·, style)
  | _, [] => rfl
  | pos, c :: cs => by
    rw [List.map_cons, charsIn_cons, charsIn_map style cs, Text.within]
    split <;> rfl

theorem runChars_of_cutRun {offset : Nat} {r part : Run} (h : cutRun s offset r = .ok part) :
    runChars part = charsIn s offset (runChars r) := by
  rw [eq_of_cutRun h, runChars, runChars, charsIn_map, String.toList_ofList]

/-- What is cut out of runs is added part by part, and the parts hold the styled characters that
start in the span. -/
theorem exists_of_sliceFrom : ∀ {runs : List Run} {offset : Nat} {out : StyledText},
    sliceFrom s offset runs out = .ok u →
    ∃ parts : StyledText, u = out.append parts ∧
      parts.chars = charsIn s offset (runs.flatMap runChars)
  | [], _, _, h => by
    cases h
    exact ⟨empty, rfl, rfl⟩
  | r :: rest, offset, out, h => by
    obtain ⟨part, hpart, h⟩ := bind_eq_ok.1 h
    obtain ⟨parts, rfl, hparts⟩ := exists_of_sliceFrom h
    have hsize : Text.size ((runChars r).map (·.1)) = Text.size r.text.toList := by
      simp [runChars, Function.comp_def]
    refine ⟨⟨part :: parts.runs⟩, rfl, ?_⟩
    rw [List.flatMap_cons, charsIn_append, hsize, ← hparts, ← runChars_of_cutRun hpart]
    rfl

/-- **A part of the text** holds the styled characters that start in the span. -/
theorem chars_of_slice (h : t.slice s = .ok u) : u.chars = charsIn s 0 t.chars := by
  obtain ⟨parts, rfl, hparts⟩ := exists_of_sliceFrom h
  rw [chars_append, hparts]
  rfl

/-- **The plain text of a part** is the part of the plain text. -/
theorem plainChars_of_slice (hfits : Text.Fits t.plainChars s) (h : t.slice s = .ok u) :
    u.plainChars = Text.slice t.plainChars s := by
  calc u.plainChars = (charsIn s 0 t.chars).map (·.1) := by rw [plainChars_eq, chars_of_slice h]
    _ = Text.within s 0 t.plainChars := by rw [map_fst_charsIn, plainChars_eq]
    _ = Text.slice t.plainChars s := hfits.within_eq

/-! ### The trimmed text -/

theorem trim_of_blank (h : Text.trim t.plainChars = []) : t.trim = .ok empty := by
  rw [trim, Text.trimEnd_eq_nil_of_trim h]
  exact if_pos (Nat.zero_le _)

/-- Unless it is blank, the trimmed text is cut out between the blanks. -/
theorem trim_eq_slice (h : Text.trim t.plainChars ≠ []) : t.trim =
    t.slice ⟨Text.size (t.plainChars.takeWhile Text.isBlank),
      Text.size (t.plainChars.takeWhile Text.isBlank) + Text.size (Text.trim t.plainChars)⟩ := by
  have hstart := congrArg Text.size (Text.takeWhile_append_trimStart t.plainChars)
  have hstop : Text.trimEnd t.plainChars =
      t.plainChars.takeWhile Text.isBlank ++ Text.trim t.plainChars := by
    rw [Text.trim, ← Text.trimEnd_append h, Text.takeWhile_append_trimStart]
  have hpos : Text.size (Text.trim t.plainChars) ≠ 0 := fun hzero => h (Text.eq_nil_of_size hzero)
  rw [Text.size_append] at hstart
  rw [trim, hstop, Text.size_append, ← hstart, Nat.add_sub_cancel]
  exact if_neg (by omega)

/-- **The plain text of the trimmed text** is the trimmed plain text. -/
theorem plainChars_of_trim (h : t.trim = .ok u) : u.plainChars = Text.trim t.plainChars := by
  by_cases htrim : Text.trim t.plainChars = []
  · rw [trim_of_blank htrim] at h
    cases h
    exact htrim.symm
  · have hstands := Text.stands_trim t.plainChars
    rw [trim_eq_slice htrim] at h
    rw [plainChars_of_slice hstands.fits h]
    exact hstands.slice_eq

end StyledText

namespace Assembly

/-- **The plain text of a content** is what the fields are in the plain text of the block, one after
the other and trimmed. -/
theorem plainChars_of_contentOf {text content : StyledText} {fields : List Field}
    (hfits : ∀ f ∈ fields, Text.Fits text.plainChars f.span) (h : contentOf text fields = .ok content) :
    content.plainChars =
      Text.trim (fields.flatMap fun f => Text.slice text.plainChars f.span) := by
  have key : ∀ {fields : List Field} {out joined : StyledText},
      (∀ f ∈ fields, Text.Fits text.plainChars f.span) →
      fields.foldlM (fun out f => return out.append (← text.slice f.span)) out =
        (.ok joined : Except Fault StyledText) →
      joined.plainChars = out.plainChars ++ fields.flatMap fun f => Text.slice text.plainChars f.span := by
    intro fields
    induction fields with
    | nil =>
      intro out joined _ h
      cases h
      simp
    | cons f rest ih =>
      intro out joined hfits h
      rw [List.foldlM_cons, bind_eq_ok] at h
      obtain ⟨next, hnext, h⟩ := h
      obtain ⟨part, hpart, hnext⟩ := bind_eq_ok.1 hnext
      cases hnext
      obtain ⟨hf, hrest⟩ := List.forall_mem_cons.1 hfits
      rw [ih hrest h, StyledText.plainChars_append, StyledText.plainChars_of_slice hf hpart,
        List.flatMap_cons, List.append_assoc]
  obtain ⟨joined, hjoined, h⟩ := bind_eq_ok.1 h
  rw [StyledText.plainChars_of_trim h, key hfits hjoined]
  rfl

end Assembly
end Manuscript
