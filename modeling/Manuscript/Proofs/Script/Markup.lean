/-
# Markup is unambiguous

The engine reads markup from left to right: a backslash takes the character behind it along, a
doubled bracket or brace stands for one, and what stands between single braces is a tag, which
opens or closes a style. A decoder takes one sign at a time off the text (`Script.sign?`), and
keeps the tags that are open; a closing tag has to close the innermost one (`Script.paint`).

The markup of a styled text is decoded to its styled characters, without the medium marks, and
leaves no tag open (`Script.decode?_markup`). Two facts carry this. The decoder reads markup
sign by sign, whatever stands behind a sign (`Script.SignWritten.signs?_append`): text that
looks like a tag has its brace doubled, and a brace at the end of a run is doubled before the
brace of the next tag. And the tags of a run are closed in the order opposite to the one in
which they were opened (`Script.paint_runSigns`).

Key definitions: `Script.Tag`, `Script.Sign`, `Script.sign?`, `Script.signs?`, `Script.paint`,
`Script.decode?`, `Script.SignWritten`, `Script.SignsWritten`, `Run.visible`, `Run.signs`.
Key theorems: `Script.SignWritten.signs?_append`, `Script.signsWritten_markup`,
`Script.paint_runSigns`, `Script.decode?_markup`.
-/
import Manuscript.Proofs.Document.RoundTrip
import Manuscript.Proofs.Script.Literal

namespace Manuscript

namespace Script

/-! ### Tags -/

/-- What a tag does to the text that it encloses. -/
inductive Tag where
  | color (c : Color)
  | bold
  | italic
deriving Repr, DecidableEq

/-- A tag as its end tells it. -/
inductive TagName where
  | color
  | bold
  | italic
deriving Repr, DecidableEq

/-- The name by which a tag is closed. -/
def Tag.name : Tag → TagName
  | .color _ => .color
  | .bold => .bold
  | .italic => .italic

/-- The style of text in these tags, innermost first. -/
def styleIn : List Tag → Style
  | [] => .plain
  | .color c :: tags => { styleIn tags with color := some c }
  | .bold :: tags => { styleIn tags with bold := true }
  | .italic :: tags => { styleIn tags with italic := true }

/-- What a decoder reads: a character of the text, or a tag. -/
inductive Sign where
  | char (c : Char)
  | opens (tag : Tag)
  | closes (name : TagName)
deriving Repr, DecidableEq

/-! ### Decoding -/

/-- The tag that stands between braces. -/
def tagOf? (body : List Char) : Option Sign :=
  if body = ['b'] then some (.opens .bold)
  else if body = ['i'] then some (.opens .italic)
  else if body = ['/', 'b'] then some (.closes .bold)
  else if body = ['/', 'i'] then some (.closes .italic)
  else if body = ['/', 'c', 'o', 'l', 'o', 'r'] then some (.closes .color)
  else if body.take 7 = ['c', 'o', 'l', 'o', 'r', '=', '#'] then
    (Color.ofDigits? (body.drop 7)).map fun c => .opens (.color c)
  else none

/-- The tag that an opening brace starts, and what follows its closing brace. -/
def takeTag? (cs : List Char) : Option (Sign × List Char) :=
  match cs.dropWhile (· != '\x7d') with
  | [] => none
  | _ :: rest => (tagOf? (cs.takeWhile (· != '\x7d'))).map (·, rest)

/-- The first sign of a text that starts with the character `c`, and what follows it; none if a
backslash has nothing to take along, or a bracket or brace stands alone and is no tag. -/
def sign? (c : Char) (cs : List Char) : Option (Sign × List Char) :=
  if c = '\\' then cs.head?.map fun d => (.char (if d = 'n' then '\n' else d), cs.tail)
  else if (c = '[' ∨ c = '\x7b') ∧ cs.head? = some c then some (.char c, cs.tail)
  else if c = '\x7b' then takeTag? cs
  else if c = '[' then none
  else some (.char c, cs)

theorem exists_of_takeTag? {cs rest : List Char} {s : Sign} (h : takeTag? cs = some (s, rest)) :
    ∃ body, cs = body ++ '\x7d' :: rest ∧ tagOf? body = some s := by
  unfold takeTag? at h
  split at h
  · cases h
  · rename_i c tail hdrop
    obtain ⟨s', htag, heq⟩ := Option.map_eq_some_iff.1 h
    obtain ⟨rfl, rfl⟩ := Prod.mk.inj heq
    have hc : c = '\x7d' := by
      have hhead := List.head?_dropWhile_not (· != '\x7d') cs
      simpa [hdrop] using hhead
    subst hc
    exact ⟨_, by rw [← hdrop, List.takeWhile_append_dropWhile], htag⟩

/-- **What a sign is read from**: a backslash and the character behind it, a bracket or brace twice, a
tag, or a character that stands for itself. -/
theorem exists_of_sign? {c : Char} {cs rest : List Char} {s : Sign} (h : sign? c cs = some (s, rest)) :
    (∃ d, c = '\\' ∧ cs = d :: rest ∧ s = .char (if d = 'n' then '\n' else d)) ∨
      ((c = '[' ∨ c = '\x7b') ∧ cs = c :: rest ∧ s = .char c) ∨
      (∃ body, c = '\x7b' ∧ cs = body ++ '\x7d' :: rest ∧ tagOf? body = some s) ∨
      (cs = rest ∧ s = .char c) := by
  unfold sign? at h
  split_ifs at h with hslash htwice hbrace
  · obtain ⟨d, hd, heq⟩ := Option.map_eq_some_iff.1 h
    obtain ⟨rfl, rfl⟩ := Prod.mk.inj heq
    exact .inl ⟨d, hslash, List.eq_cons_of_mem_head? hd, rfl⟩
  · obtain ⟨rfl, rfl⟩ := Prod.mk.inj (Option.some.inj h)
    exact .inr (.inl ⟨htwice.1, List.eq_cons_of_mem_head? htwice.2, rfl⟩)
  · obtain ⟨body, hcs, htag⟩ := exists_of_takeTag? h
    exact .inr (.inr (.inl ⟨body, hbrace, hcs, htag⟩))
  · obtain ⟨rfl, rfl⟩ := Prod.mk.inj (Option.some.inj h)
    exact .inr (.inr (.inr ⟨rfl, rfl⟩))

theorem length_sign? {c : Char} {cs rest : List Char} {s : Sign} (h : sign? c cs = some (s, rest)) :
    rest.length ≤ cs.length := by
  obtain ⟨d, -, rfl, -⟩ | ⟨-, rfl, -⟩ | ⟨body, -, rfl, -⟩ | ⟨rfl, -⟩ := exists_of_sign? h
  · simp
  · simp
  · simp only [List.length_append, List.length_cons]
    omega
  · exact Nat.le_refl _

/-- The signs of a text, from left to right. -/
def signs? : List Char → Option (List Sign)
  | [] => some []
  | c :: cs =>
    match _h : sign? c cs with
    | none => none
    | some (s, rest) => (signs? rest).map (s :: ·)
termination_by cs => cs.length
decreasing_by
  have := length_sign? _h
  simp only [List.length_cons]
  omega

/-- Reads signs with these tags open, innermost first: the styled characters, and the tags that are
open at the end. A closing tag has to close the innermost one. -/
def paint (tags : List Tag) : List Sign → Option (List (Char × Style) × List Tag)
  | [] => some ([], tags)
  | .char c :: rest => (paint tags rest).map fun r => ((c, styleIn tags) :: r.1, r.2)
  | .opens tag :: rest => paint (tag :: tags) rest
  | .closes name :: rest =>
    match tags with
    | [] => none
    | tag :: tags => if tag.name = name then paint tags rest else none

/-- The styled characters that markup is decoded to, and the tags it leaves open. -/
def decode? (cs : List Char) : Option (List (Char × Style) × List Tag) := (signs? cs).bind (paint [])

example : decode? "\x7b\x7bb\x7d\x7bb\x7dc\x7b/b\x7d".toList = some
    ([('\x7b', .plain), ('b', .plain), ('\x7d', .plain), ('c', ⟨true, false, none⟩)], []) ∧
    decode? "\x7bb\x7d\x7bi\x7da\x7b/b\x7d\x7b/i\x7d".toList = none := by
  decide +kernel

/-! ### Signs as they are written -/

/-- What stands between the braces of a tag. -/
def Tag.body : Tag → List Char
  | .color c => ['c', 'o', 'l', 'o', 'r', '='] ++ c.render.toList
  | .bold => ['b']
  | .italic => ['i']

/-- What stands between the braces of the end of a tag. -/
def TagName.body : TagName → List Char
  | .color => ['/', 'c', 'o', 'l', 'o', 'r']
  | .bold => ['/', 'b']
  | .italic => ['/', 'i']

/-- A tag between its braces. -/
def braced (body : List Char) : List Char := '\x7b' :: (body ++ ['\x7d'])

/-- How a sign stands in markup: a character as a spelling, and a tag in braces. -/
inductive SignWritten : Sign → List Char → Prop
  | char {c : Char} {unit : List Char} : Spelling c unit → SignWritten (.char c) unit
  | opens (tag : Tag) : SignWritten (.opens tag) (braced tag.body)
  | closes (name : TagName) : SignWritten (.closes name) (braced name.body)

/-- The text is the signs, one after the other. -/
inductive SignsWritten : List Sign → List Char → Prop
  | nil : SignsWritten [] []
  | cons {s : Sign} {signs : List Sign} {unit written : List Char} :
    SignWritten s unit → SignsWritten signs written → SignsWritten (s :: signs) (unit ++ written)

theorem SignsWritten.append {signs signs' : List Sign} {written written' : List Char}
    (h : SignsWritten signs written) (h' : SignsWritten signs' written') :
    SignsWritten (signs ++ signs') (written ++ written') := by
  induction h with
  | nil => exact h'
  | cons hunit _ ih =>
    rw [List.cons_append, List.append_assoc]
    exact .cons hunit ih

theorem tagOf?_color (c : Color) : tagOf? (Tag.color c).body = some (.opens (.color c)) := by
  have hbody : (Tag.color c).body = ['c', 'o', 'l', 'o', 'r', '=', '#'] ++
      (Color.digits c.red ++ Color.digits c.green ++ Color.digits c.blue) := by
    simp only [Tag.body, Color.render, String.toList_ofList, List.cons_append, List.nil_append]
  have hdigits := Color.ofDigits?_digits c
  rw [hbody]
  simpa [tagOf?] using hdigits

theorem tagOf?_tag (tag : Tag) : tagOf? tag.body = some (.opens tag) := by
  cases tag with
  | color c => exact tagOf?_color c
  | bold => decide
  | italic => decide

theorem tagOf?_name (name : TagName) : tagOf? name.body = some (.closes name) := by
  cases name <;> decide

/-- A tag has only letters of its words, signs and digits. -/
theorem not_mem_tag {d : Char} (hword : d ∉ ['b', 'i', 'c', 'o', 'l', 'r', '=', '#'])
    (hdigit : ∀ n < 16, Text.hexDigit n ≠ d) (tag : Tag) : d ∉ tag.body := by
  have hletters : ∀ ds : List Char, ds ⊆ ['b', 'i', 'c', 'o', 'l', 'r', '=', '#'] → d ∉ ds :=
    fun _ hds hd => hword (hds hd)
  cases tag with
  | bold => exact hletters _ (by decide)
  | italic => exact hletters _ (by decide)
  | color c =>
    have hsign : '#' ≠ d := fun heq => hword (heq ▸ by decide)
    refine List.not_mem_append (hletters _ (by decide)) fun hd => ?_
    exact Color.forall_mem_render (p := (· ≠ d)) hsign hdigit c d hd rfl

/-- **A tag is read up to its closing brace**, whatever follows it. -/
theorem sign?_braced {s : Sign} {body : List Char} (htag : tagOf? body = some s)
    (hclose : '\x7d' ∉ body) (rest : List Char) :
    sign? '\x7b' (body ++ '\x7d' :: rest) = some (s, rest) := by
  -- Two braces would be read as a character, but no tag starts with a brace.
  have hopen : (body ++ '\x7d' :: rest).head? ≠ some '\x7b' := by
    cases body with
    | nil => simp
    | cons d body =>
      intro heq
      obtain rfl : d = '\x7b' := by simpa using heq
      simp [tagOf?] at htag
  have hbody : ∀ d ∈ body, (d != '\x7d') = true := fun d hd => bne_iff_ne.2 fun heq => hclose (heq ▸ hd)
  have hdrop : (body ++ '\x7d' :: rest).dropWhile (· != '\x7d') = '\x7d' :: rest := by
    rw [List.dropWhile_append_of_pos hbody]
    simp
  have htake : (body ++ '\x7d' :: rest).takeWhile (· != '\x7d') = body := by
    rw [List.takeWhile_append_of_pos hbody]
    simp
  rw [sign?, if_neg (by decide), if_neg (fun h => hopen h.2), if_pos rfl]
  unfold takeTag?
  rw [hdrop, htake, htag]
  rfl

theorem signs?_cons {c : Char} {cs rest : List Char} {s : Sign} (h : sign? c cs = some (s, rest)) :
    signs? (c :: cs) = (signs? rest).map (s :: ·) := by
  rw [signs?]
  split
  · rename_i hnone
    rw [hnone] at h
    cases h
  · rename_i s' rest' hsome
    rw [hsome] at h
    cases h
    rfl

/-- **A sign is read as it was written**, whatever follows it. -/
theorem SignWritten.signs?_append {s : Sign} {unit : List Char} (h : SignWritten s unit)
    (rest : List Char) : signs? (unit ++ rest) = (signs? rest).map (s :: ·) := by
  have hbraced {s : Sign} {body : List Char} (htag : tagOf? body = some s)
      (hclose : '\x7d' ∉ body) : signs? (braced body ++ rest) = (signs? rest).map (s :: ·) := by
    rw [braced, List.cons_append, List.append_assoc]
    exact signs?_cons (sign?_braced htag hclose rest)
  cases h with
  | char hunit =>
    cases hunit with
    | itself hslash _ _ hbracket hbrace => exact signs?_cons (by simp [sign?, hslash, hbracket, hbrace])
    | twice hc => rcases hc with rfl | rfl <;> exact signs?_cons (by simp [sign?])
    | behind hn => exact signs?_cons (by simp [sign?, hn])
    | line hc => exact signs?_cons (by simp [sign?, hc])
  | opens tag => exact hbraced (tagOf?_tag tag) (not_mem_tag (by decide) (by decide) tag)
  | closes name => exact hbraced (tagOf?_name name) (by cases name <;> decide)

theorem SignsWritten.signs?_eq {signs : List Sign} {written : List Char}
    (h : SignsWritten signs written) : signs? written = some signs := by
  induction h with
  | nil => rw [signs?]
  | cons hunit _ ih => rw [hunit.signs?_append, ih, Option.map_some]

theorem Spells.signsWritten {cs written : List Char} (h : Spells cs written) :
    SignsWritten (cs.map .char) written := by
  induction h with
  | nil => exact .nil
  | cons hunit _ ih => exact .cons (.char hunit) ih

/-! ### The signs of a styled text -/

/-- The tags of a style, outermost first. -/
def tagsOf (s : Style) : List Tag :=
  (s.color.map Tag.color).toList ++ (if s.bold then [.bold] else []) ++
    (if s.italic then [.italic] else [])

theorem styleIn_tagsOf (s : Style) : styleIn (tagsOf s).reverse = s := by
  obtain ⟨bold, italic, color⟩ := s
  cases color <;> cases bold <;> cases italic <;> rfl

/-- Signs of one kind, each written in its own way, one after the other. -/
theorem signsWritten_flatMap {sign : Tag → Sign} {unit : Tag → List Char}
    (h : ∀ tag, SignWritten (sign tag) (unit tag)) (tags : List Tag) :
    SignsWritten (tags.map sign) (tags.flatMap unit) := by
  induction tags with
  | nil => exact .nil
  | cons tag tags ih => exact .cons (h tag) ih

theorem toList_openTags (s : Style) :
    (openTags s).toList = (tagsOf s).flatMap fun tag => braced tag.body := by
  obtain ⟨bold, italic, color⟩ := s
  cases color <;> cases bold <;> cases italic <;> simp [openTags, tagsOf, braced, Tag.body]

theorem toList_closeTags (s : Style) :
    (closeTags s).toList = (tagsOf s).reverse.flatMap fun tag => braced tag.name.body := by
  obtain ⟨bold, italic, color⟩ := s
  cases color <;> cases bold <;> cases italic <;>
    simp [closeTags, tagsOf, braced, Tag.name, TagName.body]

end Script

/-- The characters of a run that are no medium marks. -/
def Run.visible (r : Run) : List Char := r.text.toList.filter (· ≠ elementMark)

/-- The signs of a run: nothing if it is only marks, or else its characters in the tags of its style. -/
def Run.signs (r : Run) : List Script.Sign :=
  if r.visible = [] then []
  else (Script.tagsOf r.style).map .opens ++ (r.visible.map .char ++
    (Script.tagsOf r.style).reverse.map fun tag => .closes tag.name)

namespace Script

theorem Spells.eq_nil_iff {cs written : List Char} (h : Spells cs written) : written = [] ↔ cs = [] := by
  cases h with
  | nil => simp
  | cons hunit _ => cases hunit <;> simp

theorem toList_markupRun (r : Run) : (markupRun r).toList = if r.visible = [] then [] else
    (openTags r.style).toList ++ (escapeChars r.text.toList ++ (closeTags r.style).toList) := by
  have hempty : (escape r.text).isEmpty = true ↔ r.visible = [] := by
    rw [String.isEmpty_iff, ← String.toList_eq_nil_iff, escape, String.toList_ofList,
      (spells_escapeChars r.text.toList).eq_nil_iff, Run.visible]
  unfold markupRun
  dsimp only
  by_cases hnone : r.visible = []
  · rw [if_pos (hempty.2 hnone), if_pos hnone]
    rfl
  · rw [if_neg (mt hempty.1 hnone), if_neg hnone, String.toList_append, String.toList_append,
      escape, String.toList_ofList, List.append_assoc]

theorem signsWritten_markupRun (r : Run) : SignsWritten r.signs (markupRun r).toList := by
  rw [toList_markupRun, Run.signs]
  split
  · exact .nil
  · have hopen := signsWritten_flatMap (fun tag => .opens tag) (tagsOf r.style)
    have htext := (spells_escapeChars r.text.toList).signsWritten
    have hclose := signsWritten_flatMap (fun tag => .closes tag.name) (tagsOf r.style).reverse
    rw [toList_openTags, toList_closeTags]
    exact hopen.append (htext.append hclose)

theorem toList_markup (t : StyledText) :
    (markup t).toList = t.runs.flatMap fun r => (markupRun r).toList := by
  rw [markup, String.toList_join, List.flatMap_map]

/-- **Markup is the signs of the text**, run by run. -/
theorem signsWritten_markup (t : StyledText) :
    SignsWritten (t.runs.flatMap Run.signs) (markup t).toList := by
  rw [toList_markup]
  induction t.runs with
  | nil => exact .nil
  | cons r rs ih =>
    rw [List.flatMap_cons, List.flatMap_cons]
    exact (signsWritten_markupRun r).append ih

/-! ### Tags that are opened and closed -/

variable {tags : List Tag} {rest : List Sign}

theorem paint_opens (new : List Tag) :
    paint tags (new.map .opens ++ rest) = paint (new.reverse ++ tags) rest := by
  induction new generalizing tags with
  | nil => rfl
  | cons tag new ih =>
    rw [List.map_cons, List.cons_append, paint, ih, List.reverse_cons, List.append_assoc,
      List.singleton_append]

theorem paint_chars (cs : List Char) : paint tags (cs.map .char ++ rest) =
    (paint tags rest).map fun out => (cs.map (·, styleIn tags) ++ out.1, out.2) := by
  induction cs with
  | nil => simp
  | cons c cs ih =>
    rw [List.map_cons, List.cons_append, paint, ih, Option.map_map]
    rfl

theorem paint_closes (old : List Tag) :
    paint (old ++ tags) ((old.map fun tag => .closes tag.name) ++ rest) = paint tags rest := by
  induction old with
  | nil => rfl
  | cons tag old ih => rw [List.map_cons, List.cons_append, List.cons_append, paint, if_pos rfl, ih]

/-- **A run closes its tags** in the order opposite to the one in which it opened them. -/
theorem paint_runSigns (r : Run) : paint [] (r.signs ++ rest) =
    (paint [] rest).map fun out => (r.visible.map (·, r.style) ++ out.1, out.2) := by
  rw [Run.signs]
  split
  · rename_i hnone
    simp [hnone]
  · rw [List.append_assoc, List.append_assoc, paint_opens, paint_chars, paint_closes,
      List.append_nil, styleIn_tagsOf]

/-- **The signs of a text are painted as the text**, without its medium marks. -/
theorem paint_signs (t : StyledText) :
    paint [] (t.runs.flatMap Run.signs) = some (t.chars.filter (·.1 ≠ elementMark), []) := by
  rw [StyledText.chars]
  induction t.runs with
  | nil => rfl
  | cons r rs ih =>
    rw [List.flatMap_cons, List.flatMap_cons, paint_runSigns, ih, Option.map_some, List.filter_append]
    simp [StyledText.runChars, Run.visible, List.filter_map, Function.comp_def]

/-- **Markup is unambiguous.** It is decoded to the styled characters of the text without its medium
marks, and all its tags are closed. -/
theorem decode?_markup (t : StyledText) :
    decode? (markup t).toList = some (t.chars.filter (·.1 ≠ elementMark), []) := by
  rw [decode?, (signsWritten_markup t).signs?_eq, Option.bind_some, paint_signs]

end Script
end Manuscript
