/-
# Text stays in its literal and on its line

A line of a script is read from left to right: a double quote opens a literal and the
next one closes it, and in a literal a backslash takes the character behind it along
(`Script.Quoting`). Text that was escaped is a row of spellings, one for each character
but the medium marks (`Script.spells_escapeChars`). A spelling leaves such a reader inside
the literal: every backslash of it comes with the character that it takes along, also the
backslashes that keep spaces apart. And it has no line break.

So a statement whose names are identifiers is one line, and its literals are closed
(`Script.contained_render`); a comment is one line too.

Key definitions: `Script.Quoting`, `Script.Quoting.read`, `Script.Inert`,
`Script.Contained`, `Script.Clean`, `Script.Spelling`, `Script.Spells`,
`Script.Statement.names`.
Key theorems: `Script.spells_escapeChars`, `Script.inert_markup`,
`Script.contained_quoted`, `Script.contained_render`.
-/
import Manuscript.Proofs.Identifier
import Manuscript.Script.Statement

namespace Manuscript.Script

/-! ### Reading a line -/

/-- Where a reader of a line is. -/
inductive Quoting where
  | outside
  /-- In a literal. -/
  | inside
  /-- In a literal, behind a backslash. -/
  | escaped
deriving Repr, DecidableEq

namespace Quoting

/-- Reads a character. -/
def step : Quoting → Char → Quoting
  | outside, c => if c = '"' then inside else outside
  | inside, c => if c = '"' then outside else if c = '\\' then escaped else inside
  | escaped, _ => inside

/-- Reads a text. -/
def read (q : Quoting) (cs : List Char) : Quoting := cs.foldl step q

theorem read_append (q : Quoting) (cs ds : List Char) : q.read (cs ++ ds) = (q.read cs).read ds :=
  List.foldl_append

end Quoting

/-- Text that may stand in a literal: it leaves the reader there, and breaks no line. -/
structure Inert (cs : List Char) : Prop where
  quoting : Quoting.inside.read cs = .inside
  line : '\n' ∉ cs

/-- Text that may stand outside: it closes the literals it opens, and breaks no line. -/
structure Contained (cs : List Char) : Prop where
  quoting : Quoting.outside.read cs = .outside
  line : '\n' ∉ cs

section Parts

variable {cs ds : List Char}

theorem inert_nil : Inert [] := ⟨rfl, by simp⟩

theorem contained_nil : Contained [] := ⟨rfl, by simp⟩

theorem Inert.append (hc : Inert cs) (hd : Inert ds) : Inert (cs ++ ds) := by
  refine ⟨?_, by simpa using ⟨hc.line, hd.line⟩⟩
  rw [Quoting.read_append, hc.quoting, hd.quoting]

theorem Contained.append (hc : Contained cs) (hd : Contained ds) : Contained (cs ++ ds) := by
  refine ⟨?_, by simpa using ⟨hc.line, hd.line⟩⟩
  rw [Quoting.read_append, hc.quoting, hd.quoting]

theorem inert_singleton {c : Char} (hquote : c ≠ '"') (hslash : c ≠ '\\') (hline : c ≠ '\n') :
    Inert [c] := by
  refine ⟨?_, by simpa using hline.symm⟩
  show Quoting.inside.step c = .inside
  rw [Quoting.step, if_neg hquote, if_neg hslash]

/-- Text that no reader stops at: it has no quotes, backslashes and line breaks. -/
def Clean (cs : List Char) : Prop := ∀ c ∈ cs, c ≠ '"' ∧ c ≠ '\\' ∧ c ≠ '\n'

instance (cs : List Char) : Decidable (Clean cs) := List.decidableBAll _ cs

theorem Clean.append (hc : Clean cs) (hd : Clean ds) : Clean (cs ++ ds) :=
  List.forall_mem_append.2 ⟨hc, hd⟩

theorem Clean.inert : ∀ {cs : List Char}, Clean cs → Inert cs
  | [], _ => inert_nil
  | c :: cs, h => by
    obtain ⟨⟨hquote, hslash, hline⟩, hcs⟩ := List.forall_mem_cons.1 h
    exact (inert_singleton hquote hslash hline).append (Clean.inert hcs)

theorem Clean.contained : ∀ {cs : List Char}, Clean cs → Contained cs
  | [], _ => contained_nil
  | c :: cs, h => by
    obtain ⟨⟨hquote, -, hline⟩, hcs⟩ := List.forall_mem_cons.1 h
    have hc : Contained [c] := ⟨if_neg hquote, by simpa using hline.symm⟩
    exact hc.append (Clean.contained hcs)

/-- Inert text between quotes is contained. -/
theorem Inert.contained (h : Inert cs) : Contained ('"' :: (cs ++ ['"'])) := by
  refine ⟨?_, by simpa using h.line⟩
  show Quoting.inside.read (cs ++ ['"']) = .outside
  rw [Quoting.read_append, h.quoting]
  rfl

end Parts

/-! ### Escaped text -/

/-- How a character stands in a literal: as itself if it has no meaning there, twice if it opens a
substitution or a tag, or else behind a backslash. A line break has a letter of its own. -/
inductive Spelling (c : Char) : List Char → Prop
  | itself : c ≠ '\\' → c ≠ '"' → c ≠ '\n' → c ≠ '[' → c ≠ '\x7b' → Spelling c [c]
  | twice : c = '[' ∨ c = '\x7b' → Spelling c [c, c]
  | behind : c ≠ 'n' → c ≠ '\n' → Spelling c ['\\', c]
  | line : c = '\n' → Spelling c ['\\', 'n']

/-- The second text is the spellings of the characters of the first, one after the other. -/
inductive Spells : List Char → List Char → Prop
  | nil : Spells [] []
  | cons {c : Char} {cs unit written : List Char} :
    Spelling c unit → Spells cs written → Spells (c :: cs) (unit ++ written)

/-- **A character is escaped to a spelling**, also with the backslash that keeps a space from the
space before it. -/
theorem exists_spelling (behindSpace : Bool) {c : Char} (hc : c ≠ elementMark) (rest : List Char) :
    ∃ unit next, protectSpaces behindSpace (escapeChar c ++ rest) =
      unit ++ protectSpaces next rest ∧ Spelling c unit := by
  by_cases hspace : c = ' '
  · subst hspace
    cases behindSpace with
    | false =>
      exact ⟨[' '], true, rfl,
        .itself (by decide) (by decide) (by decide) (by decide) (by decide)⟩
    | true => exact ⟨['\\', ' '], true, rfl, .behind (by decide) (by decide)⟩
  · fun_cases escapeChar c with
    | case1 h =>
      subst h
      exact ⟨['\\', '\\'], false, rfl, .behind (by decide) (by decide)⟩
    | case2 _ h =>
      subst h
      exact ⟨['\\', '"'], false, rfl, .behind (by decide) (by decide)⟩
    | case3 _ _ h =>
      subst h
      exact ⟨['\\', '\''], false, rfl, .behind (by decide) (by decide)⟩
    | case4 _ _ _ h => exact ⟨['\\', 'n'], false, rfl, .line h⟩
    | case5 _ _ _ _ h =>
      subst h
      exact ⟨['\\', '%'], false, rfl, .behind (by decide) (by decide)⟩
    | case6 _ _ _ _ _ h =>
      subst h
      exact ⟨['[', '['], false, rfl, .twice (.inl rfl)⟩
    | case7 _ _ _ _ _ _ h =>
      subst h
      exact ⟨['\x7b', '\x7b'], false, rfl, .twice (.inr rfl)⟩
    | case8 _ _ _ _ _ _ _ h => exact absurd h hc
    | case9 hslash hquote _ hline _ hbracket hbrace =>
      refine ⟨[c], false, ?_, .itself hslash hquote hline hbracket hbrace⟩
      rw [List.singleton_append, protectSpaces, if_neg hspace, List.singleton_append]

theorem spells_protectSpaces : ∀ (cs : List Char) (behindSpace : Bool),
    Spells (cs.filter (· ≠ elementMark)) (protectSpaces behindSpace (cs.flatMap escapeChar))
  | [], _ => .nil
  | c :: cs, behindSpace => by
    rw [List.flatMap_cons]
    by_cases hc : c = elementMark
    · subst hc
      have hnone : escapeChar elementMark = [] := by decide
      rw [hnone, List.nil_append, List.filter_cons_of_neg (by simp)]
      exact spells_protectSpaces cs behindSpace
    · obtain ⟨unit, next, hsplit, hunit⟩ := exists_spelling behindSpace hc (cs.flatMap escapeChar)
      rw [hsplit, List.filter_cons_of_pos (by simpa using hc)]
      exact .cons hunit (spells_protectSpaces cs next)

/-- **Escaped text spells the text** without its medium marks. -/
theorem spells_escapeChars (cs : List Char) :
    Spells (cs.filter (· ≠ elementMark)) (escapeChars cs) := spells_protectSpaces cs false

theorem Spelling.inert {c : Char} {unit : List Char} (h : Spelling c unit) : Inert unit := by
  cases h with
  | itself hslash hquote hline => exact inert_singleton hquote hslash hline
  | twice hc => rcases hc with rfl | rfl <;> exact ⟨rfl, by decide⟩
  | behind _ hline => exact ⟨rfl, by simpa using hline.symm⟩
  | line => exact ⟨rfl, by decide⟩

theorem Spells.inert {cs written : List Char} (h : Spells cs written) : Inert written := by
  induction h with
  | nil => exact inert_nil
  | cons hunit _ ih => exact hunit.inert.append ih

theorem inert_escape (s : String) : Inert (escape s).toList := by
  rw [escape, String.toList_ofList]
  exact (spells_escapeChars s.toList).inert

/-- Inert strings one after the other are inert. -/
theorem inert_join {ss : List String} (h : ∀ s ∈ ss, Inert s.toList) :
    Inert (String.join ss).toList := by
  rw [String.toList_join]
  induction ss with
  | nil => exact inert_nil
  | cons s ss ih =>
    obtain ⟨hs, hss⟩ := List.forall_mem_cons.1 h
    rw [List.flatMap_cons]
    exact hs.append (ih hss)

theorem clean_color (c : Color) : Clean c.render.toList :=
  Color.forall_mem_render (by decide) (by decide) c

theorem clean_openTags (s : Style) : Clean (openTags s).toList := by
  unfold openTags
  rw [String.toList_append, String.toList_append]
  refine (Clean.append ?_ ?_).append ?_
  · split
    · rename_i c _
      have hopen : Clean "\x7bcolor=".toList := by decide
      have hclose : Clean "\x7d".toList := by decide
      rw [String.toList_append, String.toList_append]
      exact (hopen.append (clean_color c)).append hclose
    · decide
  · split <;> decide
  · split <;> decide

theorem clean_closeTags (s : Style) : Clean (closeTags s).toList := by
  unfold closeTags
  rw [String.toList_append, String.toList_append]
  refine (Clean.append ?_ ?_).append ?_ <;> split <;> decide

/-- **Styled text is inert.** -/
theorem inert_markup (t : StyledText) : Inert (markup t).toList := by
  refine inert_join fun s hs => ?_
  obtain ⟨r, -, rfl⟩ := List.mem_map.1 hs
  unfold markupRun
  dsimp only
  split
  · exact inert_nil
  · rw [String.toList_append, String.toList_append]
    exact ((clean_openTags r.style).inert.append (inert_escape r.text)).append
      (clean_closeTags r.style).inert

/-! ### Statements -/

/-- Contained strings one after the other are contained. -/
theorem Contained.concat {a b : String} (ha : Contained a.toList) (hb : Contained b.toList) :
    Contained (a ++ b).toList := by
  rw [String.toList_append]
  exact ha.append hb

theorem Inert.contained_literal {s : String} (h : Inert s.toList) :
    Contained ("\"" ++ s ++ "\"").toList := by
  have hchars : ("\"" ++ s ++ "\"").toList = '"' :: (s.toList ++ ['"']) := by simp
  rw [hchars]
  exact h.contained

theorem contained_quoted (s : String) : Contained (quoted s).toList :=
  (inert_escape s).contained_literal

theorem contained_join {sep : String} (hsep : Contained sep.toList) : ∀ {ss : List String},
    (∀ s ∈ ss, Contained s.toList) → Contained (Text.join sep ss).toList
  | [], _ => contained_nil
  | [s], h => h s List.mem_cons_self
  | s :: t :: rest, h => by
    obtain ⟨hs, hrest⟩ := List.forall_mem_cons.1 h
    exact (hs.concat hsep).concat (contained_join hsep hrest)

theorem contained_art (art : Art) : Contained art.render.toList := by
  cases art with
  | file path => exact contained_quoted path
  | placeholder base text =>
    have hopen : Clean "Placeholder(".toList := by decide
    have htext : Clean ", text=".toList := by decide
    have hclose : Clean ")".toList := by decide
    exact (((hopen.contained.concat (contained_quoted base)).concat htext.contained).concat
      (contained_quoted text)).concat hclose.contained

/-- An argument in quotes, which open at the end of one text and close in the next. -/
theorem contained_argument {front body : String} (hfront : Clean front.toList)
    (hbody : Inert body.toList) : Contained (front ++ "=\"" ++ body ++ "\"").toList := by
  have hchars : (front ++ "=\"" ++ body ++ "\"").toList =
      (front.toList ++ ['=']) ++ '"' :: (body.toList ++ ['"']) := by simp
  have hassign : Clean ['='] := by decide
  rw [hchars]
  exact (hfront.append hassign).contained.append hbody.contained

theorem contained_colorArgument {name : String} (hname : Clean name.toList) (color : Option Color) :
    Contained (colorArgument name color).toList := by
  cases color with
  | none => exact contained_nil
  | some c =>
    have hcomma : Clean ", ".toList := by decide
    have hfront : Clean (", " ++ name).toList := by
      rw [String.toList_append]
      exact hcomma.append hname
    exact contained_argument hfront (clean_color c).inert

theorem render_define (name : String) (c : Character) : (Statement.define name c).render =
    "define " ++ name ++ " = Character(" ++ quoted c.name ++ ", image=\"" ++ name ++ "\""
      ++ colorArgument "who_color" c.nameColor ++ colorArgument "what_color" c.contentColor ++ ")" := rfl

theorem toList_render_comment (text : String) :
    (Statement.comment text).render.toList = ['#', ' '] ++ (oneLine text).toList := String.toList_append

theorem contained_define {name : String} (hname : Clean name.toList) (c : Character) :
    Contained (Statement.define name c).render.toList := by
  have hdefine : Clean "define ".toList := by decide
  have hcharacter : Clean " = Character(".toList := by decide
  have himage : Clean ", image".toList := by decide
  have hwho : Clean "who_color".toList := by decide
  have hwhat : Clean "what_color".toList := by decide
  have hclose : Clean ")".toList := by decide
  have hfirst : Contained ("define " ++ name ++ " = Character(" ++ quoted c.name).toList :=
    ((hdefine.contained.concat hname.contained).concat hcharacter.contained).concat
      (contained_quoted c.name)
  have hrender : (Statement.define name c).render =
      "define " ++ name ++ " = Character(" ++ quoted c.name ++ (", image" ++ "=\"" ++ name ++ "\"")
        ++ colorArgument "who_color" c.nameColor ++ colorArgument "what_color" c.contentColor ++ ")" := by
    rw [render_define, show ", image=\"" = ", image" ++ "=\"" from rfl]
    simp only [String.append_assoc]
  rw [hrender]
  exact (((hfirst.concat (contained_argument himage hname.inert)).concat
    (contained_colorArgument hwho c.nameColor)).concat
    (contained_colorArgument hwhat c.contentColor)).concat hclose.contained

/-- The names that a statement holds. -/
def Statement.names : Statement → List String
  | define name _ | image name _ | label name | showImage name | hideImage name => [name]
  | say speaker attributes _ => speaker.toList ++ attributes.toList
  | scene background => background.toList
  | jump target | call target => [target]
  | _ => []

/-- The statement goes to the script as the document has it. -/
def Statement.isVerbatim : Statement → Bool
  | verbatim _ => true
  | _ => false

/-- The statement is a comment. -/
def Statement.isComment : Statement → Bool
  | comment _ => true
  | _ => false

/-- A line of dialogue is its names and its words, with spaces between them. -/
theorem contained_say {speaker attributes : Option String} (content : StyledText)
    (hnames : ∀ name ∈ speaker.toList ++ attributes.toList, Clean name.toList) :
    Contained (Statement.say speaker attributes content).render.toList := by
  have hspace : Clean " ".toList := by decide
  refine contained_join hspace.contained fun s hs => ?_
  rcases List.mem_append.1 hs with hs | hs
  · exact (hnames s hs).contained
  · rw [List.mem_singleton.1 hs]
    exact (inert_markup content).contained_literal

/-- A word and a name. -/
theorem contained_word (word : String) {name : String} (hword : Clean word.toList)
    (hname : Clean name.toList) : Contained (word ++ name).toList :=
  hword.contained.concat hname.contained

/-- **Statements are contained.** A statement with clean names is one line and closes its
literals, unless it is a comment or goes to the script as the document has it. -/
theorem contained_render {st : Statement} (hnames : ∀ name ∈ st.names, Clean name.toList)
    (hcomment : st.isComment = false) (hverbatim : st.isVerbatim = false) :
    Contained st.render.toList := by
  have hcolon : Contained ":".toList := ⟨rfl, by decide⟩
  cases st with
  | blank => exact contained_nil
  | comment text => cases hcomment
  | define name c => exact contained_define (hnames name List.mem_cons_self) c
  | image name art =>
    have himage : Clean "image ".toList := by decide
    have hassign : Clean " = ".toList := by decide
    exact ((contained_word _ himage (hnames name List.mem_cons_self)).concat hassign.contained).concat
      (contained_art art)
  | label name =>
    have hlabel : Clean "label ".toList := by decide
    exact (contained_word _ hlabel (hnames name List.mem_cons_self)).concat hcolon
  | say speaker attributes content => exact contained_say content hnames
  | showImage name => exact contained_word "show " (by decide) (hnames name List.mem_cons_self)
  | hideImage name => exact contained_word "hide " (by decide) (hnames name List.mem_cons_self)
  | scene background =>
    cases background with
    | none => exact ⟨rfl, by decide⟩
    | some background =>
      exact contained_word "scene bg " (by decide) (hnames background List.mem_cons_self)
  | play channel path =>
    have hplay : Clean ("play " ++ channel.render ++ " ").toList := by cases channel <;> decide
    exact hplay.contained.concat (contained_quoted path)
  | jump target => exact contained_word "jump " (by decide) (hnames target List.mem_cons_self)
  | call target => exact contained_word "call " (by decide) (hnames target List.mem_cons_self)
  | menu => exact ⟨rfl, by decide⟩
  | choice text => exact (contained_quoted text).concat hcolon
  | ret => exact ⟨rfl, by decide⟩
  | pass => exact ⟨rfl, by decide⟩
  | verbatim text => cases hverbatim

theorem newline_not_mem_replaceFrom : ∀ cs : List Char,
    '\n' ∉ Text.replaceFrom ['\n'] [' '] 0 cs
  | [] => by simp [Text.replaceFrom]
  | c :: cs => by
    have ih := newline_not_mem_replaceFrom cs
    rw [Text.replaceFrom]
    split
    · simpa using ih
    · rename_i hc
      have hne : '\n' ≠ c := by simpa using hc
      simpa using ⟨hne, ih⟩

/-- A comment is one line. -/
theorem newline_not_mem_comment (text : String) :
    '\n' ∉ (Statement.comment text).render.toList := by
  have hline : '\n' ∉ (oneLine text).toList := by
    rw [oneLine, Text.replaceAll, String.toList_ofList]
    exact newline_not_mem_replaceFrom text.toList
  rw [toList_render_comment]
  exact List.not_mem_append (by decide) hline

theorem dropReturn_subset (cs : List Char) : Text.dropReturn cs ⊆ cs := by
  unfold Text.dropReturn
  split
  · rename_i rest hreverse
    intro c hc
    have hmem : c ∈ cs.reverse := by
      rw [hreverse]
      exact List.mem_cons_of_mem _ (List.mem_reverse.1 hc)
    exact List.mem_reverse.1 hmem
  · exact List.Subset.refl cs

/-- The lines of a text have no line break. -/
theorem newline_not_mem_of_mem_lines {text line : String} (h : line ∈ Text.lines text) :
    '\n' ∉ line.toList := by
  have hpiece : ∀ w ∈ Text.splitBy (· == '\n') text.toList, '\n' ∉ w := fun w hw hmem => by
    simpa using Text.not_separates_of_mem_splitBy hw _ hmem
  have hreturn : ∀ w ∈ (Text.splitBy (· == '\n') text.toList).dropLast.map Text.dropReturn,
      '\n' ∉ w := fun w hw hmem => by
    obtain ⟨v, hv, rfl⟩ := List.mem_map.1 hw
    exact hpiece v (List.dropLast_subset _ hv) (dropReturn_subset v hmem)
  obtain ⟨w, hw, rfl⟩ := List.mem_map.1 h
  rw [String.toList_ofList]
  split at hw
  · exact hreturn w hw
  · rcases List.mem_append.1 hw with hw | hw
    · exact hreturn w hw
    · exact hpiece w (List.mem_of_getLast? (Option.mem_toList.1 hw))

end Manuscript.Script
