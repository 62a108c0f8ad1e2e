/-
# Texts of a document stay where they are written

Whatever a document holds, its texts do not leave the line and the literal that they
are written to. All names of a script are identifiers, or made of them with full stops
and spaces between them; all other text is escaped in a literal, or stands in a
comment without its line breaks. So a script falls at its line ends into the lines
that were written, one for each entry of its outline, and whoever reads a line that is
no comment is outside all literals at its end.

This holds of every document in which no paragraph asks for its text to go to the
script as it is (`compile_confined`); nothing else puts text there unescaped
(`Program.Stages.exists_verbatim`). Where a paragraph asks for it, its text goes there
line by line, so that the script still falls into its lines
(`Script.rows_render_of_tame`).

Key definitions: `Script.Line.chars`, `Script.rows`, `Script.Statement.Tame`,
`Script.Confined`.
Key theorems: `Script.rows_render`, `Script.clean_imageNames`,
`Script.clean_scriptLabels`, `Script.tame_statements`, `Script.tame_lines`,
`Script.rows_render_of_tame`, `Program.Stages.exists_verbatim`, `compile_confined`.
-/
import Manuscript.Proofs.Script.Literal
import Manuscript.Proofs.Script.Outline

namespace Manuscript

namespace Script

open Identifier (Plain)

/-! ### Lines -/

/-- The characters of a line before its line end. -/
def Line.chars (width : Nat) (l : Line) : List Char :=
  List.replicate (l.depth * width) ' ' ++ l.statement.render.toList

theorem toList_render (width : Nat) (ls : List Line) :
    (render width ls).toList = ls.flatMap fun l => l.chars width ++ ['\n'] := by
  have hline : ∀ l : Line, (l.render width).toList = l.chars width ++ ['\n'] := by
    intro l
    simp [Line.render, Line.chars]
  rw [render, String.toList_join, List.flatMap_map]
  simp only [hline]

/-- What the text of a script falls into at its line ends. -/
def rows (script : String) : List (List Char) := Text.splitBy (· == '\n') script.toList

/-- **Lines without line breaks are what the text falls into.** -/
theorem rows_render {width : Nat} : ∀ {ls : List Line}, (∀ l ∈ ls, '\n' ∉ l.chars width) →
    rows (render width ls) = ls.map (·.chars width) ++ [[]]
  | [], _ => rfl
  | l :: ls, h => by
    obtain ⟨hl, hls⟩ := List.forall_mem_cons.1 h
    have ih := rows_render hls
    have hchars : ∀ c ∈ l.chars width, (c == '\n') = false := fun c hc => by
      simpa using fun he : c = '\n' => hl (he ▸ hc)
    rw [rows, toList_render] at ih ⊢
    rw [List.flatMap_cons, List.append_assoc, List.singleton_append,
      Text.splitBy_append_cons (by simp) _ hchars, ih]
    rfl

/-! ### Names -/

theorem clean_of_plain {cs : List Char} (h : Plain cs) : Clean cs := by
  have hquote : Text.isIdentContinue '"' = false := by decide +kernel
  have hslash : Text.isIdentContinue '\\' = false := by decide +kernel
  have hline : Text.isIdentContinue '\n' = false := by decide +kernel
  intro c hc
  refine ⟨?_, ?_, ?_⟩
  · rintro rfl
    exact h.not_mem hquote hc
  · rintro rfl
    exact h.not_mem hslash hc
  · rintro rfl
    exact h.not_mem hline hc

/-- Clean strings with a clean string between them are clean. -/
theorem clean_join {sep : String} (hsep : Clean sep.toList) : ∀ {ss : List String},
    (∀ s ∈ ss, Clean s.toList) → Clean (Text.join sep ss).toList
  | [], _ => fun c hc => by cases hc
  | [s], h => h s List.mem_cons_self
  | s :: t :: rest, h => by
    obtain ⟨hs, hrest⟩ := List.forall_mem_cons.1 h
    have ih := clean_join hsep hrest
    show Clean (s ++ sep ++ Text.join sep (t :: rest)).toList
    rw [String.toList_append, String.toList_append]
    exact (hs.append hsep).append ih

theorem clean_imageTags (path : List String) : Clean (imageTags path).toList := by
  refine clean_join (by decide) fun tag htag => ?_
  obtain ⟨word, -, rfl⟩ := List.mem_map.1 htag
  exact clean_of_plain (Identifier.plain_sanitize word)

theorem clean_imageName {word : String} (h : Clean word.toList) (path : List String) :
    Clean (imageName word path).toList := by
  have hspace : Clean " ".toList := by decide
  unfold imageName
  split
  · exact h
  · rw [String.toList_append, String.toList_append]
    exact (h.append hspace).append (clean_imageTags path)

variable {p : Program} {g : Generated} {s : CodegenSettings} {free : Prop}

theorem clean_characters {word : String} (h : word ∈ (Names.of p g).characters) :
    Clean word.toList := clean_of_plain (Names.plain_characters p g word h)

theorem clean_character {id : CharacterId} {word : String}
    (h : (Names.of p g).character id = .ok word) : Clean word.toList :=
  clean_characters (List.mem_of_getElem? (getElem?_of_character h))

theorem clean_scene (name : String) : Clean ((Names.of p g).scene name).toList :=
  clean_of_plain (plain_identifierOf _ name)

theorem clean_cg {image : String} (h : Clean image.toList) : Clean ("cg " ++ image).toList := by
  have hword : Clean "cg ".toList := by decide
  rw [String.toList_append]
  exact hword.append h

/-- The names of images are clean. -/
theorem clean_imageNames (h : ∀ id ∈ p.images.map (·.id), Plain id.toList) :
    ∀ name ∈ imageNames p g (Names.of p g), Clean name.toList := by
  intro name hname
  rcases List.mem_append.1 hname with hname | hname
  · rcases List.mem_append.1 hname with hname | hname
    · obtain ⟨e, he, hname⟩ := List.mem_flatMap.1 hname
      obtain ⟨path, -, rfl⟩ := List.mem_map.1 hname
      exact clean_imageName (clean_characters (List.mem_of_getElem? (mem_casting.1 he).2)) path
    · obtain ⟨sc, -, rfl⟩ := List.mem_map.1 hname
      have hword : Clean "bg ".toList := by decide
      rw [String.toList_append]
      exact hword.append (clean_scene sc.name)
  · obtain ⟨image, himage, rfl⟩ := List.mem_map.1 hname
    exact clean_cg (clean_of_plain (h _ (List.mem_map_of_mem himage)))

/-- The labels are clean. -/
theorem clean_scriptLabels :
    ∀ label ∈ scriptLabels (Names.of p g) g.functions, Clean label.toList := by
  intro label hlabel
  obtain ⟨⟨f, id⟩, he, hlabel⟩ := List.mem_flatMap.1 hlabel
  have hf : g.functions[id]? = some f := List.mem_zipIdx_iff_getElem?.1 he
  obtain ⟨name, hname, hplain⟩ := Names.functions_of (p := p) hf
  rw [functionLabels, hname] at hlabel
  rcases List.mem_cons.1 hlabel with rfl | hlabel
  · exact clean_of_plain hplain
  · obtain ⟨l, -, rfl⟩ := List.mem_map.1 hlabel
    rw [Names.labelName_eq_join hf hname]
    refine clean_join (by decide) ?_
    simpa using ⟨clean_of_plain hplain, clean_of_plain (plain_identifierOf _ l)⟩

/-! ### Statements -/

/-- The statement has clean names. If it goes to the script as the document has it, then this is
`free` to happen, and it is one line. -/
structure Statement.Tame (free : Prop) (st : Statement) : Prop where
  names : ∀ name ∈ st.names, Clean name.toList
  verbatim : st.isVerbatim = true → free ∧ '\n' ∉ st.render.toList

theorem tame_of_names {st : Statement} (hnames : ∀ name ∈ st.names, Clean name.toList)
    (hverbatim : st.isVerbatim = false) : st.Tame free :=
  ⟨hnames, fun h => by simp [hverbatim] at h⟩

theorem tame_singleton {st : Statement} (hnames : ∀ name ∈ st.names, Clean name.toList)
    (hverbatim : st.isVerbatim = false) : ∀ other ∈ [st], other.Tame free :=
  List.forall_mem_singleton.2 (tame_of_names hnames hverbatim)

/-- **The statements of an instruction are tame**, if the image that it displays has a clean name
and its text is free to go to the script as it is, if it does so. -/
theorem tame_statements {i : Inst} {sts : List Statement}
    (h : statements s (Names.of p g) i = .ok sts) (hfree : i.action.isVerbatim = true → free)
    (himage : ∀ image, i.action = .showImage image → Clean image.toList) :
    ∀ st ∈ sts, st.Tame free := by
  rcases i with ⟨a, loc⟩
  cases a with
  | say speaker status content =>
    rcases speaker with _ | id
    · cases h
      exact tame_singleton (by simp [Statement.names]) rfl
    · rcases status with _ | ⟨tag, tags⟩
      · obtain ⟨word, hword, h⟩ := bind_eq_ok.1 h
        cases h
        exact tame_singleton (List.forall_mem_singleton.2 (clean_character hword)) rfl
      · obtain ⟨word, hword, h⟩ := bind_eq_ok.1 h
        cases h
        have htags := clean_imageTags (tag :: tags)
        exact tame_singleton (by simpa [Statement.names] using ⟨clean_character hword, htags⟩) rfl
  | showCharacter id path | setState id path =>
    obtain ⟨word, hword, h⟩ := bind_eq_ok.1 h
    cases h
    have hname := clean_imageName (clean_character hword) path
    exact tame_singleton (List.forall_mem_singleton.2 hname) rfl
  | hideCharacter id =>
    obtain ⟨word, hword, h⟩ := bind_eq_ok.1 h
    cases h
    exact tame_singleton (List.forall_mem_singleton.2 (clean_character hword)) rfl
  | setScene scene =>
    cases h
    exact tame_singleton (List.forall_mem_singleton.2 (clean_scene scene)) rfl
  | showImage image =>
    cases h
    exact tame_singleton (List.forall_mem_singleton.2 (clean_cg (himage image rfl))) rfl
  | clearScene =>
    cases h
    exact tame_singleton (by simp [Statement.names]) rfl
  | play channel path =>
    cases h
    exact tame_singleton (by simp [Statement.names]) rfl
  | verbatim text =>
    cases h
    intro st hst
    obtain ⟨line, hline, rfl⟩ := List.mem_map.1 hst
    exact ⟨by simp [Statement.names], fun _ => ⟨hfree rfl, newline_not_mem_of_mem_lines hline⟩⟩
  | comment text =>
    cases h
    split
    · exact tame_singleton (by simp [Statement.names]) rfl
    · simp

/-- A statement of the frame is tame if it sets or goes to a clean label. -/
theorem tame_of_isFrame {st : Statement} (h : st.isFrame = true)
    (hlabel : ∀ name, st.label? = some name → Clean name.toList)
    (htarget : ∀ name, st.target? = some name → Clean name.toList) : st.Tame free := by
  cases st with
  | label name => exact tame_of_names (List.forall_mem_singleton.2 (hlabel name rfl)) rfl
  | jump target | call target =>
    exact tame_of_names (List.forall_mem_singleton.2 (htarget target rfl)) rfl
  | blank | menu | choice | ret | pass => exact tame_of_names (by simp [Statement.names]) rfl
  | _ => cases h

/-! ### Scripts -/

theorem tame_closed {ls : List Line} (h : ∀ l ∈ ls, l.statement.Tame free) :
    ∀ l ∈ closed ls, l.statement.Tame free := by
  have hblank : Statement.blank.Tame free := tame_of_names (by simp [Statement.names]) rfl
  unfold closed
  split
  · simp
  · exact List.forall_mem_append.2 ⟨h, List.forall_mem_singleton.2 hblank⟩

theorem tame_preamble (h : ∀ id ∈ p.images.map (·.id), Plain id.toList) :
    ∀ l ∈ preamble p g s (Names.of p g), l.statement.Tame free := by
  unfold preamble
  refine List.forall_mem_append.2 ⟨List.forall_mem_append.2 ⟨?_, tame_closed ?_⟩, tame_closed ?_⟩
  · unfold header
    split
    · refine tame_closed (List.forall_mem_singleton.2 ?_)
      exact tame_of_names (by simp [Statement.names]) rfl
    · simp
  · intro l hl
    obtain ⟨st, hst, rfl⟩ := List.mem_map.1 hl
    obtain ⟨e, he, rfl⟩ := List.mem_map.1 hst
    exact tame_of_names (List.forall_mem_singleton.2 (clean_characters (List.of_mem_zip he).2)) rfl
  · intro l hl
    obtain ⟨st, hst, rfl⟩ := List.mem_map.1 hl
    obtain ⟨name, art, rfl⟩ := exists_image hst
    have hname : name ∈ imageNames p g (Names.of p g) := by
      rw [← filterMap_defines?_images p g s]
      exact List.mem_filterMap.2 ⟨_, hst, rfl⟩
    exact tame_of_names (List.forall_mem_singleton.2 (clean_imageNames h name hname)) rfl

/-- **All statements of a script are tame.** -/
theorem tame_lines {ls : List Line} (h : lines p g s = .ok ls)
    (hwired : ∀ f ∈ g.functions, f.Wired g.functions.length) (hdeclared : g.Declared p)
    (himages : ∀ id ∈ p.images.map (·.id), Plain id.toList)
    (hfree : ∀ i ∈ g.insts, i.action.isVerbatim = true → free) :
    ∀ l ∈ ls, l.statement.Tame free := by
  obtain ⟨chapters, hwritten, rfl⟩ := lines_eq_ok h
  have hlabels : ∀ name ∈ labelsOf (chapters.map chapter).flatten, Clean name.toList := by
    rw [labelsOf_chapters hwritten hwired]
    exact clean_scriptLabels
  refine List.forall_mem_append.2 ⟨tame_preamble himages, fun l hl => ?_⟩
  rcases framed_chapters hwritten l hl with hframe | ⟨i, hi, sts, hsts, hmem⟩
  · refine tame_of_isFrame hframe (fun name hname => hlabels name ?_) fun name hname =>
      hlabels name (hwritten.mem_labelsOf hwired ?_)
    · exact List.mem_filterMap.2 ⟨l, hl, hname⟩
    · exact List.mem_filterMap.2 ⟨l, hl, hname⟩
  · refine tame_statements hsts (hfree i hi) (fun image haction => ?_) _ hmem
    have hcount := hdeclared.images i hi image haction
    exact clean_of_plain (himages image (List.count_pos_iff.1 (hcount ▸ Nat.one_pos)))

/-- The texts of a script are confined. It falls at its line ends into the lines `ls`, and behind
the last there is nothing; these have the outline of the program, so each entry is one line; and
a line that is no comment, read from its start, ends outside all literals. -/
structure Confined (s : CodegenSettings) (p : Program) (g : Generated) (ls : List Line)
    (script : String) : Prop where
  lines : rows script = ls.map (·.chars s.indentWidth) ++ [[]]
  outline : parts ls = outline p g s
  closed : ∀ line ∈ rows script,
    (line.dropWhile (· == ' ')).head? ≠ some '#' → Quoting.outside.read line = .outside

theorem head?_comment (width depth : Nat) (text : String) :
    ((Line.chars width ⟨depth, .comment text⟩).dropWhile (· == ' ')).head? = some '#' := by
  have hspaces : ∀ c ∈ List.replicate (depth * width) ' ', (c == ' ') = true := by
    intro c hc
    rw [List.eq_of_mem_replicate hc]
    rfl
  rw [Line.chars, List.dropWhile_append_of_pos hspaces, toList_render_comment]
  rfl

/-- A line of a tame statement is contained; or it is a comment or free, without a line break. -/
theorem Statement.Tame.chars {l : Line} (h : l.statement.Tame free) (width : Nat) :
    Contained (l.chars width) ∨ '\n' ∉ l.chars width ∧
      (((l.chars width).dropWhile (· == ' ')).head? = some '#' ∨ free) := by
  have hmargin : Clean (List.replicate (l.depth * width) ' ') := by
    intro c hc
    rw [List.eq_of_mem_replicate hc]
    decide
  rcases l with ⟨depth, st⟩
  cases hcomment : st.isComment with
  | false =>
    cases hverbatim : st.isVerbatim with
    | false =>
      exact .inl (hmargin.contained.append (contained_render h.names hcomment hverbatim))
    | true =>
      obtain ⟨hfree, hline⟩ := h.verbatim hverbatim
      exact .inr ⟨List.not_mem_append hmargin.contained.line hline, .inr hfree⟩
  | true =>
    obtain ⟨text, rfl⟩ : ∃ text, st = .comment text := by
      cases st <;> first | exact ⟨_, rfl⟩ | cases hcomment
    refine .inr ⟨?_, .inl (head?_comment width depth text)⟩
    exact List.not_mem_append hmargin.contained.line (newline_not_mem_comment text)

/-- **A script of tame statements falls into its lines.** -/
theorem rows_render_of_tame {ls : List Line} (h : ∀ l ∈ ls, l.statement.Tame free)
    (width : Nat) :
    rows (render width ls) = ls.map (·.chars width) ++ [[]] := by
  refine rows_render fun l hl => ?_
  rcases (h l hl).chars width with hcontained | ⟨hline, -⟩
  · exact hcontained.line
  · exact hline

/-- **Texts are confined in a script whose statements are tame**, with none that is free. -/
theorem confined_of_tame {ls : List Line} (h : ∀ l ∈ ls, l.statement.Tame free) (hfree : ¬ free)
    (houtline : parts ls = outline p g s) : Confined s p g ls (render s.indentWidth ls) := by
  have hrows := rows_render_of_tame h s.indentWidth
  refine ⟨hrows, houtline, fun line hmem hhead => ?_⟩
  rw [hrows] at hmem
  rcases List.mem_append.1 hmem with hmem | hmem
  · obtain ⟨l, hl, rfl⟩ := List.mem_map.1 hmem
    rcases (h l hl).chars s.indentWidth with hcontained | ⟨-, hcomment⟩
    · exact hcontained.quoting
    · exact absurd (hcomment.resolve_right hfree) hhead
  · rw [List.mem_singleton.1 hmem]
    rfl

end Script

/-- The text that a script holds as it is comes from a paragraph that asks for it. -/
theorem Program.Stages.exists_verbatim {c : CodegenSettings} {a : Assembly} {g : Generated}
    {ls : List Script.Line} {p : Program} {doc : Document} (h : p.Stages c a g ls)
    (ha : a.Sound doc) {i : Inst} (hi : i ∈ g.insts) {text : String}
    (haction : i.action = .verbatim text) :
    ∃ b ∈ doc.blocks, b.GoesVerbatim ∧ b.plain = text := by
  obtain ⟨code, hcode, hi⟩ := List.mem_flatMap.1 hi
  obtain ⟨block, hblock, hi⟩ := List.mem_flatMap.1 hi
  obtain ⟨f, hf, visits, hvisited⟩ := exists_of_mem_forall₂ h.visited hcode
  obtain ⟨source, hsource, hi⟩ := hvisited.exists_of_isAside hblock hi (by rw [haction]; rfl)
  rw [h.lowered] at hf
  obtain ⟨q, hq, rfl⟩ := FlowGraph.exists_of_mem_build hf
  obtain ⟨op, hop, hstep⟩ := FlowGraph.exists_op_of_mem_blocks hsource hi
  have htaken := ha.steps q hq op hop
  rw [hstep, haction] at htaken
  exact htaken

theorem Program.Stages.goesVerbatim {c : CodegenSettings} {a : Assembly} {g : Generated}
    {ls : List Script.Line} {p : Program} {doc : Document} (h : p.Stages c a g ls)
    (ha : a.Sound doc) {i : Inst} (hi : i ∈ g.insts) (hverbatim : i.action.isVerbatim = true) :
    ∃ b ∈ doc.blocks, b.GoesVerbatim := by
  cases haction : i.action with
  | verbatim text =>
    obtain ⟨b, hb, hgoes, -⟩ := h.exists_verbatim ha hi haction
    exact ⟨b, hb, hgoes⟩
  | _ => simp [haction, Action.isVerbatim] at hverbatim

/-- The lines of a document's script are tame, with the texts free that a paragraph asks for. -/
theorem Program.Stages.tame {c : CodegenSettings} {a : Assembly} {g : Generated}
    {ls : List Script.Line} {p : Program} {doc : Document} (h : p.Stages c a g ls)
    (ha : a.Sound doc) : ∀ l ∈ ls, l.statement.Tame (∃ b ∈ doc.blocks, b.GoesVerbatim) := by
  have himages : ∀ id ∈ p.images.map (·.id), Identifier.Plain id.toList := by
    rw [h.lowered]
    exact ha.plain
  exact Script.tame_lines h.lines h.wired (h.declared ha) himages fun _ => h.goesVerbatim ha

/-- **Texts of a document cannot leave their line or their literal.** Every document in which no
paragraph asks for its text to go to the script as it is compiles to a script in which all texts
are confined, whatever they hold. -/
theorem compile_confined (d : Document) (s : Settings) (hd : ∀ b ∈ d.blocks, ¬ b.GoesVerbatim) :
    ∃ c g ls, compile d s = .ok c ∧ generate c.program s.codegen = .ok g ∧
      Script.lines c.program g s.codegen = .ok ls ∧
      Script.Confined s.codegen c.program g ls c.script := by
  obtain ⟨c, hc, a, g, ls, ha, hstages, hscript⟩ := yields_compile d s
  have hsound := Assembly.sound_of_ofDocument ha
  have hfree : ¬ ∃ b ∈ d.blocks, b.GoesVerbatim := fun ⟨b, hb, hgoes⟩ => hd b hb hgoes
  have hinsts : ∀ i ∈ g.insts, i.action.isVerbatim = false := fun i hi =>
    Bool.eq_false_iff.2 fun hverbatim => hfree (hstages.goesVerbatim hsound hi hverbatim)
  have houtline := Script.parts_lines hstages.lines hstages.wired hinsts
  refine ⟨c, g, ls, hc, hstages.generated, hstages.lines, ?_⟩
  rw [hscript]
  exact Script.confined_of_tame (hstages.tame hsound) hfree houtline

/-- A title, a name, a line, a comment and an arm that try to get out. -/
def unruly : Document :=
  ⟨"The \"end\"\n\\", [.ofString "Li\nHua: \"[b]  100%\\\"", .ofString "[Comment x\ny]",
    .ofString "# no\\", .ofString "[Label a]", .ofString "[Branch]", .ofRows [["go \"\n\\", "a"]]]⟩

/-- They stay where they are written. -/
theorem compile_confined_unruly : (∀ b ∈ unruly.blocks, ¬ b.GoesVerbatim) ∧
    ∃ c g ls, compile unruly {} = .ok c ∧ generate c.program {} = .ok g ∧
      Script.lines c.program g {} = .ok ls ∧ Script.Confined {} c.program g ls c.script :=
  have h : ∀ b ∈ unruly.blocks, ¬ b.GoesVerbatim := by decide
  ⟨h, compile_confined unruly {} h⟩

end Manuscript
