/-
# Lines with a named speaker

A name in plain text and a separator make whatever comes behind them spoken by that
name, with one exception: content that is a status and nothing else. The status is
taken as far as it goes and leaves no content, no other form fits a line with a
separator behind its first piece, and the line is not spoken at all
(`SayLine.ofLine?_named`).

Whether the status takes the whole content is decided character by character
(`SayLine.exists_takeTags?_iff`): each step of the scan over the tags either keeps
what is left a list of tags up to the closing parenthesis, or shows that it is none.

Key definitions: `SayLine.PlainName`, `SayLine.TagText`, `SayLine.ClosesStatus`,
`SayLine.StatusAlone`.
Key theorems: `Piece.scan_trimStart`, `Piece.scan_eq_nil_iff`,
`SayLine.exists_takeTags?_iff`, `SayLine.exists_takeStatus?_iff`,
`SayLine.ofLine?_separated`, `SayLine.ofLine?_named`.
-/
import Manuscript.Proofs.Identifier
import Manuscript.Proofs.Line.Spoken

namespace Manuscript

open Text (StartsOff Stands)

/-! ### Pieces between separators -/

namespace Text

variable {p : Char → Bool}

theorem exists_mem_splitBy {c : Char} (hc : p c = false) : ∀ {cs : List Char}, c ∈ cs →
    ∃ piece ∈ splitBy p cs, c ∈ piece
  | d :: cs, hmem => by
    cases hd : p d with
    | true =>
      have hne : c ≠ d := by
        rintro rfl
        simp [hc] at hd
      obtain ⟨piece, hpiece, hin⟩ :=
        exists_mem_splitBy hc ((List.mem_cons.1 hmem).resolve_left hne)
      exact ⟨piece, by simp [splitBy, hd, hpiece], hin⟩
    | false =>
      obtain ⟨first, rest, hsplit, hcons⟩ := exists_splitBy_cons hd cs
      rw [hcons]
      rcases List.mem_cons.1 hmem with rfl | hmem
      · exact ⟨_, List.mem_cons_self, List.mem_cons_self⟩
      · obtain ⟨piece, hpiece, hin⟩ := exists_mem_splitBy hc hmem
        rw [hsplit] at hpiece
        rcases List.mem_cons.1 hpiece with rfl | hpiece
        · exact ⟨_, List.mem_cons_self, List.mem_cons_of_mem d hin⟩
        · exact ⟨piece, List.mem_cons_of_mem _ hpiece, hin⟩

end Text

/-! ### Pieces and blanks -/

namespace Piece

theorem scan_blank {c : Char} (hc : Text.isBlank c = true) (pos : Nat) (cs : List Char) :
    scan pos (c :: cs) = scan (pos + c.utf8Size) cs := by
  rw [scan, if_pos hc]

/-- The blanks at the start of a text are no pieces. -/
theorem scan_trimStart : ∀ (pos : Nat) (cs : List Char),
    scan pos cs = scan (pos + Text.size (cs.takeWhile Text.isBlank)) (Text.trimStart cs)
  | _, [] => rfl
  | pos, c :: cs => by
    cases hc : Text.isBlank c with
    | true =>
      have ih := scan_trimStart (pos + c.utf8Size) cs
      rw [scan_blank hc, ih, Text.trimStart, Text.trimStart, List.dropWhile_cons_of_pos hc,
        List.takeWhile_cons_of_pos hc, Text.size_cons, Nat.add_assoc]
    | false => simp [Text.trimStart, hc]

theorem scan_ne_nil {c : Char} (hc : Text.isBlank c = false) (pos : Nat) (cs : List Char) :
    scan pos (c :: cs) ≠ [] := by
  obtain ⟨p, ps, hscan, -⟩ := exists_scan_cons pos hc cs
  simp [hscan]

/-- **A text without pieces is blank.** -/
theorem scan_eq_nil_iff : ∀ (pos : Nat) (cs : List Char),
    scan pos cs = [] ↔ ∀ c ∈ cs, Text.isBlank c = true
  | _, [] => by simp [scan]
  | pos, c :: cs => by
    cases hc : Text.isBlank c with
    | true => rw [scan_blank hc, scan_eq_nil_iff _ cs, List.forall_mem_cons, hc, eq_self, true_and]
    | false =>
      refine iff_of_false (scan_ne_nil hc pos cs) fun hall => ?_
      simp [hall c List.mem_cons_self] at hc

end Piece

/-! ### What a status is written from -/

namespace SayLine

/-- A tag as it may stand between the commas of a status: no mark and no strong quote breaks it,
and behind its blanks it starts with no single quote. -/
structure TagText (tag : List Char) : Prop where
  unbroken : ∀ c ∈ tag, Piece.breaksText c = false
  unquoted : StartsOff Mark.isWeakQuote (Text.trimStart tag)

/-- Tags with commas between them. -/
def Tags (cs : List Char) : Prop := ∀ tag ∈ Text.splitBy Mark.isListComma cs, TagText tag

/-- Tags up to a closing parenthesis, with nothing but blanks behind it. -/
def ClosesStatus (cs : List Char) : Prop := ∃ tags closer blanks,
  cs = tags ++ closer :: blanks ∧ Tags tags ∧ Mark.isParenClose closer = true ∧
    ∀ c ∈ blanks, Text.isBlank c = true

/-- The content is a status and nothing else. -/
def StatusAlone (content : List Char) : Prop := ∃ opener rest,
  Text.trimStart content = opener :: rest ∧ Mark.isParenOpen opener = true ∧ ClosesStatus rest

theorem tagText_nil : TagText [] := ⟨by simp, Text.startsOff_nil _⟩

theorem tagText_blank_iff {c : Char} (hblank : Text.isBlank c = true)
    (hbreaks : Piece.breaksText c = false) {tag : List Char} : TagText (c :: tag) ↔ TagText tag := by
  have htrim : Text.trimStart (c :: tag) = Text.trimStart tag := List.dropWhile_cons_of_pos hblank
  refine ⟨fun h => ⟨fun d hd => h.unbroken d (List.mem_cons_of_mem c hd), htrim ▸ h.unquoted⟩,
    fun h => ⟨List.forall_mem_cons.2 ⟨hbreaks, h.unbroken⟩, htrim ▸ h.unquoted⟩⟩

section Tags

variable {c : Char} {cs : List Char}

theorem tags_nil : Tags [] := by simpa [Tags, Text.splitBy] using tagText_nil

/-- What breaks a text in a list of tags is a comma. -/
theorem Tags.isListComma (h : Tags cs) (hmem : c ∈ cs) (hbreaks : Piece.breaksText c = true) :
    Mark.isListComma c = true := by
  by_contra hcomma
  obtain ⟨tag, htag, hin⟩ := Text.exists_mem_splitBy (by simpa using hcomma) hmem
  simp [(h tag htag).unbroken c hin] at hbreaks

theorem tags_comma_iff (hcomma : Mark.isListComma c = true) : Tags (c :: cs) ↔ Tags cs := by
  rw [Tags, Text.splitBy, if_pos hcomma, List.forall_mem_cons]
  exact and_iff_right tagText_nil

theorem tags_blank_iff (hblank : Text.isBlank c = true) (hcomma : Mark.isListComma c = false)
    (hbreaks : Piece.breaksText c = false) : Tags (c :: cs) ↔ Tags cs := by
  obtain ⟨tag, rest, hsplit, hcons⟩ := Text.exists_splitBy_cons hcomma cs
  rw [Tags, Tags, hsplit, hcons, List.forall_mem_cons, List.forall_mem_cons,
    tagText_blank_iff hblank hbreaks]

/-- No tag starts with a single quote. -/
theorem Tags.not_isWeakQuote (h : Tags (c :: cs)) (hblank : Text.isBlank c = false)
    (hcomma : Mark.isListComma c = false) : Mark.isWeakQuote c = false := by
  obtain ⟨tag, rest, -, hcons⟩ := Text.exists_splitBy_cons hcomma cs
  have htag : TagText (c :: tag) := h _ (hcons ▸ List.mem_cons_self)
  have htrim : Text.trimStart (c :: tag) = c :: tag :=
    Text.trimStart_of_startsOff (Text.startsOff_cons.2 hblank)
  exact Text.startsOff_cons.1 (htrim ▸ htag.unquoted)

/-- A tag in front of what breaks it leaves the tags behind it as they are. -/
theorem tags_append_iff {rest : List Char} (htag : TagText cs)
    (hrest : StartsOff (!Piece.breaksText ·) rest) : Tags (cs ++ rest) ↔ Tags rest := by
  have hcs : ∀ d ∈ cs, Mark.isListComma d = false := fun d hd => by
    have hbreaks := htag.unbroken d hd
    simp only [Piece.breaksText_eq, Bool.or_eq_false_iff] at hbreaks
    exact hbreaks.1.2
  cases rest with
  | nil =>
    rw [List.append_nil, Tags, Text.splitBy_of_forall hcs]
    exact iff_of_true (by simpa using htag) tags_nil
  | cons d rest =>
    have hbreaks : Piece.breaksText d = true := by simpa using Text.startsOff_cons.1 hrest
    by_cases hcomma : Mark.isListComma d = true
    · rw [tags_comma_iff hcomma, Tags, Text.splitBy_append_cons hcomma rest hcs,
        List.forall_mem_cons]
      exact and_iff_right htag
    · refine iff_of_false (fun h => hcomma ?_) (fun h => hcomma ?_)
      · exact h.isListComma (List.mem_append_right cs List.mem_cons_self) hbreaks
      · exact h.isListComma List.mem_cons_self hbreaks

end Tags

/-! ### How far a status goes -/

section ClosesStatus

variable {c : Char} {cs : List Char}

/-- The first character is the closing parenthesis, or the first of the tags. -/
theorem closesStatus_cons_iff : ClosesStatus (c :: cs) ↔
    (Mark.isParenClose c = true ∧ ∀ d ∈ cs, Text.isBlank d = true) ∨
    ∃ tags closer blanks, cs = tags ++ closer :: blanks ∧ Tags (c :: tags) ∧
      Mark.isParenClose closer = true ∧ ∀ d ∈ blanks, Text.isBlank d = true := by
  constructor
  · rintro ⟨tags, closer, blanks, heq, htags, hcloser, hblanks⟩
    cases tags with
    | nil =>
      cases heq
      exact .inl ⟨hcloser, hblanks⟩
    | cons d tags =>
      cases heq
      exact .inr ⟨tags, closer, blanks, rfl, htags, hcloser, hblanks⟩
  · rintro (⟨hclose, hblanks⟩ | ⟨tags, closer, blanks, rfl, htags, hcloser, hblanks⟩)
    · exact ⟨[], c, cs, rfl, tags_nil, hclose, hblanks⟩
    · exact ⟨c :: tags, closer, blanks, rfl, htags, hcloser, hblanks⟩

/-- A character that may stand before any tags changes nothing. -/
theorem closesStatus_skip_iff (hclose : Mark.isParenClose c = false)
    (hskip : ∀ tags, Tags (c :: tags) ↔ Tags tags) : ClosesStatus (c :: cs) ↔ ClosesStatus cs := by
  simp only [closesStatus_cons_iff, hclose, hskip, Bool.false_eq_true, false_and, false_or]
  rfl

theorem closesStatus_parenClose_iff (hclose : Mark.isParenClose c = true) :
    ClosesStatus (c :: cs) ↔ ∀ d ∈ cs, Text.isBlank d = true := by
  have hmark := mark?_of_isParenClose hclose
  rw [closesStatus_cons_iff, or_iff_left, and_iff_right hclose]
  rintro ⟨tags, -, -, -, htags, -⟩
  have hcomma := htags.isListComma List.mem_cons_self (by simp [Piece.breaksText, hmark])
  rw [mark?_of_isListComma hcomma] at hmark
  cases hmark

/-- A character that no tags start with and that does not close the status. -/
theorem not_closesStatus (hclose : Mark.isParenClose c = false)
    (htags : ∀ tags, ¬ Tags (c :: tags)) : ¬ ClosesStatus (c :: cs) := by
  rw [closesStatus_cons_iff]
  rintro (⟨hclose', -⟩ | ⟨tags, -, -, -, h, -⟩)
  · simp [hclose] at hclose'
  · exact htags tags h

/-- A tag in front of what breaks it is passed over. -/
theorem closesStatus_append_iff {rest : List Char} (htag : TagText cs)
    (hrest : StartsOff (!Piece.breaksText ·) rest) :
    ClosesStatus (cs ++ rest) ↔ ClosesStatus rest := by
  constructor
  · rintro ⟨tags, closer, blanks, heq, htags, hcloser, hblanks⟩
    have hbreaks : Piece.breaksText closer = true := by
      simp [Piece.breaksText, mark?_of_isParenClose hcloser]
    -- the closing parenthesis breaks texts, so it stands behind the tag
    rcases List.append_eq_append_iff.1 heq with ⟨more, rfl, hmore⟩ | ⟨more, hcs, hmore⟩
    · refine ⟨more, closer, blanks, hmore, ?_, hcloser, hblanks⟩
      refine (tags_append_iff htag ?_).1 htags
      cases more with
      | nil => exact Text.startsOff_nil _
      | cons d more =>
        rw [hmore, List.cons_append, Text.startsOff_cons] at hrest
        exact Text.startsOff_cons.2 hrest
    · cases more with
      | nil =>
        refine ⟨[], closer, blanks, by simpa using hmore.symm, tags_nil, hcloser, hblanks⟩
      | cons d more =>
        obtain ⟨rfl, -⟩ := List.cons.inj hmore
        have hd := htag.unbroken closer (hcs ▸ by simp)
        simp [hbreaks] at hd
  · rintro ⟨tags, closer, blanks, rfl, htags, hcloser, hblanks⟩
    refine ⟨cs ++ tags, closer, blanks, by simp, (tags_append_iff htag ?_).2 htags, hcloser, hblanks⟩
    cases tags with
    | nil => exact Text.startsOff_nil _
    | cons d tags => exact Text.startsOff_cons.2 (Text.startsOff_cons.1 hrest)

end ClosesStatus

section Marks

variable {c : Char} {kind : PieceKind}

/-- A mark that is neither a comma nor a closing parenthesis ends the tags without closing them. -/
theorem not_closesStatus_of_mark? (hmark : Piece.mark? c = some kind) (hclose : kind ≠ .parenClose)
    (hcomma : kind ≠ .comma) (cs : List Char) : ¬ ClosesStatus (c :: cs) := by
  have hclose : Mark.isParenClose c = false := by
    by_contra h
    rw [mark?_of_isParenClose (by simpa using h)] at hmark
    exact hclose (Option.some.inj hmark).symm
  refine not_closesStatus hclose fun tags h => ?_
  have hlist := h.isListComma List.mem_cons_self (by simp [Piece.breaksText, hmark])
  rw [mark?_of_isListComma hlist] at hmark
  exact hcomma (Option.some.inj hmark).symm

theorem not_isParenClose_of_mark? (hmark : Piece.mark? c = none) : Mark.isParenClose c = false := by
  by_contra h
  simp [mark?_of_isParenClose (by simpa using h)] at hmark

theorem not_isListComma_of_mark? (hmark : Piece.mark? c = none) : Mark.isListComma c = false := by
  by_contra h
  simp [mark?_of_isListComma (by simpa using h)] at hmark

theorem mark?_of_isBlank (hblank : Text.isBlank c = true) : Piece.mark? c = none := by
  by_contra hsome
  obtain ⟨kind, hkind⟩ := Option.ne_none_iff_exists'.1 hsome
  simp [Piece.not_isBlank_of_mark? hkind] at hblank

/-- A quote opens no tag, and closes no status. -/
theorem not_closesStatus_of_quote {closers : List Char}
    (hquote : Mark.sayClosers? c = some closers) (cs : List Char) : ¬ ClosesStatus (c :: cs) := by
  obtain ⟨hblank, hmark⟩ := Mark.not_mark_of_sayClosers? hquote
  have hcomma := not_isListComma_of_mark? hmark
  refine not_closesStatus (not_isParenClose_of_mark? hmark) fun tags h => ?_
  have hweak := h.not_isWeakQuote hblank hcomma
  have hbreaks : Piece.breaksText c = true := by simp [Piece.breaksText, hquote, hweak]
  simp [h.isListComma List.mem_cons_self hbreaks] at hcomma

theorem closesStatus_blank_iff (hblank : Text.isBlank c = true) (cs : List Char) :
    ClosesStatus (c :: cs) ↔ ClosesStatus cs := by
  have hmark := mark?_of_isBlank hblank
  have hquote : Mark.sayClosers? c = none := by
    by_contra hsome
    obtain ⟨closers, hclosers⟩ := Option.ne_none_iff_exists'.1 hsome
    simp [(Mark.not_mark_of_sayClosers? hclosers).1] at hblank
  have hbreaks : Piece.breaksText c = false := by simp [Piece.breaksText, hmark, hquote]
  exact closesStatus_skip_iff (not_isParenClose_of_mark? hmark) fun tags =>
    tags_blank_iff hblank (not_isListComma_of_mark? hmark) hbreaks

/-- The longest stretch that nothing breaks is passed over. -/
theorem closesStatus_stretch_iff (hblank : Text.isBlank c = false) (hmark : Piece.mark? c = none)
    (hquote : Mark.sayClosers? c = none) (cs : List Char) :
    ClosesStatus (c :: cs) ↔ ClosesStatus (cs.dropWhile (!Piece.breaksText ·)) := by
  have hbreaks : Piece.breaksText c = false := by simp [Piece.breaksText, hmark, hquote]
  have hweak : Mark.isWeakQuote c = false := by
    have hopens := Mark.isSome_sayClosers? c
    rw [hquote] at hopens
    simpa using (Bool.or_eq_false_iff.1 hopens.symm).2
  have htag : TagText (c :: cs.takeWhile (!Piece.breaksText ·)) := by
    refine ⟨List.forall_mem_cons.2 ⟨hbreaks, fun d hd => ?_⟩, ?_⟩
    · simpa using List.mem_takeWhile_imp hd
    · rw [Text.trimStart_of_startsOff (Text.startsOff_cons.2 hblank)]
      exact Text.startsOff_cons.2 hweak
  have happend := closesStatus_append_iff htag (Text.startsOff_dropWhile (!Piece.breaksText ·) cs)
  rwa [List.cons_append, List.takeWhile_append_dropWhile] at happend

end Marks

/-- **The tags reach the end of the text** if they are closed there. -/
theorem exists_takeTags?_iff (line : List Char) (pos : Nat) (cs : List Char) :
    (∃ tags, takeTags? line (Piece.scan pos cs) = some (tags, [])) ↔ ClosesStatus cs := by
  fun_induction Piece.scan pos cs with
  | case1 => simp [takeTags?, ClosesStatus]
  | case2 pos c cs next hblank ih => rw [ih, closesStatus_blank_iff hblank]
  | case3 pos c cs next _ kind hmark ih =>
    have hkind := hmark
    unfold Piece.mark? at hkind
    split_ifs at hkind with hsep hopen hclose hcomma
    · cases hkind
      exact iff_of_false (by simp [takeTags?, Piece.bare])
        (not_closesStatus_of_mark? hmark (by simp) (by simp) cs)
    · cases hkind
      exact iff_of_false (by simp [takeTags?, Piece.bare])
        (not_closesStatus_of_mark? hmark (by simp) (by simp) cs)
    · cases hkind
      rw [closesStatus_parenClose_iff hclose, ← Piece.scan_eq_nil_iff next cs]
      simp [takeTags?, Piece.bare]
    · cases hkind
      have hskip : ClosesStatus (c :: cs) ↔ ClosesStatus cs :=
        closesStatus_skip_iff (by simpa using hclose) fun _ => tags_comma_iff hcomma
      rw [hskip, ← ih]
      simp [takeTags?, Piece.bare]
  | case4 pos c cs next _ _ closers hquote body close rest htake stop ih =>
    exact iff_of_false (by simp [takeTags?]) (not_closesStatus_of_quote hquote cs)
  | case5 pos c cs _ _ closers hquote _ =>
    exact iff_of_false (by simp [takeTags?, Piece.bare]) (not_closesStatus_of_quote hquote cs)
  | case6 pos c cs hblank hmark hquote body ih =>
    rw [closesStatus_stretch_iff (by simpa using hblank) hmark hquote, ← ih]
    simp [takeTags?, Piece.bare]

/-- **The status takes the whole content** if the content is a status and nothing else. -/
theorem exists_takeStatus?_iff (line : List Char) (pos : Nat) (content : List Char) :
    (∃ tags, takeStatus? line (Piece.scan pos content) = some (tags, [])) ↔
      StatusAlone content := by
  rw [Piece.scan_trimStart, StatusAlone]
  have hblank := Text.startsOff_dropWhile Text.isBlank content
  cases htrim : Text.trimStart content with
  | nil => simp [Piece.scan, takeStatus?]
  | cons c cs =>
    rw [← Text.trimStart, htrim] at hblank
    by_cases hopen : Mark.isParenOpen c = true
    · rw [Piece.scan_mark _ (mark?_of_isParenOpen hopen), takeStatus?, Piece.bare,
        if_pos rfl, exists_takeTags?_iff]
      simp [hopen]
    · obtain ⟨p, ps, hscan, -, -, hkind, -⟩ := Piece.exists_scan_cons
        (pos + Text.size (content.takeWhile Text.isBlank)) (Text.startsOff_cons.1 hblank) cs
      rw [hscan, takeStatus?, if_neg fun h => hopen (hkind h)]
      simp [hopen]

/-! ### Behind a name and a separator -/

/-- A name in plain text, perhaps with blanks around it: it is taken for a name, nothing breaks
it, and it starts with no single quote. -/
structure PlainName (limit : Nat) (cs : List Char) : Prop where
  isName : (NameClass.of cs false limit).isName = true
  unbroken : ∀ c ∈ cs, Piece.breaksText c = false
  unquoted : StartsOff Mark.isWeakQuote (Text.trimStart cs)

theorem PlainName.trimStart_ne_nil {limit : Nat} {name : List Char} (h : PlainName limit name) :
    Text.trimStart name ≠ [] := by
  intro hnil
  have hname := h.isName
  have htrim : Text.trim name = [] := by rw [Text.trim, hnil]; rfl
  simp [NameClass.of, htrim, NameClass.isName] at hname

theorem takeContent?_eq_none_iff {line : List Char} {ps : List Piece} :
    takeContent? line false ps = none ↔ ps = [] := by
  cases ps with
  | nil => simp [takeContent?]
  | cons p ps =>
    rw [takeContent?, Bool.false_and, if_neg (by simp)]
    split_ifs <;> simp

/-- Nothing is left behind the status if the content is a status and nothing else. -/
theorem takeStatus_eq_nil_iff {line content : List Char} {pos : Nat}
    (hcontent : Piece.scan pos content ≠ []) :
    (takeStatus line (Piece.scan pos content)).2 = [] ↔ StatusAlone content := by
  rw [← exists_takeStatus?_iff line pos content, takeStatus]
  cases htake : takeStatus? line (Piece.scan pos content) with
  | none => simpa using hcontent
  | some taken =>
    obtain ⟨tags, rest⟩ := taken
    simp

section Named

variable {limit : Nat} {name content : List Char} {sep : Char}

/-- The pieces of a line with a name and a separator: the name without its blanks, the
separator, and the pieces of what follows. -/
theorem exists_scan_named (hname : PlainName limit name) (hsep : Mark.isSeparator sep = true)
    (content : List Char) : ∃ start pos stop,
    Stands (name ++ sep :: content) start (Text.trim name) ∧
    Piece.scan 0 (name ++ sep :: content) =
      Piece.bare .text start (start + Text.size (Text.trim name)) ::
        Piece.bare .separator pos stop :: Piece.scan stop content := by
  have hmark := mark?_of_isSeparator hsep
  have hne := hname.trimStart_ne_nil
  have hblank : StartsOff Text.isBlank (Text.trimStart name) :=
    Text.startsOff_dropWhile Text.isBlank name
  have hbreaks : ∀ c ∈ Text.trimStart name, Piece.breaksText c = false := fun c hc =>
    hname.unbroken c ((List.dropWhile_suffix Text.isBlank).subset hc)
  have hsplit : name ++ sep :: content =
      name.takeWhile Text.isBlank ++ (Text.trimStart name ++ sep :: content) := by
    rw [← List.append_assoc, Text.takeWhile_append_trimStart]
  have hoff : StartsOff Text.isBlank (Text.trimStart name ++ sep :: content) := by
    obtain ⟨c, cs, hcons⟩ := List.exists_cons_of_ne_nil hne
    rw [hcons] at hblank ⊢
    exact Text.startsOff_cons.2 (Text.startsOff_cons.1 hblank)
  have hblanks : ∀ c ∈ name.takeWhile Text.isBlank, Text.isBlank c = true := fun c hc =>
    List.mem_takeWhile_imp hc
  have hstands : Stands (name ++ sep :: content) (Text.size (name.takeWhile Text.isBlank))
      (Text.trimStart name) := ⟨_, _, hsplit, rfl⟩
  have htrim : Text.trimStart (name ++ sep :: content) = Text.trimStart name ++ sep :: content := by
    rw [hsplit]
    exact Text.dropWhile_append_of_startsOff hblanks hoff
  have hscan := Piece.scan_stretch (Text.size ((name ++ sep :: content).takeWhile Text.isBlank))
    hne hblank hbreaks hname.unquoted (startsOff_of_mark? hmark content)
  rw [Piece.scan_mark _ hmark, ← htrim, ← Nat.zero_add (Text.size _), ← Piece.scan_trimStart,
    Nat.zero_add] at hscan
  refine ⟨_, _, _, ?_, hscan⟩
  rw [hsplit, Text.takeWhile_append_of_startsOff hblanks hoff, ← hsplit]
  exact hstands.trimEnd

/-- A name in plain text is taken without its blanks. -/
theorem takeName?_plain {line : List Char} {start : Nat} (hname : PlainName limit name)
    (hstands : Stands line start (Text.trim name)) (rest : List Piece) :
    takeName? line limit false
        (Piece.bare .text start (start + Text.size (Text.trim name)) :: rest) =
      some (⟨⟨start, start + Text.size (Text.trim name)⟩, String.ofList (Text.trim name)⟩, false,
        rest) := by
  have hclass : NameClass.of (Text.trim name) false limit = NameClass.of name false limit := by
    rw [NameClass.of, NameClass.of, Text.trim_trim]
  rw [takeName?, Piece.bare]
  dsimp only
  rw [hstands.slice_eq, hclass, hname.isName, Text.trim_trim]
  rfl

theorem speaker_of_readBehind? {line : List Char} {form : SayForm} {speaker : Option Field}
    {quoted : Bool} {ps : List Piece} {s : SayLine}
    (h : readBehind? line form speaker quoted ps = some s) :
    s.speaker = speaker ∧ s.speakerQuoted = quoted := by
  rw [readBehind?] at h
  obtain ⟨⟨status, rest⟩, -, h⟩ := Option.bind_eq_some_iff.1 h
  obtain ⟨⟨content, contentQuoted⟩, -, h⟩ := Option.bind_eq_some_iff.1 h
  cases h
  exact ⟨rfl, rfl⟩

section Separated

variable {text : String} {p q : Piece} {ps : List Piece} {f : Field}

/-- No form but the first has a separator right behind the name. -/
theorem readBehind?_separated_eq_none {line : List Char} {form : SayForm} {speaker : Option Field}
    {quoted : Bool} (hq : q.kind = .separator) (hform : form = .statusFirst ∨ form = .quotedContent) :
    readBehind? line form speaker quoted (q :: ps) = none := by
  have hstatus : takeStatus? line (q :: ps) = none := takeStatus?_eq_none (by simp [hq])
  rcases hform with rfl | rfl
  · exact readBehind?_eq_none (by rw [takeMiddle?, hstatus]; rfl)
  · have hmiddle : takeMiddle? line .quotedContent (q :: ps) = some ([], q :: ps) := by
      rw [takeMiddle?, takeStatus, hstatus]
      rfl
    exact readBehind?_eq_none_of_content hmiddle (by simp [takeContent?, hq])

/-- Without its name, a line that starts with text is not spoken. -/
theorem exists_readForm?_unnamed {line : List Char} (hp : p.kind = .text) :
    ∃ s, readForm? line limit (p :: ps) .quotedName false = some s ∧ s.isSpoken = false := by
  have hmiddle : takeMiddle? line .quotedName (p :: ps) = some ([], p :: ps) := by
    rw [takeMiddle?, takeStatus, takeStatus?_eq_none (by simp [hp])]
    rfl
  refine ⟨_, readBehind?_eq_some hmiddle (by rw [takeContent?, hp]; rfl), rfl⟩

/-- **A line with a separator behind its name is read by the first form or not at all.** -/
theorem ofLine?_separated (hscan : Piece.scan 0 text.toList = p :: q :: ps) (hp : p.kind = .text)
    (hq : q.kind = .separator)
    (htake : takeName? text.toList limit false (p :: q :: ps) = some (f, false, q :: ps)) :
    ofLine? text limit = readBehind? text.toList .separatorFirst (some f) false (q :: ps) := by
  have hnamed : ∀ form ≠ SayForm.quotedName, readForm? text.toList limit (p :: q :: ps) form true =
      readBehind? text.toList form (some f) false (q :: ps) := by
    intro form hform
    rw [readForm?, if_pos rfl, decide_eq_false hform, htake]
    rfl
  cases hfirst : readBehind? text.toList .separatorFirst (some f) false (q :: ps) with
  | some s =>
    have hform : readForm? text.toList limit (p :: q :: ps) .separatorFirst true = some s := by
      rw [hnamed _ (by simp), hfirst]
    have hspeaker : s.speaker.isSome = true := by
      rw [(speaker_of_readBehind? hfirst).1]
      rfl
    exact ofLine?_of_attempts hscan (by simp [hp]) (by simp [hp]) (by simp) hform hspeaker
  | none =>
    have hunnamed : ∀ form ≠ SayForm.quotedName,
        readForm? text.toList limit (p :: q :: ps) form false = none :=
      fun form hform => readForm?_unnamed_eq_none (by simp [hp]) (by simp [hp]) hform
    have hquoted : readForm? text.toList limit (p :: q :: ps) .quotedName true = none := by
      rw [readForm?, if_pos rfl, takeName?, hp]
      rfl
    obtain ⟨s, hlast, hspoken⟩ : ∃ s, readForm? text.toList limit (p :: q :: ps) .quotedName false =
        some s ∧ s.isSpoken = false := exists_readForm?_unnamed hp
    have hread : ofLine? text limit = (attempts.findSome? fun e =>
        readForm? text.toList limit (Piece.scan 0 text.toList) e.1 e.2).filter isSpoken := rfl
    rw [hread, hscan]
    simp [attempts, hnamed, hunnamed, hfirst, hquoted, hlast, hspoken,
      readBehind?_separated_eq_none hq]

end Separated

/-- **A named line is spoken by its name, unless its content is a status and nothing else.** A name
in plain text, a separator and content that is not blank are read as a spoken line with that name;
only where a status in parentheses takes the whole content is the line not spoken at all. -/
theorem ofLine?_named (text : String) (hname : PlainName limit name)
    (hsep : Mark.isSeparator sep = true) (hcontent : ∃ c ∈ content, Text.isBlank c = false)
    (htext : text.toList = name ++ sep :: content) :
    (StatusAlone content → ofLine? text limit = none) ∧
    (¬ StatusAlone content → ∃ s, ofLine? text limit = some s ∧
      s.speakerText = some (String.ofList (Text.trim name)) ∧ s.speakerQuoted = false) := by
  obtain ⟨start, pos, stop, hstands, hscan⟩ := exists_scan_named hname hsep content
  rw [← htext] at hstands hscan
  have hpieces : Piece.scan stop content ≠ [] := by
    obtain ⟨c, hc, hblank⟩ := hcontent
    intro hnil
    rw [(Piece.scan_eq_nil_iff stop content).1 hnil c hc] at hblank
    cases hblank
  have hread := ofLine?_separated hscan rfl rfl (takeName?_plain hname hstands _)
  have hrest : (takeStatus text.toList (Piece.scan stop content)).2 = [] ↔ StatusAlone content :=
    takeStatus_eq_nil_iff hpieces
  have hmiddle : takeMiddle? text.toList .separatorFirst
      (Piece.bare .separator pos stop :: Piece.scan stop content) =
        some (takeStatus text.toList (Piece.scan stop content)) := rfl
  constructor
  · intro halone
    rw [hread]
    exact readBehind?_eq_none_of_content hmiddle (takeContent?_eq_none_iff.2 (hrest.2 halone))
  · intro halone
    obtain ⟨⟨fields, quoted⟩, htaken⟩ := Option.ne_none_iff_exists'.1 fun hnone =>
      halone (hrest.1 (takeContent?_eq_none_iff.1 hnone))
    refine ⟨_, hread.trans (readBehind?_eq_some hmiddle htaken), rfl, rfl⟩

end Named

theorem plainName_liHua : PlainName 24 " Li Hua ".toList where
  isName := by decide +kernel
  unbroken := by
    have hall : " Li Hua ".toList.all (!Piece.breaksText ·) = true := by decide +kernel
    simpa using List.all_eq_true.1 hall
  unquoted := Text.startsOff_cons.2 (by decide)

/-- Content that holds no closing parenthesis is no status. -/
theorem not_statusAlone {content : List Char} (h : content.all (!Mark.isParenClose ·) = true) :
    ¬ StatusAlone content := by
  rintro ⟨opener, rest, htrim, -, tags, closer, blanks, rfl, -, hcloser, -⟩
  have hmem : closer ∈ content :=
    (List.dropWhile_suffix Text.isBlank).subset (htrim ▸ by simp : closer ∈ Text.trimStart content)
  have hopen := List.all_eq_true.1 h closer hmem
  rw [hcloser] at hopen
  cases hopen

/-- A parenthesis that is not closed is content, with the name and its blanks before it. -/
theorem ofLine?_named_liHua : PlainName 24 " Li Hua ".toList ∧ Mark.isSeparator '：' = true ∧
    (∃ c ∈ "（soft".toList, Text.isBlank c = false) ∧ ¬ StatusAlone "（soft".toList ∧
    ∃ s, ofLine? " Li Hua ：（soft" 24 = some s ∧ s.speakerText = some "Li Hua" ∧
      s.speakerQuoted = false := by
  have hcontent : ∃ c ∈ "（soft".toList, Text.isBlank c = false := ⟨'（', by simp, by decide⟩
  have halone : ¬ StatusAlone "（soft".toList := not_statusAlone (by decide +kernel)
  exact ⟨plainName_liHua, by decide, hcontent, halone,
    (ofLine?_named _ plainName_liHua (by decide) hcontent rfl).2 halone⟩

/-- Content that is a status and nothing else leaves the named line unspoken. -/
theorem ofLine?_statusAlone : (NameClass.of "Alice".toList false 24).isName = true ∧
    "Alice".toList.all (!Piece.breaksText ·) = true ∧
    ofLine? "Alice:(smile)" 24 = none := by
  refine ⟨by decide +kernel, by decide +kernel, by decide +kernel⟩

end SayLine
end Manuscript
