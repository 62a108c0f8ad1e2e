/-
# Spoken lines are read back

A spoken line is written from a name, tags and a content in one of four forms
(`SayWritten`). Whatever the texts are, within what a name, a tag and a content may
be, the line is read as spoken, and the name, the tags and the content come back as
they were written (`Line.read_written`).

The pieces of such a line are known one by one: a text that nothing breaks is one
piece, so is a mark and so is a quote, and the content starts a piece. So the forms
that are tried before the right one fail, each at a piece of another kind.

Key definitions: `Mark.opensStrong`, `Unbroken`, `SpeakerName`, `OpenContent`,
`TagsJoined`, `StatusWritten`, `SayWritten`.
Key theorems: `Piece.scan_unbroken`, `Piece.scan_quote`, `SayLine.takeTags?_joined`,
`SayLine.ofLine?_of_attempts`, `Line.read_written`.
-/
import Manuscript.Line.Basic
import Manuscript.Proofs.Line.CommandLine

namespace Manuscript

open Text (StartsOff Stands)

/-! ### Characters -/

namespace Mark

/-- Opens a quote that is no single one: a double quote, a corner or a bracket. -/
def opensStrong (c : Char) : Bool := ['"', '“', '”', '„', '「', '『', '[', '［', '【'].contains c

/-- What opens a quote in a spoken line is strong or a single quote. -/
theorem isSome_sayClosers? (c : Char) :
    (sayClosers? c).isSome = (opensStrong c || isWeakQuote c) := by
  unfold sayClosers?
  split
  case h_4 =>
    unfold closers?
    split
    case h_10 => simp_all [opensStrong, isWeakQuote]
    all_goals rfl
  all_goals rfl

theorem not_isWeakQuote_of_opensStrong {c : Char} (h : opensStrong c = true) :
    isWeakQuote c = false := by
  simpa using of_contains (p := (!isWeakQuote ·)) (by decide) h

/-- A quote opener of a spoken line is no blank and no other mark. -/
theorem not_mark_of_sayClosers? {c : Char} {closers : List Char} (h : sayClosers? c = some closers) :
    Text.isBlank c = false ∧ Piece.mark? c = none := by
  have hopens : (opensStrong c || isWeakQuote c) = true := by rw [← isSome_sayClosers?, h]; rfl
  have hclass : (!Text.isBlank c && (Piece.mark? c).isNone) = true := by
    rcases Bool.or_eq_true_iff.1 hopens with hstrong | hweak
    · exact of_contains (p := fun c => !Text.isBlank c && (Piece.mark? c).isNone) (by decide) hstrong
    · exact of_contains (p := fun c => !Text.isBlank c && (Piece.mark? c).isNone) (by decide) hweak
  simpa using hclass

end Mark

namespace Piece

theorem not_isBlank_of_mark? {c : Char} {kind : PieceKind} (h : mark? c = some kind) :
    Text.isBlank c = false := by
  have hclass : ∀ {cs : List Char}, cs.all (!Text.isBlank ·) = true → cs.contains c = true →
      Text.isBlank c = false := fun hall hc => by simpa using Mark.of_contains hall hc
  unfold mark? at h
  split_ifs at h with hseparator hopen hclose hcomma
  · exact hclass (by decide) hseparator
  · exact hclass (by decide) hopen
  · exact hclass (by decide) hclose
  · exact hclass (by decide) hcomma

theorem breaksText_eq (c : Char) : breaksText c = (Mark.isSeparator c || Mark.isParenOpen c ||
    Mark.isParenClose c || Mark.isListComma c || Mark.opensStrong c) := by
  have hquote : ((Mark.sayClosers? c).isSome && !Mark.isWeakQuote c) = Mark.opensStrong c := by
    rw [Mark.isSome_sayClosers?]
    cases hstrong : Mark.opensStrong c with
    | false => simp
    | true => simp [Mark.not_isWeakQuote_of_opensStrong hstrong]
  rw [breaksText, hquote]
  unfold mark?
  split_ifs <;> simp_all

end Piece

/-! ### What a line is written from -/

/-- A text that is one piece: it is trimmed and not empty, no mark and no strong quote breaks
it, and it starts with no single quote. -/
structure Unbroken (cs : List Char) : Prop where
  nonempty : cs ≠ []
  trimmed : Text.trim cs = cs
  marks : ∀ c ∈ cs, Mark.isSeparator c = false ∧ Mark.isParenOpen c = false ∧
    Mark.isParenClose c = false ∧ Mark.isListComma c = false ∧ Mark.opensStrong c = false
  unquoted : StartsOff Mark.isWeakQuote cs

/-- The name of a speaker: short, without reserved punctuation and medium marks. -/
structure SpeakerName (limit : Nat) (cs : List Char) : Prop extends Unbroken cs where
  short : cs.length ≤ limit
  plain : ∀ c ∈ cs, NameClass.reserved.contains c = false ∧ Mark.isElement c = false

/-- Content without quotes: it is trimmed and not empty, and starts with no quote and no
parenthesis. -/
structure OpenContent (cs : List Char) : Prop where
  nonempty : cs ≠ []
  trimmed : Text.trim cs = cs
  unquoted : StartsOff (fun c => (Mark.sayClosers? c).isSome) cs
  unopened : StartsOff Mark.isParenOpen cs

/-- Tags, with a list comma between any two. -/
inductive TagsJoined : List (List Char) → List Char → Prop
  | one (tag : List Char) : TagsJoined [tag] tag
  | more {comma : Char} {tags : List (List Char)} {joined : List Char} (tag : List Char)
      (hcomma : Mark.isListComma comma = true) (hjoined : TagsJoined tags joined) :
      TagsJoined (tag :: tags) (tag ++ comma :: joined)

/-- A status: tags in parentheses, or nothing if there are no tags. -/
inductive StatusWritten : List (List Char) → List Char → Prop
  | none : StatusWritten [] []
  | tags {opener closer : Char} {tags : List (List Char)} {joined : List Char}
      (hopener : Mark.isParenOpen opener = true) (hcloser : Mark.isParenClose closer = true)
      (hjoined : TagsJoined tags joined) : StatusWritten tags (opener :: (joined ++ [closer]))

theorem StatusWritten.eq_nil {tags : List (List Char)} {status : List Char}
    (h : StatusWritten tags status) (hnil : tags = []) : status = [] := by
  cases h with
  | none => rfl
  | tags _ _ hjoined =>
    subst hnil
    cases hjoined

/-- A spoken line as it is written in each form. -/
inductive SayWritten : SayForm → (name : List Char) → (tags : List (List Char)) →
    (content : List Char) → (line : List Char) → Prop
  | separatorFirst {sep : Char} {name status content : List Char} {tags : List (List Char)}
      (hsep : Mark.isSeparator sep = true) (hstatus : StatusWritten tags status)
      (hcontent : OpenContent content) :
      SayWritten .separatorFirst name tags content (name ++ sep :: (status ++ content))
  | statusFirst {sep : Char} {name status content : List Char} {tags : List (List Char)}
      (htags : tags ≠ []) (hstatus : StatusWritten tags status) (hsep : Mark.isSeparator sep = true)
      (hcontent : OpenContent content) :
      SayWritten .statusFirst name tags content (name ++ (status ++ sep :: content))
  | quotedContent {name status content : List Char} {tags : List (List Char)}
      (hstatus : StatusWritten tags status) (hcontent : '“' ∉ content ∧ '”' ∉ content) :
      SayWritten .quotedContent name tags content (name ++ (status ++ '“' :: (content ++ ['”'])))
  | quotedName {name status content : List Char} {tags : List (List Char)} (hname : '」' ∉ name)
      (hstatus : StatusWritten tags status) (hcontent : OpenContent content)
      (hsep : StartsOff Mark.isSeparator content) :
      SayWritten .quotedName name tags content ('「' :: (name ++ '」' :: (status ++ content)))

/-! ### Pieces -/

theorem Unbroken.breaksText {cs : List Char} (h : Unbroken cs) :
    ∀ c ∈ cs, (!Piece.breaksText c) = true := by
  intro c hc
  obtain ⟨hsep, hopen, hclose, hcomma, hquote⟩ := h.marks c hc
  simp [Piece.breaksText_eq, hsep, hopen, hclose, hcomma, hquote]

namespace Piece

variable (pos : Nat)

theorem scan_mark {c : Char} {kind : PieceKind} (h : mark? c = some kind) (rest : List Char) :
    scan pos (c :: rest) = bare kind pos (pos + c.utf8Size) :: scan (pos + c.utf8Size) rest := by
  rw [scan]
  simp [not_isBlank_of_mark? h, h]

theorem scan_quote {opener close : Char} {closers body : List Char}
    (hopener : Mark.sayClosers? opener = some closers) (hclose : close ∈ closers)
    (hbody : ∀ c ∈ body, c ∉ closers) (rest : List Char) :
    scan pos (opener :: (body ++ close :: rest)) =
      ⟨.quoted, ⟨pos, pos + opener.utf8Size + Text.size body + close.utf8Size⟩,
        ⟨pos + opener.utf8Size, pos + opener.utf8Size + Text.size body⟩⟩ ::
      scan (pos + opener.utf8Size + Text.size body + close.utf8Size) rest := by
  have htake := Mark.takeQuote?_append rest hclose hbody
  obtain ⟨hblank, hmark⟩ := Mark.not_mark_of_sayClosers? hopener
  rw [scan]
  simp only [hblank, hmark, hopener, Bool.false_eq_true, if_false]
  split
  · rename_i hsome
    rw [htake] at hsome
    cases hsome
    rfl
  · rename_i hnone
    rw [htake] at hnone
    cases hnone

/-- A stretch that nothing breaks is one text piece without the blanks behind it, up to something
that breaks it. -/
theorem scan_stretch {cs rest : List Char} (hne : cs ≠ []) (hblank : StartsOff Text.isBlank cs)
    (hbreaks : ∀ c ∈ cs, breaksText c = false) (hweak : StartsOff Mark.isWeakQuote cs)
    (hrest : StartsOff (!breaksText ·) rest) :
    scan pos (cs ++ rest) = bare .text pos (pos + Text.size (Text.trimEnd cs)) ::
      scan (pos + Text.size cs) rest := by
  cases cs with
  | nil => exact absurd rfl hne
  | cons c cs =>
    have hc : breaksText c = false := hbreaks c List.mem_cons_self
    have hmark : mark? c = none := by
      simp only [breaksText, Bool.or_eq_false_iff, Option.isSome_eq_false_iff,
        Option.isNone_iff_eq_none] at hc
      exact hc.1
    have hquote : Mark.sayClosers? c = none := by
      have hstrong : Mark.opensStrong c = false := by
        simp only [breaksText_eq, Bool.or_eq_false_iff] at hc
        exact hc.2
      rw [← Option.isNone_iff_eq_none, ← Option.isSome_eq_false_iff, Mark.isSome_sayClosers?, hstrong,
        Text.startsOff_cons.1 hweak]
      rfl
    have hcs : ∀ d ∈ cs, (!breaksText d) = true := fun d hd => by
      simp [hbreaks d (List.mem_cons_of_mem c hd)]
    rw [List.cons_append, scan, if_neg (by simp [Text.startsOff_cons.1 hblank]), hmark, hquote]
    dsimp only
    rw [Text.takeWhile_append_of_startsOff hcs hrest, Text.dropWhile_append_of_startsOff hcs hrest]

/-- **A text that nothing breaks is one piece**, up to something that breaks it. -/
theorem scan_unbroken {cs rest : List Char} (h : Unbroken cs)
    (hrest : StartsOff (!breaksText ·) rest) :
    scan pos (cs ++ rest) =
      bare .text pos (pos + Text.size cs) :: scan (pos + Text.size cs) rest := by
  obtain ⟨hstart, hend⟩ := Text.trim_eq_self h.trimmed
  have hbreaks : ∀ c ∈ cs, breaksText c = false := fun c hc => by simpa using h.breaksText c hc
  rw [scan_stretch pos h.nonempty hstart hbreaks h.unquoted hrest, hend]

/-- The first piece of a text stands at its start, and its kind tells of the first character. -/
theorem exists_scan_cons {c : Char} (hc : Text.isBlank c = false) (cs : List Char) :
    ∃ p ps, scan pos (c :: cs) = p :: ps ∧ p.outer.start = pos ∧
      (p.kind = .separator → Mark.isSeparator c = true) ∧
      (p.kind = .parenOpen → Mark.isParenOpen c = true) ∧
      (p.kind = .quoted → (Mark.sayClosers? c).isSome = true) := by
  rw [scan]
  simp only [hc, Bool.false_eq_true, if_false]
  split
  · rename_i kind hmark
    refine ⟨_, _, rfl, rfl, ?_⟩
    unfold mark? at hmark
    split_ifs at hmark <;> cases hmark <;> simp_all [bare]
  · split
    · rename_i closers hquote
      split
      · exact ⟨_, _, rfl, rfl, by simp, by simp, by simp [hquote]⟩
      · exact ⟨_, _, rfl, rfl, by simp [bare], by simp [bare], by simp [bare]⟩
    · exact ⟨_, _, rfl, rfl, by simp [bare], by simp [bare], by simp [bare]⟩

end Piece

/-! ### Fields -/

theorem mark?_of_isSeparator {c : Char} (h : Mark.isSeparator c = true) :
    Piece.mark? c = some .separator := by simp [Piece.mark?, h]

theorem mark?_of_isParenOpen {c : Char} (h : Mark.isParenOpen c = true) :
    Piece.mark? c = some .parenOpen := by
  simpa using Mark.of_contains (p := fun c => decide (Piece.mark? c = some .parenOpen)) (by decide) h

theorem mark?_of_isParenClose {c : Char} (h : Mark.isParenClose c = true) :
    Piece.mark? c = some .parenClose := by
  simpa using Mark.of_contains (p := fun c => decide (Piece.mark? c = some .parenClose)) (by decide) h

theorem mark?_of_isListComma {c : Char} (h : Mark.isListComma c = true) :
    Piece.mark? c = some .comma := by
  simpa using Mark.of_contains (p := fun c => decide (Piece.mark? c = some .comma)) (by decide) h

/-- A mark breaks a text. -/
theorem startsOff_of_mark? {c : Char} {kind : PieceKind} (h : Piece.mark? c = some kind)
    (rest : List Char) : StartsOff (!Piece.breaksText ·) (c :: rest) := by
  rw [Text.startsOff_cons]
  simp [Piece.breaksText, h]

/-- A status breaks the text before it, as does what follows if there is none. -/
theorem StatusWritten.startsOff {tags : List (List Char)} {status rest : List Char}
    (h : StatusWritten tags status) (hrest : StartsOff (!Piece.breaksText ·) rest) :
    StartsOff (!Piece.breaksText ·) (status ++ rest) := by
  cases h with
  | none => exact hrest
  | tags hopener _ _ => exact startsOff_of_mark? (mark?_of_isParenOpen hopener) _

/-- What comes after a front part starts where the front part ends. -/
theorem Text.dropBytes_of_eq {line a b : List Char} {pos : Nat} (h : line = a ++ b)
    (hpos : pos = Text.size a) : Text.dropBytes pos line = b := by
  rw [h, hpos, Text.dropBytes_append]

namespace SayLine

/-- The field of a text piece holds the text. -/
theorem text_fieldOf_bare {line part : List Char} {pos : Nat} (h : Stands line pos part) :
    (fieldOf line (Piece.bare .text pos (pos + Text.size part))).text = String.ofList part := by
  show String.ofList (Text.slice line ⟨pos, pos + Text.size part⟩) = String.ofList part
  rw [h.slice_eq]

/-- **Tags are taken up to the closing parenthesis**, each as it was written. -/
theorem takeTags?_joined {tags : List (List Char)} {joined : List Char}
    (h : TagsJoined tags joined) (htags : ∀ t ∈ tags, Unbroken t) {closer : Char}
    (hcloser : Mark.isParenClose closer = true) {line rest : List Char} : ∀ {pos : Nat},
    Stands line pos (joined ++ closer :: rest) → ∃ fields : List Field,
      fields.map (·.text) = tags.map String.ofList ∧
      takeTags? line (Piece.scan pos (joined ++ closer :: rest)) =
        some (fields, Piece.scan (pos + Text.size joined + closer.utf8Size) rest) := by
  have hclose := mark?_of_isParenClose hcloser
  induction h with
  | one tag =>
    intro pos hstands
    have htag : Unbroken tag := htags tag List.mem_cons_self
    refine ⟨[fieldOf line (Piece.bare .text pos (pos + Text.size tag))], ?_, ?_⟩
    · rw [List.map_singleton, text_fieldOf_bare hstands.left, List.map_singleton]
    · rw [Piece.scan_unbroken pos htag (startsOff_of_mark? hclose rest), Piece.scan_mark _ hclose]
      rfl
  | more tag hcomma _ ih =>
    intro pos hstands
    obtain ⟨htag, htags⟩ := List.forall_mem_cons.1 htags
    have hcomma := mark?_of_isListComma hcomma
    rw [List.append_assoc, List.cons_append] at hstands ⊢
    obtain ⟨fields, hfields, htake⟩ := ih htags hstands.right.tail
    refine ⟨fieldOf line (Piece.bare .text pos (pos + Text.size tag)) :: fields, ?_, ?_⟩
    · rw [List.map_cons, text_fieldOf_bare hstands.left, hfields, List.map_cons]
    · rw [Piece.scan_unbroken pos htag (startsOff_of_mark? hcomma _), Piece.scan_mark _ hcomma]
      rw [takeTags?, Piece.bare]
      dsimp only
      rw [takeTags?, Piece.bare]
      dsimp only
      rw [htake]
      simp [Nat.add_assoc]

theorem takeStatus?_written {tags : List (List Char)} {status : List Char}
    (h : StatusWritten tags status) (hne : tags ≠ []) (htags : ∀ t ∈ tags, Unbroken t)
    {line rest : List Char} {pos : Nat} (hstands : Stands line pos (status ++ rest)) :
    ∃ fields : List Field, fields.map (·.text) = tags.map String.ofList ∧
      takeStatus? line (Piece.scan pos (status ++ rest)) =
        some (fields, Piece.scan (pos + Text.size status) rest) := by
  cases h with
  | none => exact absurd rfl hne
  | @tags opener closer _ joined hopener hcloser hjoined =>
    rw [List.cons_append, List.append_assoc, List.singleton_append] at hstands ⊢
    obtain ⟨fields, hfields, htake⟩ := takeTags?_joined hjoined htags hcloser hstands.tail
    refine ⟨fields, hfields, ?_⟩
    rw [Piece.scan_mark _ (mark?_of_isParenOpen hopener), takeStatus?, Piece.bare, if_pos rfl, htake]
    simp [Nat.add_assoc]

/-- No status is taken where no parenthesis opens. -/
theorem takeStatus?_eq_none {line : List Char} {ps : List Piece}
    (h : ∀ p ∈ ps.head?, p.kind ≠ .parenOpen) : takeStatus? line ps = none := by
  cases ps with
  | nil => rfl
  | cons p ps => rw [takeStatus?, if_neg (h p rfl)]

theorem takeSeparator?_eq_none {ps : List Piece} (h : ∀ p ∈ ps.head?, p.kind ≠ .separator) :
    takeSeparator? ps = none := by
  cases ps with
  | nil => rfl
  | cons p ps => rw [takeSeparator?, if_neg (h p rfl)]

/-- The tags of a status are taken, if there is a status. -/
theorem takeStatus_written {tags : List (List Char)} {status : List Char}
    (h : StatusWritten tags status) (htags : ∀ t ∈ tags, Unbroken t) {line rest : List Char}
    {pos : Nat} (hstands : Stands line pos (status ++ rest))
    (hrest : ∀ p ∈ (Piece.scan pos rest).head?, p.kind ≠ .parenOpen) :
    ∃ fields : List Field, fields.map (·.text) = tags.map String.ofList ∧
      takeStatus line (Piece.scan pos (status ++ rest)) =
        (fields, Piece.scan (pos + Text.size status) rest) := by
  by_cases hne : tags = []
  · obtain rfl : status = [] := h.eq_nil hne
    refine ⟨[], by simp [hne], ?_⟩
    rw [takeStatus, List.nil_append, takeStatus?_eq_none hrest]
    rfl
  · obtain ⟨fields, hfields, htake⟩ := takeStatus?_written h hne htags hstands
    exact ⟨fields, hfields, by rw [takeStatus, htake]; rfl⟩

/-- No separator comes before a status, nor where there is none before something else. -/
theorem takeSeparator?_status_eq_none {tags : List (List Char)} {status rest : List Char} {pos : Nat}
    (h : StatusWritten tags status)
    (hrest : tags = [] → ∀ p ∈ (Piece.scan pos rest).head?, p.kind ≠ .separator) :
    takeSeparator? (Piece.scan pos (status ++ rest)) = none := by
  apply takeSeparator?_eq_none
  cases h with
  | none => exact hrest rfl
  | tags hopener _ _ =>
    rw [List.cons_append, Piece.scan_mark pos (mark?_of_isParenOpen hopener)]
    simp [Piece.bare]

/-- The form with the status first does not fit without a separator behind the status. -/
theorem takeMiddle?_statusFirst_eq_none {tags : List (List Char)} {status : List Char}
    (h : StatusWritten tags status) (htags : ∀ t ∈ tags, Unbroken t) {line rest : List Char}
    {pos : Nat} (hstands : Stands line pos (status ++ rest))
    (hopen : ∀ p ∈ (Piece.scan pos rest).head?, p.kind ≠ .parenOpen)
    (hsep : ∀ p ∈ (Piece.scan (pos + Text.size status) rest).head?, p.kind ≠ .separator) :
    takeMiddle? line .statusFirst (Piece.scan pos (status ++ rest)) = none := by
  rw [takeMiddle?]
  by_cases hne : tags = []
  · obtain rfl : status = [] := h.eq_nil hne
    rw [List.nil_append, takeStatus?_eq_none hopen]
    rfl
  · obtain ⟨fields, -, htake⟩ := takeStatus?_written h hne htags hstands
    simp [htake, takeSeparator?_eq_none hsep]

/-! ### Names and contents -/

theorem isName_of_speakerName {limit : Nat} {name : List Char} (h : SpeakerName limit name)
    (quoted : Bool) : (NameClass.of name quoted limit).isName = true := by
  have hempty : name.isEmpty = false := by simpa using h.nonempty
  have hlong : decide (name.length > limit) = false := by simpa using h.short
  have hplain : (name.any fun c => NameClass.reserved.contains c || Mark.isElement c) = false := by
    rw [List.any_eq_false]
    intro c hc
    obtain ⟨hreserved, helement⟩ := h.plain c hc
    rw [hreserved, helement]
    decide
  rw [NameClass.of, h.trimmed]
  simp only [hempty, hlong, hplain]
  cases quoted <;> rfl

/-- The name is taken from a quoted piece, and from a text piece unless names are to be
quoted. -/
theorem takeName?_of_slice {line name : List Char} {limit : Nat} {quotedOnly quoted : Bool}
    {p : Piece} (hname : SpeakerName limit name) (hslice : Text.slice line p.inner = name)
    (hkind : p.kind = if quoted then .quoted else .text) (honly : quotedOnly = true → quoted = true)
    (rest : List Piece) : takeName? line limit quotedOnly (p :: rest) =
      some (⟨p.inner, String.ofList name⟩, quoted, rest) := by
  rw [takeName?, hslice, hname.trimmed, hkind]
  cases quoted with
  | true => simp [isName_of_speakerName hname]
  | false =>
    have hquotedOnly : quotedOnly = false := by simpa using honly
    simp [isName_of_speakerName hname, hquotedOnly]

/-- Open content starts a piece at its first character, which is no quote and no parenthesis. -/
theorem exists_scan_open {content : List Char} (h : OpenContent content) (pos : Nat) :
    ∃ p ps, Piece.scan pos content = p :: ps ∧ p.outer.start = pos ∧ p.kind ≠ .parenOpen ∧
      p.kind ≠ .quoted ∧ (StartsOff Mark.isSeparator content → p.kind ≠ .separator) := by
  cases content with
  | nil => exact absurd rfl h.nonempty
  | cons c cs =>
    have hblank : Text.isBlank c = false := Text.startsOff_cons.1 (Text.trim_eq_self h.trimmed).1
    have hparen : Mark.isParenOpen c = false := Text.startsOff_cons.1 h.unopened
    have hquote : (Mark.sayClosers? c).isSome = false := Text.startsOff_cons.1 h.unquoted
    obtain ⟨p, ps, hscan, hstart, hsep, hopen, hquoted⟩ := Piece.exists_scan_cons pos hblank cs
    refine ⟨p, ps, hscan, hstart, ?_, ?_, ?_⟩
    · intro hkind
      rw [hopen hkind] at hparen
      cases hparen
    · intro hkind
      rw [hquoted hkind] at hquote
      cases hquote
    · intro hoff hkind
      rw [Text.startsOff_cons, hsep hkind] at hoff
      cases hoff

theorem takeContent?_open {line content : List Char} {pos : Nat} (h : OpenContent content)
    (hdrop : Text.dropBytes pos line = content) :
    takeContent? line false (Piece.scan pos content) =
      some ([⟨⟨pos, pos + Text.size content⟩, String.ofList content⟩], false) := by
  obtain ⟨p, ps, hscan, rfl, -, hquoted, -⟩ := exists_scan_open h pos
  rw [hscan, takeContent?]
  dsimp only
  rw [hdrop, (Text.trim_eq_self h.trimmed).2]
  simp [hquoted]

/-- Open content is not taken where only quotes are. -/
theorem takeContent?_open_eq_none {line content : List Char} {pos : Nat} (h : OpenContent content) :
    takeContent? line true (Piece.scan pos content) = none := by
  obtain ⟨p, ps, hscan, -, -, hquoted, -⟩ := exists_scan_open h pos
  rw [hscan, takeContent?]
  simp [hquoted]

/-- Content in curly quotes is one piece. -/
theorem scan_curly {content : List Char} (h : '“' ∉ content ∧ '”' ∉ content) (pos : Nat) :
    Piece.scan pos ('“' :: (content ++ ['”'])) =
      [⟨.quoted, ⟨pos, pos + '“'.utf8Size + Text.size content + '”'.utf8Size⟩,
        ⟨pos + '“'.utf8Size, pos + '“'.utf8Size + Text.size content⟩⟩] := by
  have hopener : Mark.sayClosers? '“' = some ['“', '”'] := rfl
  have hbody : ∀ c ∈ content, c ∉ ['“', '”'] := by
    intro c hc hmem
    simp only [List.mem_cons, List.not_mem_nil, or_false] at hmem
    rcases hmem with rfl | rfl
    · exact h.1 hc
    · exact h.2 hc
  rw [Piece.scan_quote pos hopener (by simp) hbody, Piece.scan]

theorem takeContent?_curly {line content : List Char} (h : '“' ∉ content ∧ '”' ∉ content)
    {pos : Nat} (hstands : Stands line pos ('“' :: (content ++ ['”']))) :
    takeContent? line true (Piece.scan pos ('“' :: (content ++ ['”']))) =
      some ([⟨⟨pos + '“'.utf8Size, pos + '“'.utf8Size + Text.size content⟩,
        String.ofList content⟩], true) := by
  have hslice := hstands.tail.left.slice_eq
  rw [scan_curly h, takeContent?]
  simp [fieldOf, hslice]

/-! ### Forms -/

section Forms

variable {line : List Char} {limit : Nat} {form : SayForm} {ps rest : List Piece}
  {speaker : Option Field} {quoted : Bool} {status : List Field}

theorem readBehind?_eq_some {content : List Field} {contentQuoted : Bool}
    (hmiddle : takeMiddle? line form ps = some (status, rest))
    (hcontent : takeContent? line (form = .quotedContent) rest = some (content, contentQuoted)) :
    readBehind? line form speaker quoted ps =
      some ⟨speaker, quoted, status, content, contentQuoted⟩ := by
  rw [readBehind?, hmiddle]
  simp [hcontent]

theorem readBehind?_eq_none (hmiddle : takeMiddle? line form ps = none) :
    readBehind? line form speaker quoted ps = none := by
  rw [readBehind?, hmiddle]
  rfl

theorem readBehind?_eq_none_of_content (hmiddle : takeMiddle? line form ps = some (status, rest))
    (hcontent : takeContent? line (form = .quotedContent) rest = none) :
    readBehind? line form speaker quoted ps = none := by
  rw [readBehind?, hmiddle]
  simp [hcontent]

/-- A line that starts with a name is not read without one. -/
theorem readForm?_unnamed_eq_none {p : Piece} (hsep : p.kind ≠ .separator)
    (hopen : p.kind ≠ .parenOpen) (hform : form ≠ .quotedName) :
    readForm? line limit (p :: ps) form false = none := by
  have htake : takeSeparator? (p :: ps) = none := takeSeparator?_eq_none (by simpa using hsep)
  have hstatus : takeStatus? line (p :: ps) = none := takeStatus?_eq_none (by simpa using hopen)
  cases form with
  | separatorFirst =>
    exact readBehind?_eq_none (by rw [takeMiddle?, htake]; rfl)
  | statusFirst =>
    exact readBehind?_eq_none (by rw [takeMiddle?, hstatus]; rfl)
  | quotedContent => rfl
  | quotedName => exact absurd rfl hform

/-- The forms with a separator do not fit if behind the status no separator comes. -/
theorem readBehind?_status_eq_none {tags : List (List Char)} {written after : List Char} {pos : Nat}
    (h : StatusWritten tags written) (htags : ∀ t ∈ tags, Unbroken t)
    (hstands : Stands line pos (written ++ after))
    (hopen : ∀ pos, ∀ p ∈ (Piece.scan pos after).head?, p.kind ≠ .parenOpen)
    (hsep : ∀ pos, ∀ p ∈ (Piece.scan pos after).head?, p.kind ≠ .separator)
    (hform : form = .separatorFirst ∨ form = .statusFirst) :
    readBehind? line form speaker quoted (Piece.scan pos (written ++ after)) = none := by
  apply readBehind?_eq_none
  rcases hform with rfl | rfl
  · rw [takeMiddle?, takeSeparator?_status_eq_none h fun _ => hsep pos]
    rfl
  · exact takeMiddle?_statusFirst_eq_none h htags hstands (hopen pos) (hsep _)

/-- **The first form that fits is taken**: for a line that starts with a name, it is enough that
the earlier forms do not fit behind the name. -/
theorem ofLine?_of_attempts {text : String} {p : Piece} {s : SayLine}
    (hscan : Piece.scan 0 text.toList = p :: ps) (hsep : p.kind ≠ .separator)
    (hopen : p.kind ≠ .parenOpen)
    (hearlier : ∀ f ∈ [SayForm.separatorFirst, .statusFirst, .quotedContent].takeWhile (· ≠ form),
      readForm? text.toList limit (p :: ps) f true = none)
    (hform : readForm? text.toList limit (p :: ps) form true = some s)
    (hspeaker : s.speaker.isSome = true) : ofLine? text limit = some s := by
  have hunnamed : ∀ f ≠ SayForm.quotedName, readForm? text.toList limit (p :: ps) f false = none :=
    fun f hf => readForm?_unnamed_eq_none hsep hopen hf
  have hspoken : s.isSpoken = true := by rw [isSpoken, hspeaker, Bool.true_or]
  have hfind : (attempts.findSome? fun e => readForm? text.toList limit (p :: ps) e.1 e.2) =
      some s := by
    cases form <;> simp_all [attempts]
  have hread : ofLine? text limit = (attempts.findSome? fun e =>
      readForm? text.toList limit (Piece.scan 0 text.toList) e.1 e.2).filter isSpoken := rfl
  rw [hread, hscan, hfind, Option.filter_some, if_pos hspoken]

end Forms

/-- What a line says is what it was written from. -/
structure ReadsBack (form : SayForm) (name : List Char) (tags : List (List Char))
    (content : List Char) (s : SayLine) : Prop where
  speaker : s.speakerText = some (String.ofList name)
  status : s.status.map (·.text) = tags.map String.ofList
  content : s.content.map (·.text) = [String.ofList content]
  speakerQuoted : s.speakerQuoted = true ↔ form = .quotedName
  contentQuoted : s.contentQuoted = true ↔ form = .quotedContent

section Written

variable {text : String} {limit : Nat} {name status content rest : List Char}
  {tags : List (List Char)}

/-- A line that starts with a name in plain text is read behind the name. -/
theorem readForm?_text (hname : SpeakerName limit name) (htext : text.toList = name ++ rest)
    (hrest : StartsOff (!Piece.breaksText ·) rest) :
    ∃ p f, Piece.scan 0 text.toList = p :: Piece.scan (Text.size name) rest ∧ p.kind = .text ∧
      f.text = String.ofList name ∧ ∀ form ≠ SayForm.quotedName,
        readForm? text.toList limit (p :: Piece.scan (Text.size name) rest) form true =
          readBehind? text.toList form (some f) false (Piece.scan (Text.size name) rest) := by
  have hstands : Stands text.toList 0 name := ⟨[], rest, htext, rfl⟩
  have hslice : Text.slice text.toList ⟨0, Text.size name⟩ = name := by
    simpa using hstands.slice_eq
  have hscan := Piece.scan_unbroken 0 hname.toUnbroken hrest
  rw [Nat.zero_add] at hscan
  refine ⟨Piece.bare .text 0 (Text.size name), ⟨⟨0, Text.size name⟩, String.ofList name⟩,
    by rw [htext, hscan], rfl, rfl, fun form hform => ?_⟩
  have hkind : (Piece.bare .text 0 (Text.size name)).kind = if false then .quoted else .text := rfl
  rw [readForm?, if_pos rfl, takeName?_of_slice hname hslice hkind (by simpa using hform)]
  rfl

/-- A line that starts with a name in quotes is read behind the quotes. -/
theorem readForm?_quoted (hname : SpeakerName limit name) (hquote : '」' ∉ name)
    (htext : text.toList = '「' :: (name ++ '」' :: rest)) :
    ∃ p f pos, pos = Text.size ('「' :: (name ++ ['」'])) ∧
      Piece.scan 0 text.toList = p :: Piece.scan pos rest ∧ p.kind = .quoted ∧
      f.text = String.ofList name ∧ ∀ form,
        readForm? text.toList limit (p :: Piece.scan pos rest) form true =
          readBehind? text.toList form (some f) true (Piece.scan pos rest) := by
  have hbody : ∀ c ∈ name, c ∉ ['」'] := by
    intro c hc hmem
    rw [List.mem_singleton.1 hmem] at hc
    exact hquote hc
  have hstands : Stands text.toList ('「'.utf8Size) name := ⟨['「'], '」' :: rest, htext, by simp⟩
  have hopener : Mark.sayClosers? '「' = some ['」'] := rfl
  have hscan := Piece.scan_quote 0 hopener List.mem_cons_self hbody rest
  rw [Nat.zero_add] at hscan
  refine ⟨_, ⟨⟨'「'.utf8Size, '「'.utf8Size + Text.size name⟩, String.ofList name⟩, _, ?_,
    by rw [htext, hscan], rfl, rfl, fun form => ?_⟩
  · simp [Nat.add_assoc]
  · rw [readForm?, if_pos rfl, takeName?_of_slice hname hstands.slice_eq (if_pos rfl).symm fun _ => rfl]
    rfl

theorem ofLine?_separatorFirst {sep : Char} (hname : SpeakerName limit name)
    (htags : ∀ t ∈ tags, Unbroken t) (hsep : Mark.isSeparator sep = true)
    (hstatus : StatusWritten tags status) (hcontent : OpenContent content)
    (htext : text.toList = name ++ sep :: (status ++ content)) :
    ∃ s, ofLine? text limit = some s ∧ ReadsBack .separatorFirst name tags content s := by
  have hmark := mark?_of_isSeparator hsep
  obtain ⟨p, f, hscan, hkind, hf, hread⟩ :=
    readForm?_text hname htext (startsOff_of_mark? hmark (status ++ content))
  have hstands : Stands text.toList (Text.size name + sep.utf8Size) (status ++ content) :=
    ⟨name ++ [sep], [], by simp [htext], by simp⟩
  have hdrop : Text.dropBytes (Text.size name + sep.utf8Size + Text.size status) text.toList =
      content := Text.dropBytes_of_eq (a := name ++ sep :: status) (by simp [htext])
        (by simp [Nat.add_assoc])
  obtain ⟨q, qs, hfirst, -, hopen, -⟩ := exists_scan_open hcontent (Text.size name + sep.utf8Size)
  obtain ⟨fields, hfields, htake⟩ := takeStatus_written hstatus htags hstands
    (by rw [hfirst]; simpa using hopen)
  have hmiddle : takeMiddle? text.toList .separatorFirst
      (Piece.scan (Text.size name) (sep :: (status ++ content))) =
      some (fields, Piece.scan (Text.size name + sep.utf8Size + Text.size status) content) := by
    rw [Piece.scan_mark _ hmark, takeMiddle?, takeSeparator?, Piece.bare, if_pos rfl, ← htake]
    rfl
  have hform := (hread .separatorFirst (by decide)).trans
    (readBehind?_eq_some hmiddle (takeContent?_open hcontent hdrop))
  exact ⟨_, ofLine?_of_attempts hscan (by simp [hkind]) (by simp [hkind]) (by simp) hform rfl,
    ⟨by simp [speakerText, hf], hfields, rfl, by simp, by simp⟩⟩

theorem ofLine?_statusFirst {sep : Char} (hname : SpeakerName limit name)
    (htags : ∀ t ∈ tags, Unbroken t) (hne : tags ≠ []) (hstatus : StatusWritten tags status)
    (hsep : Mark.isSeparator sep = true) (hcontent : OpenContent content)
    (htext : text.toList = name ++ (status ++ sep :: content)) :
    ∃ s, ofLine? text limit = some s ∧ ReadsBack .statusFirst name tags content s := by
  have hmark := mark?_of_isSeparator hsep
  obtain ⟨p, f, hscan, hkind, hf, hread⟩ :=
    readForm?_text hname htext (hstatus.startsOff (startsOff_of_mark? hmark content))
  have hstands : Stands text.toList (Text.size name) (status ++ sep :: content) :=
    ⟨name, [], by simp [htext], rfl⟩
  have hdrop : Text.dropBytes (Text.size name + Text.size status + sep.utf8Size) text.toList =
      content := Text.dropBytes_of_eq (a := name ++ (status ++ [sep])) (by simp [htext])
        (by simp [Nat.add_assoc])
  obtain ⟨fields, hfields, htake⟩ := takeStatus?_written hstatus hne htags hstands
  have hmiddle : takeMiddle? text.toList .statusFirst
      (Piece.scan (Text.size name) (status ++ sep :: content)) =
      some (fields, Piece.scan (Text.size name + Text.size status + sep.utf8Size) content) := by
    rw [takeMiddle?, htake, Piece.scan_mark _ hmark]
    rfl
  have hearlier : readForm? text.toList limit
      (p :: Piece.scan (Text.size name) (status ++ sep :: content)) .separatorFirst true = none := by
    rw [hread _ (by decide)]
    apply readBehind?_eq_none
    rw [takeMiddle?, takeSeparator?_status_eq_none hstatus fun hnil => absurd hnil hne]
    rfl
  have hform := (hread .statusFirst (by decide)).trans
    (readBehind?_eq_some hmiddle (takeContent?_open hcontent hdrop))
  exact ⟨_, ofLine?_of_attempts hscan (by simp [hkind]) (by simp [hkind]) (by simpa using hearlier)
    hform rfl, ⟨by simp [speakerText, hf], hfields, rfl, by simp, by simp⟩⟩

theorem ofLine?_quotedContent (hname : SpeakerName limit name) (htags : ∀ t ∈ tags, Unbroken t)
    (hstatus : StatusWritten tags status) (hcontent : '“' ∉ content ∧ '”' ∉ content)
    (htext : text.toList = name ++ (status ++ '“' :: (content ++ ['”']))) :
    ∃ s, ofLine? text limit = some s ∧ ReadsBack .quotedContent name tags content s := by
  have hbreaks : StartsOff (!Piece.breaksText ·) ('“' :: (content ++ ['”'])) :=
    Text.startsOff_cons.2 rfl
  obtain ⟨p, f, hscan, hkind, hf, hread⟩ := readForm?_text hname htext (hstatus.startsOff hbreaks)
  have hstands : Stands text.toList (Text.size name) (status ++ '“' :: (content ++ ['”'])) :=
    ⟨name, [], by simp [htext], rfl⟩
  have hopen : ∀ pos, ∀ q ∈ (Piece.scan pos ('“' :: (content ++ ['”']))).head?,
      q.kind ≠ .parenOpen := by simp [scan_curly hcontent]
  have hsep : ∀ pos, ∀ q ∈ (Piece.scan pos ('“' :: (content ++ ['”']))).head?,
      q.kind ≠ .separator := by simp [scan_curly hcontent]
  obtain ⟨fields, hfields, htake⟩ := takeStatus_written hstatus htags hstands (hopen _)
  have hearlier : ∀ e, e = SayForm.separatorFirst ∨ e = .statusFirst → readForm? text.toList limit
      (p :: Piece.scan (Text.size name) (status ++ '“' :: (content ++ ['”']))) e true = none := by
    intro e he
    rw [hread e (by rcases he with rfl | rfl <;> decide)]
    exact readBehind?_status_eq_none hstatus htags hstands hopen hsep he
  have hform := (hread .quotedContent (by decide)).trans
    (readBehind?_eq_some (congrArg some htake) (takeContent?_curly hcontent hstands.right))
  exact ⟨_, ofLine?_of_attempts hscan (by simp [hkind]) (by simp [hkind]) (by simpa using hearlier)
    hform rfl, ⟨by simp [speakerText, hf], hfields, rfl, by simp, by simp⟩⟩

theorem ofLine?_quotedName (hname : SpeakerName limit name) (hquote : '」' ∉ name)
    (htags : ∀ t ∈ tags, Unbroken t) (hstatus : StatusWritten tags status)
    (hcontent : OpenContent content) (hsep : StartsOff Mark.isSeparator content)
    (htext : text.toList = '「' :: (name ++ '」' :: (status ++ content))) :
    ∃ s, ofLine? text limit = some s ∧ ReadsBack .quotedName name tags content s := by
  obtain ⟨p, f, pos, hpos, hscan, hkind, hf, hread⟩ := readForm?_quoted hname hquote htext
  have hstands : Stands text.toList pos (status ++ content) :=
    ⟨'「' :: (name ++ ['」']), [], by simp [htext], hpos⟩
  have hdrop : Text.dropBytes (pos + Text.size status) text.toList = content :=
    Text.dropBytes_of_eq (a := '「' :: (name ++ '」' :: status)) (by simp [htext])
      (by simp [hpos, Nat.add_assoc])
  have hfirst : ∀ pos, ∀ q ∈ (Piece.scan pos content).head?,
      q.kind ≠ .parenOpen ∧ q.kind ≠ .separator := by
    intro pos q hq
    obtain ⟨q', qs, hfirst, -, hopen, -, hoff⟩ := exists_scan_open hcontent pos
    rw [hfirst, List.head?_cons, Option.mem_some_iff] at hq
    rw [← hq]
    exact ⟨hopen, hoff hsep⟩
  obtain ⟨fields, hfields, htake⟩ :=
    takeStatus_written hstatus htags hstands fun q hq => (hfirst pos q hq).1
  have hearlier : ∀ e, e = SayForm.separatorFirst ∨ e = .statusFirst ∨ e = .quotedContent →
      readForm? text.toList limit (p :: Piece.scan pos (status ++ content)) e true = none := by
    intro e he
    rw [hread e]
    rcases he with he | he | rfl
    · exact readBehind?_status_eq_none hstatus htags hstands (fun n q hq => (hfirst n q hq).1)
        (fun n q hq => (hfirst n q hq).2) (.inl he)
    · exact readBehind?_status_eq_none hstatus htags hstands (fun n q hq => (hfirst n q hq).1)
        (fun n q hq => (hfirst n q hq).2) (.inr he)
    · exact readBehind?_eq_none_of_content (congrArg some htake) (takeContent?_open_eq_none hcontent)
  have hform := (hread .quotedName).trans
    (readBehind?_eq_some (congrArg some htake) (takeContent?_open hcontent hdrop))
  exact ⟨_, ofLine?_of_attempts hscan (by simp [hkind]) (by simp [hkind]) (by simpa using hearlier)
    hform rfl, ⟨by simp [speakerText, hf], hfields, rfl, by simp, by simp⟩⟩

end Written

end SayLine

/-! ### Lines -/

theorem Mark.not_isCommandOpen_of_opensStrong {c : Char} (h : Mark.opensStrong c = false) :
    Mark.isCommandOpen c = false := by
  by_contra hopen
  rw [Bool.not_eq_false] at hopen
  rw [Mark.of_contains (p := Mark.opensStrong) (by decide) hopen] at h
  cases h

/-- A name does not start with a blank or a bracket. -/
theorem SpeakerName.exists_cons {limit : Nat} {name : List Char} (h : SpeakerName limit name) :
    ∃ c rest, name = c :: rest ∧ Text.isBlank c = false ∧ Mark.isCommandOpen c = false := by
  have hstart := (Text.trim_eq_self h.trimmed).1
  cases name with
  | nil => exact absurd rfl h.nonempty
  | cons c rest =>
    have hstrong : Mark.opensStrong c = false := (h.marks c List.mem_cons_self).2.2.2.2
    exact ⟨c, rest, rfl, Text.startsOff_cons.1 hstart, Mark.not_isCommandOpen_of_opensStrong hstrong⟩

theorem SayWritten.exists_cons {form : SayForm} {limit : Nat} {name content line : List Char}
    {tags : List (List Char)} (h : SayWritten form name tags content line)
    (hname : SpeakerName limit name) :
    ∃ c rest, line = c :: rest ∧ Text.isBlank c = false ∧ Mark.isCommandOpen c = false := by
  obtain ⟨c, rest, rfl, hblank, hopen⟩ := hname.exists_cons
  cases h with
  | quotedName => exact ⟨'「', _, rfl, by decide, by decide⟩
  | _ => exact ⟨c, _, rfl, hblank, hopen⟩

namespace Line

/-- A line that starts with no bracket is prose. -/
theorem read_eq_readProse {text : String} {c : Char} {rest : List Char}
    (htext : text.toList = c :: rest) (hblank : Text.isBlank c = false)
    (hopen : Mark.isCommandOpen c = false) (block limit : Nat) :
    read text block limit = (readProse text limit, []) := by
  have hnot : Text.allBlank text = false := by
    rw [Text.allBlank, htext, List.all_cons, hblank, Bool.false_and]
  have hnone : Segment.ofLine? text.toList = none := by
    have htrim : Text.trimStart (c :: rest) = c :: rest := by
      rw [Text.trimStart, List.dropWhile_cons, hblank, if_neg (by decide)]
    rw [htext, Segment.ofLine?, htrim, Segment.scan, if_neg (by simp [hopen])]
  rw [read, hnot, Bracketed.ofLine, hnone]
  rfl

/-- **A spoken line is read back as it was written**, in each of the four forms: with the name,
the tags and the content that it was written from, whatever they are, and without a diagnostic. -/
theorem read_written {form : SayForm} {name content : List Char} {tags : List (List Char)}
    {text : String} {limit : Nat} (block : Nat) (hname : SpeakerName limit name)
    (htags : ∀ t ∈ tags, Unbroken t) (h : SayWritten form name tags content text.toList) :
    ∃ s, read text block limit = (.say s, []) ∧ s.ReadsBack form name tags content := by
  have hsay : ∃ s, SayLine.ofLine? text limit = some s ∧ s.ReadsBack form name tags content := by
    generalize htext : text.toList = line at h
    cases h with
    | separatorFirst hsep hstatus hcontent =>
      exact SayLine.ofLine?_separatorFirst hname htags hsep hstatus hcontent htext
    | statusFirst hne hstatus hsep hcontent =>
      exact SayLine.ofLine?_statusFirst hname htags hne hstatus hsep hcontent htext
    | quotedContent hstatus hcontent =>
      exact SayLine.ofLine?_quotedContent hname htags hstatus hcontent htext
    | quotedName hquote hstatus hcontent hsep =>
      exact SayLine.ofLine?_quotedName hname hquote htags hstatus hcontent hsep htext
  obtain ⟨c, rest, htext, hblank, hopen⟩ := h.exists_cons hname
  obtain ⟨s, hs, hback⟩ := hsay
  refine ⟨s, ?_, hback⟩
  rw [read_eq_readProse htext hblank hopen, readProse, hs]

theorem read_written_liHua :
    (∃ s, read "李华:(喜，乐)走吧" 0 20 = (.say s, []) ∧
      s.ReadsBack .separatorFirst ['李', '华'] [['喜'], ['乐']] ['走', '吧']) ∧
    (∃ s, read "李华(喜，乐)：走吧" 0 20 = (.say s, []) ∧
      s.ReadsBack .statusFirst ['李', '华'] [['喜'], ['乐']] ['走', '吧']) ∧
    (∃ s, read "李华(喜，乐)“走吧”" 0 20 = (.say s, []) ∧
      s.ReadsBack .quotedContent ['李', '华'] [['喜'], ['乐']] ['走', '吧']) ∧
    ∃ s, read "「李华」(喜，乐)走吧" 0 20 = (.say s, []) ∧
      s.ReadsBack .quotedName ['李', '华'] [['喜'], ['乐']] ['走', '吧'] := by
  have hname : SpeakerName 20 ['李', '华'] :=
    ⟨⟨by decide, by decide, List.forall_mem_cons.2 ⟨by decide, List.forall_mem_singleton.2 (by decide)⟩,
      Text.startsOff_cons.2 rfl⟩, by decide,
      List.forall_mem_cons.2 ⟨by decide, List.forall_mem_singleton.2 (by decide)⟩⟩
  have htag : ∀ t ∈ [['喜'], ['乐']], Unbroken t := by
    refine List.forall_mem_cons.2 ⟨?_, List.forall_mem_singleton.2 ?_⟩
    · exact ⟨by decide, by decide, List.forall_mem_singleton.2 (by decide), Text.startsOff_cons.2 rfl⟩
    · exact ⟨by decide, by decide, List.forall_mem_singleton.2 (by decide), Text.startsOff_cons.2 rfl⟩
  have hstatus : StatusWritten [['喜'], ['乐']] ['(', '喜', '，', '乐', ')'] :=
    .tags rfl rfl (.more ['喜'] rfl (.one ['乐']))
  have hcontent : OpenContent ['走', '吧'] :=
    ⟨by decide, by decide, Text.startsOff_cons.2 rfl, Text.startsOff_cons.2 rfl⟩
  have hsep : Mark.isSeparator ':' = true := rfl
  have hsep' : Mark.isSeparator '：' = true := rfl
  exact ⟨read_written 0 hname htag (.separatorFirst hsep hstatus hcontent),
    read_written 0 hname htag (.statusFirst (by decide) hstatus hsep' hcontent),
    read_written 0 hname htag (.quotedContent hstatus (by decide)),
    read_written 0 hname htag (.quotedName (by decide) hstatus hcontent (Text.startsOff_cons.2 rfl))⟩

end Line
end Manuscript
