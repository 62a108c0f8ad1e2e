/-
# The fields of a spoken line in its text

The pieces of a line are laid out in it one after the other, with blanks between them
(`Piece.layout_scan`). Reading takes them from the front, and with each part that it
takes, the text is divided further into fields, from left to right, and characters that
are left out (`SayLine.Divides.append`). Unless the content is quoted, what is left out is
blanks, marks and the quotes of the speaker (`SayLine.ofLine?_faithful`).

Key definitions: `Piece.Shape`, `Piece.Layout`, `SayLine.Divides`, `SayLine.DividesFront`,
`SayLine.LeavesOut`, `SayLine.Faithful`.
Key theorems: `Piece.layout_scan`, `SayLine.Divides.append`, `SayLine.Spends.divides`,
`SayLine.TakesContent.divides`, `SayLine.ofLine?_faithful`.
-/
import Manuscript.Proofs.Line.Cuts
import Manuscript.Proofs.Line.Spoken
import Manuscript.Proofs.Text.Plain

namespace Manuscript

open Text (Span Stands Fits)

/-! ### Layouts -/

theorem Text.exists_trimEnd_cons {c : Char} (hc : isBlank c = false) (cs : List Char) :
    ∃ body, trimEnd (c :: cs) = c :: body := by
  obtain ⟨blanks, heq, hblanks⟩ := exists_eq_trimEnd_append (c :: cs)
  cases htrim : trimEnd (c :: cs) with
  | nil =>
    rw [htrim, List.nil_append] at heq
    rw [hblanks c (heq ▸ List.mem_cons_self)] at hc
    cases hc
  | cons d body =>
    rw [htrim, List.cons_append] at heq
    exact ⟨body, by rw [(List.cons.inj heq).1]⟩

namespace Piece

/-- What a piece is made of that starts at byte `pos`. -/
inductive Shape : Nat → List Char → Piece → Prop
  | mark {pos : Nat} {c : Char} {kind : PieceKind} : mark? c = some kind →
    Shape pos [c] (bare kind pos (pos + Text.size [c]))
  | quoted {pos : Nat} {opener closer : Char} {closers body : List Char} :
    Mark.sayClosers? opener = some closers → closer ∈ closers →
    Shape pos ([opener] ++ body ++ [closer])
      ⟨.quoted, ⟨pos, pos + Text.size ([opener] ++ body ++ [closer])⟩,
        ⟨pos + Text.size [opener], pos + Text.size ([opener] ++ body)⟩⟩
  | text {pos : Nat} {c : Char} {body : List Char} : Text.isBlank c = false →
    Shape pos (c :: body) (bare .text pos (pos + Text.size (c :: body)))

/-- The text, which starts at byte `pos`, is laid out with the pieces: blanks, a piece, and so on
up to the end. -/
inductive Layout : Nat → List Char → List Piece → Prop
  | done {pos : Nat} {blanks : List Char} : (∀ c ∈ blanks, Text.isBlank c = true) →
    Layout pos blanks []
  | next {pos : Nat} {blanks part rest : List Char} {p : Piece} {ps : List Piece} :
    (∀ c ∈ blanks, Text.isBlank c = true) → Shape (pos + Text.size blanks) part p →
    Layout (pos + Text.size blanks + Text.size part) rest ps →
    Layout pos (blanks ++ (part ++ rest)) (p :: ps)

variable {pos : Nat} {part cs : List Char} {p : Piece} {ps : List Piece}

theorem Shape.start (h : Shape pos part p) : p.outer.start = pos := by
  cases h <;> rfl

/-- A piece does not start with a blank. -/
theorem Shape.exists_cons (h : Shape pos part p) :
    ∃ c body, part = c :: body ∧ Text.isBlank c = false := by
  cases h with
  | mark hmark => exact ⟨_, _, rfl, not_isBlank_of_mark? hmark⟩
  | quoted hopener _ => exact ⟨_, _, rfl, (Mark.not_mark_of_sayClosers? hopener).1⟩
  | text hc => exact ⟨_, _, rfl, hc⟩

/-- A piece without quotes is all text of its own. -/
theorem Shape.inner_eq (h : Shape pos part p) (hkind : p.kind ≠ .quoted) :
    p.inner = ⟨pos, pos + Text.size part⟩ := by
  cases h with
  | mark _ | text _ => rfl
  | quoted _ _ => exact absurd rfl hkind

/-- A mark is a single character. -/
theorem Shape.exists_mark (h : Shape pos part p) (htext : p.kind ≠ .text)
    (hquoted : p.kind ≠ .quoted) : ∃ c, part = [c] ∧ mark? c = some p.kind := by
  cases h with
  | mark hmark => exact ⟨_, rfl, hmark⟩
  | quoted _ _ => exact absurd rfl hquoted
  | text _ => exact absurd rfl htext

/-- A quoted piece is its text between two quotes that belong together. -/
theorem Shape.exists_quotes (h : Shape pos part p) (hkind : p.kind = .quoted) :
    ∃ opener closers closer body, Mark.sayClosers? opener = some closers ∧ closer ∈ closers ∧
      part = [opener] ++ body ++ [closer] ∧
      p.inner = ⟨pos + Text.size [opener], pos + Text.size ([opener] ++ body)⟩ := by
  cases h with
  | @mark c kind hmark =>
    have hnone : mark? c ≠ some .quoted := by
      unfold mark?
      split_ifs <;> simp
    exact absurd (hmark.trans (congrArg some hkind)) hnone
  | quoted hopener hcloser => exact ⟨_, _, _, _, hopener, hcloser, rfl, rfl⟩
  | text _ => cases hkind

/-- A piece goes before a layout. -/
theorem Layout.piece (hp : Shape pos part p) (h : Layout (pos + Text.size part) cs ps) :
    Layout pos (part ++ cs) (p :: ps) := Layout.next (List.forall_mem_nil _) hp h

/-- Blanks go before a layout. -/
theorem Layout.blanks {blanks : List Char} (hblanks : ∀ c ∈ blanks, Text.isBlank c = true)
    (h : Layout (pos + Text.size blanks) cs ps) : Layout pos (blanks ++ cs) ps := by
  cases h with
  | done hmore => exact .done (List.forall_mem_append.2 ⟨hblanks, hmore⟩)
  | @next _ more part rest p ps hmore hp hrest =>
    have hpos : pos + Text.size blanks + Text.size more = pos + Text.size (blanks ++ more) := by
      rw [Text.size_append, Nat.add_assoc]
    rw [hpos] at hp hrest
    rw [← List.append_assoc]
    exact .next (List.forall_mem_append.2 ⟨hblanks, hmore⟩) hp hrest

/-- A stretch of text with blanks behind it goes before a layout as the piece without them. -/
theorem Layout.text {c : Char} (hc : Text.isBlank c = false) {body : List Char}
    (h : Layout (pos + Text.size (c :: body)) cs ps) :
    Layout pos (c :: body ++ cs) (bare .text pos (pos + Text.size (Text.trimEnd (c :: body))) :: ps) := by
  obtain ⟨blanks, heq, hblanks⟩ := Text.exists_eq_trimEnd_append (c :: body)
  obtain ⟨trimmed, htrim⟩ := Text.exists_trimEnd_cons hc body
  rw [htrim] at heq ⊢
  rw [heq, Text.size_append, ← Nat.add_assoc] at h
  rw [heq, List.append_assoc]
  exact .piece (.text hc) (h.blanks hblanks)

/-- A layout starts with blanks and its first piece. -/
theorem Layout.uncons (h : Layout pos cs (p :: ps)) : ∃ blanks part rest,
    (∀ c ∈ blanks, Text.isBlank c = true) ∧ Shape (pos + Text.size blanks) part p ∧
      cs = blanks ++ part ++ rest ∧ Layout (pos + Text.size (blanks ++ part)) rest ps := by
  cases h with
  | next hblanks hp hrest =>
    refine ⟨_, _, _, hblanks, hp, by rw [List.append_assoc], ?_⟩
    rwa [Text.size_append, ← Nat.add_assoc]

/-- **The pieces of a text are laid out in it.** -/
theorem layout_scan (pos : Nat) (cs : List Char) : Layout pos cs (scan pos cs) := by
  fun_induction scan pos cs with
  | case1 => exact .done (List.forall_mem_nil _)
  | case2 pos c cs next hc ih =>
    have hpos : next = pos + Text.size [c] := by simp [next]
    rw [hpos] at ih ⊢
    exact ih.blanks (by simpa using hc)
  | case3 pos c cs next _ kind hmark ih =>
    have hpos : next = pos + Text.size [c] := by simp [next]
    rw [hpos] at ih ⊢
    exact .piece (.mark hmark) ih
  | case4 pos c cs next _ _ closers hclosers body close rest hquote stop ih =>
    obtain ⟨rfl, hclose, -⟩ := Mark.takeQuote?_eq_some hquote
    have hnext : next = pos + Text.size [c] := by simp [next]
    have hstop : stop = pos + Text.size ([c] ++ body) := by simp [stop, next, Nat.add_assoc]
    have hend : stop + close.utf8Size = pos + Text.size ([c] ++ body ++ [close]) := by
      rw [hstop, Text.size_append _ [close], Text.size_cons close, Text.size_nil, Nat.add_assoc,
        Nat.add_zero]
    have hcs : c :: (body ++ close :: rest) = [c] ++ body ++ [close] ++ rest := by simp
    rw [hend] at ih ⊢
    rw [hnext, hstop, hcs]
    exact .piece (.quoted hclosers hclose) ih
  | case5 pos c cs hc _ _ _ _ =>
    have hend : Layout (pos + Text.size (c :: cs)) [] [] := .done (List.forall_mem_nil _)
    have hlast := Layout.text (by simpa using hc) hend
    rwa [List.append_nil] at hlast
  | case6 pos c cs hc _ _ body ih =>
    have hcs : c :: cs = body ++ cs.dropWhile (!breaksText ·) := by simp [body]
    rw [hcs]
    exact .text (by simpa using hc) ih

end Piece

/-! ### Dividing a text -/

namespace SayLine

/-- The text, which starts at byte `pos`, is divided into the fields, from left to right, and
characters that may be left out. -/
structure Divides (out : Nat → Char → Prop) (pos : Nat) (text : List Char) (fields : List Field) :
    Prop where
  ordered : fields.Pairwise fun f g => f.span.stop ≤ g.span.start
  within : ∀ f ∈ fields, pos ≤ f.span.start ∧ f.span.stop ≤ pos + Text.size text
  covered : ∀ before c after, text = before ++ c :: after → out (pos + Text.size before) c ∨
    ∃ f ∈ fields, f.span.start ≤ pos + Text.size before ∧
      pos + Text.size before + c.utf8Size ≤ f.span.stop

section Dividing

variable {out : Nat → Char → Prop} {pos : Nat} {a b text : List Char} {fs gs : List Field}

theorem Divides.append (ha : Divides out pos a fs) (hb : Divides out (pos + Text.size a) b gs) :
    Divides out pos (a ++ b) (fs ++ gs) := by
  have hsize : pos + Text.size (a ++ b) = pos + Text.size a + Text.size b := by
    rw [Text.size_append, Nat.add_assoc]
  refine ⟨List.pairwise_append.2 ⟨ha.ordered, hb.ordered, fun f hf g hg => ?_⟩, fun f hf => ?_, ?_⟩
  · exact Nat.le_trans (ha.within f hf).2 (hb.within g hg).1
  · rw [hsize]
    rcases List.mem_append.1 hf with hf | hf
    · obtain ⟨hstart, hstop⟩ := ha.within f hf
      exact ⟨hstart, by omega⟩
    · obtain ⟨hstart, hstop⟩ := hb.within f hf
      exact ⟨by omega, hstop⟩
  · -- the character is one of the second text or one of the first
    intro before c after heq
    have hin : (∃ rest, before = a ++ rest ∧ b = rest ++ c :: after) ∨
        ∃ rest, a = before ++ c :: rest := by
      rcases List.append_eq_append_iff.1 heq with ⟨rest, hbefore, hb⟩ | ⟨rest, ha, hafter⟩
      · exact .inl ⟨rest, hbefore, hb⟩
      · cases rest with
        | nil => exact .inl ⟨[], by simpa using ha.symm, by simpa using hafter.symm⟩
        | cons d rest =>
          obtain ⟨rfl, -⟩ := List.cons.inj hafter
          exact .inr ⟨rest, ha⟩
    rcases hin with ⟨rest, rfl, hrest⟩ | ⟨rest, hrest⟩
    · have hcovered := hb.covered rest c after hrest
      rw [Nat.add_assoc, ← Text.size_append] at hcovered
      exact hcovered.imp_right fun ⟨f, hf, hspan⟩ => ⟨f, List.mem_append_right _ hf, hspan⟩
    · exact (ha.covered before c rest hrest).imp_right fun ⟨f, hf, hspan⟩ =>
        ⟨f, List.mem_append_left _ hf, hspan⟩

/-- A text without fields. -/
theorem divides_nil (h : ∀ before c after, text = before ++ c :: after → out (pos + Text.size before) c) :
    Divides out pos text [] :=
  ⟨.nil, by simp, fun before c after heq => .inl (h before c after heq)⟩

theorem divides_char {c : Char} (hc : out pos c) : Divides out pos [c] [] := by
  refine divides_nil fun before d after heq => ?_
  cases before with
  | nil =>
    cases heq
    exact hc
  | cons e before => simp at heq

/-- A text that is one field. -/
theorem divides_field {f : Field} (hspan : f.span = ⟨pos, pos + Text.size text⟩) :
    Divides out pos text [f] := by
  refine ⟨List.pairwise_singleton _ _, fun g hg => ?_, fun before c after heq => .inr ?_⟩
  · rw [List.mem_singleton.1 hg, hspan]
    exact ⟨Nat.le_refl _, Nat.le_refl _⟩
  · refine ⟨f, List.mem_singleton_self f, ?_⟩
    rw [hspan, heq, Text.size_append, Text.size_cons]
    constructor <;> dsimp only <;> omega

/-- A quoted text, with its quotes left out. -/
theorem divides_quoted {opener closer : Char} {body : List Char} {f : Field}
    (hspan : f.span = ⟨pos + Text.size [opener], pos + Text.size ([opener] ++ body)⟩)
    (hopener : out pos opener) (hcloser : out (pos + Text.size ([opener] ++ body)) closer) :
    Divides out pos ([opener] ++ body ++ [closer]) [f] := by
  have hbody : Divides out (pos + Text.size [opener]) body [f] := divides_field (by
    rw [hspan, Text.size_append, Nat.add_assoc])
  exact ((divides_char hopener).append hbody).append (divides_char hcloser)

end Dividing

/-! ### Faithful lines -/

/-- A blank, or a mark that separates or encloses the parts of a line. -/
def isLoose (c : Char) : Bool :=
  Text.isBlank c || Mark.isSeparator c || Mark.isParenOpen c || Mark.isParenClose c ||
    Mark.isListComma c

/-- The character at `pos` belongs to no field: it is a blank or a mark, or stands right before or
right behind a speaker in quotes. -/
def LeavesOut (s : SayLine) (pos : Nat) (c : Char) : Prop :=
  isLoose c = true ∨ s.speakerQuoted = true ∧
    ∃ f ∈ s.speaker, pos + c.utf8Size = f.span.start ∨ pos = f.span.stop

/-- The positions in a spoken line are right, and nothing that can be read is lost. -/
structure Faithful (line : List Char) (s : SayLine) : Prop where
  fits : ∀ f ∈ s.fields, Fits line f.span
  name : ∀ f ∈ s.speaker, f.text = String.ofList (Text.trim (Text.slice line f.span))
  texts : ∀ f ∈ s.status ++ s.content, f.text = String.ofList (Text.slice line f.span)
  ordered : s.fields.Pairwise fun f g => f.span.stop ≤ g.span.start
  quotes : s.speakerQuoted = true → ∃ f ∈ s.speaker, ∃ start opener closers closer,
    Mark.sayClosers? opener = some closers ∧ closer ∈ closers ∧
      f.span.start = start + opener.utf8Size ∧
      Stands line start ([opener] ++ Text.slice line f.span ++ [closer])
  toEnd : s.contentQuoted = false →
    ∃ f, s.content = [f] ∧ f.span.stop = Text.size (Text.trimEnd line)
  lossless : s.contentQuoted = false → ∀ pos c, Stands line pos [c] → s.LeavesOut pos c ∨
    ∃ f ∈ s.fields, f.span.start ≤ pos ∧ pos + c.utf8Size ≤ f.span.stop

/-! ### Dividing a line -/

theorem isLoose_of_mark? {c : Char} {kind : PieceKind} (h : Piece.mark? c = some kind) :
    isLoose c = true := by
  unfold Piece.mark? at h
  split_ifs at h <;> simp_all [isLoose]

/-- The front of the text is divided into the fields, and the rest of it is laid out with the
pieces. -/
def DividesFront (out : Nat → Char → Prop) (pos : Nat) (cs : List Char) (fields : List Field)
    (rest : List Piece) : Prop :=
  ∃ front behind, cs = front ++ behind ∧ Divides out pos front fields ∧
    Piece.Layout (pos + Text.size front) behind rest

section Line

variable {out : Nat → Char → Prop} {line cs front : List Char} {pos : Nat} {p : Piece}
  {ps rest : List Piece} {fs gs : List Field} {f : Field}

theorem DividesFront.prepend (hfront : Divides out pos front fs)
    (h : DividesFront out (pos + Text.size front) cs gs rest) :
    DividesFront out pos (front ++ cs) (fs ++ gs) rest := by
  obtain ⟨part, behind, rfl, hdivides, hlayout⟩ := h
  rw [Nat.add_assoc, ← Text.size_append] at hlayout
  exact ⟨front ++ part, behind, by rw [List.append_assoc], hfront.append hdivides, hlayout⟩

theorem dividesFront_self (h : Piece.Layout pos cs ps) : DividesFront out pos cs [] ps :=
  ⟨[], cs, rfl, divides_nil (by simp), h⟩

theorem divides_blanks (hout : ∀ pos c, isLoose c = true → out pos c) {blanks : List Char}
    (h : ∀ c ∈ blanks, Text.isBlank c = true) : Divides out pos blanks [] :=
  divides_nil fun before c after heq => hout _ c (by simp [isLoose, h c (heq ▸ by simp)])

/-- **A status is divided into its texts**, one piece after the other. -/
theorem Spends.divides (hout : ∀ pos c, isLoose c = true → out pos c) (h : Spends line ps fs rest) :
    ∀ {pos : Nat} {cs : List Char}, Piece.Layout pos cs ps → DividesFront out pos cs fs rest := by
  induction h with
  | done => exact dividesFront_self
  | mark htext hquoted _ ih =>
    intro pos cs hlayout
    obtain ⟨blanks, part, more, hblanks, hshape, rfl, hmore⟩ := hlayout.uncons
    obtain ⟨c, rfl, hmark⟩ := hshape.exists_mark htext hquoted
    have hchar : Divides out (pos + Text.size blanks) [c] [] :=
      divides_char (hout _ c (isLoose_of_mark? hmark))
    exact (ih hmore).prepend ((divides_blanks hout hblanks).append hchar)
  | @text p _ _ _ hkind _ ih =>
    intro pos cs hlayout
    obtain ⟨blanks, part, more, hblanks, hshape, rfl, hmore⟩ := hlayout.uncons
    have hfield : Divides out (pos + Text.size blanks) part [fieldOf line p] :=
      divides_field (hshape.inner_eq (by simp [hkind]))
    exact (ih hmore).prepend ((divides_blanks hout hblanks).append hfield)

/-- The speaker is divided from what is around it. -/
theorem TakesSpeaker.divides (hout : ∀ pos c, isLoose c = true → out pos c) {speaker : Option Field}
    {quoted : Bool} (h : TakesSpeaker line speaker quoted ps rest)
    (hquotes : quoted = true → ∀ f ∈ speaker, ∀ pos c,
      pos + c.utf8Size = f.span.start ∨ pos = f.span.stop → out pos c)
    (hlayout : Piece.Layout pos cs ps) : DividesFront out pos cs speaker.toList rest := by
  cases h with
  | nobody => exact dividesFront_self hlayout
  | @plain p _ hkind =>
    obtain ⟨blanks, part, more, hblanks, hshape, rfl, hmore⟩ := hlayout.uncons
    have hfield : Divides out (pos + Text.size blanks) part [nameOf line p] :=
      divides_field (hshape.inner_eq (by simp [hkind]))
    exact (dividesFront_self hmore).prepend ((divides_blanks hout hblanks).append hfield)
  | @quoted p _ hkind =>
    obtain ⟨blanks, part, more, hblanks, hshape, rfl, hmore⟩ := hlayout.uncons
    obtain ⟨opener, closers, closer, body, -, -, rfl, hinner⟩ := hshape.exists_quotes hkind
    have hspan : (nameOf line p).span = ⟨_, _⟩ := hinner
    have hopener : out (pos + Text.size blanks) opener :=
      hquotes rfl _ rfl _ _ (.inl (by simp [hspan]))
    have hcloser : out (pos + Text.size blanks + Text.size ([opener] ++ body)) closer :=
      hquotes rfl _ rfl _ _ (.inr (by rw [hspan]))
    exact (dividesFront_self hmore).prepend
      ((divides_blanks hout hblanks).append (divides_quoted hspan hopener hcloser))

/-- The quotes in a text are divided from all that is between them. -/
theorem divides_quotes (hout : ∀ pos c, out pos c) (line : List Char) (h : Piece.Layout pos cs ps) :
    Divides out pos cs ((ps.filter (·.kind == .quoted)).map (fieldOf line)) := by
  induction h with
  | done _ => exact divides_nil fun _ _ _ _ => hout _ _
  | @next pos blanks part rest p ps hblanks hshape _ ih =>
    have hfront : Divides out pos blanks [] := divides_nil fun _ _ _ _ => hout _ _
    by_cases hkind : p.kind = .quoted
    · obtain ⟨opener, closers, closer, body, -, -, rfl, hinner⟩ := hshape.exists_quotes hkind
      have hspan : (fieldOf line p).span = ⟨_, _⟩ := hinner
      have hfield := divides_quoted hspan (hout _ opener) (hout _ closer)
      rw [List.filter_cons_of_pos (by simp [hkind])]
      exact hfront.append (hfield.append ih)
    · have hpart : Divides out (pos + Text.size blanks) part [] := divides_nil fun _ _ _ _ => hout _ _
      rw [List.filter_cons_of_neg (by simp [hkind])]
      exact hfront.append (hpart.append ih)

/-- Content that is not quoted is the line from its first piece to its trimmed end. -/
theorem exists_plainContent {before : List Char} (hout : ∀ pos c, isLoose c = true → out pos c)
    (hlayout : Piece.Layout (Text.size before) cs (p :: ps)) :
    ∃ text, Text.trimEnd (Text.dropBytes p.outer.start (before ++ cs)) = text ∧
      Stands (before ++ cs) p.outer.start text ∧
      p.outer.start + Text.size text = Text.size (Text.trimEnd (before ++ cs)) ∧
      ∀ f : Field, f.span = ⟨p.outer.start, p.outer.start + Text.size text⟩ →
        Divides out (Text.size before) cs [f] := by
  obtain ⟨blanks, part, more, hblanks, hshape, rfl, -⟩ := hlayout.uncons
  have hstart : p.outer.start = Text.size (before ++ blanks) := by
    rw [hshape.start, Text.size_append]
  have hline : before ++ (blanks ++ part ++ more) = before ++ blanks ++ (part ++ more) := by simp
  obtain ⟨c, body, rfl, hc⟩ := hshape.exists_cons
  obtain ⟨tail, htail, htailBlank⟩ := Text.exists_eq_trimEnd_append (c :: body ++ more)
  have hne : Text.trimEnd (c :: body ++ more) ≠ [] := by
    obtain ⟨rest, hrest⟩ := Text.exists_trimEnd_cons hc (body ++ more)
    rw [List.cons_append, hrest]
    exact List.cons_ne_nil _ _
  refine ⟨Text.trimEnd (c :: body ++ more), ?_, ?_, ?_, fun f hf => ?_⟩
  · rw [hstart, hline, Text.dropBytes_append]
  · refine ⟨before ++ blanks, tail, ?_, hstart⟩
    rw [hline, ← htail]
  · rw [hline, Text.trimEnd_append hne, hstart, ← Text.size_append]
  · rw [hshape.start] at hf
    have hfield := (divides_field hf).append (divides_blanks hout htailBlank)
    rw [← htail] at hfield
    have hall := (divides_blanks hout hblanks).append hfield
    rwa [List.append_assoc]

/-- The content is divided from what is around it. -/
theorem TakesContent.divides {before : List Char} {quoted : Bool}
    (hout : ∀ pos c, isLoose c = true → out pos c) (hquoted : quoted = true → ∀ pos c, out pos c)
    (h : TakesContent (before ++ cs) fs quoted ps) (hlayout : Piece.Layout (Text.size before) cs ps) :
    Divides out (Text.size before) cs fs ∧
      (∀ f ∈ fs, f.text = String.ofList (Text.slice (before ++ cs) f.span)) ∧
      (quoted = false →
        ∃ f, fs = [f] ∧ f.span.stop = Text.size (Text.trimEnd (before ++ cs))) := by
  cases h with
  | plain htext =>
    obtain ⟨text, rfl, hstands, hstop, hdivides⟩ := exists_plainContent hout hlayout
    subst htext
    refine ⟨hdivides _ rfl, fun f hf => ?_, fun _ => ⟨_, rfl, hstop⟩⟩
    rw [List.mem_singleton.1 hf, hstands.slice_eq]
  | quoted =>
    refine ⟨divides_quotes (hquoted rfl) _ hlayout, fun f hf => ?_, nofun⟩
    obtain ⟨p, -, rfl⟩ := List.mem_map.1 hf
    rfl

theorem Spends.texts (h : Spends line ps fs rest) :
    ∀ f ∈ fs, f.text = String.ofList (Text.slice line f.span) := by
  induction h with
  | done => simp
  | mark _ _ _ ih => exact ih
  | text _ _ ih => exact List.forall_mem_cons.2 ⟨rfl, ih⟩

theorem TakesSpeaker.name {speaker : Option Field} {quoted : Bool}
    (h : TakesSpeaker line speaker quoted ps rest) :
    ∀ f ∈ speaker, f.text = String.ofList (Text.trim (Text.slice line f.span)) := by
  cases h with
  | nobody => nofun
  | plain _ | quoted _ =>
    rintro f ⟨⟩
    rfl

/-- Quotes that belong together stand around a speaker in quotes. -/
theorem TakesSpeaker.quotes {speaker : Option Field} {quoted : Bool}
    (h : TakesSpeaker line speaker quoted ps rest) (hlayout : Piece.Layout 0 line ps)
    (hquoted : quoted = true) : ∃ f ∈ speaker, ∃ start opener closers closer,
      Mark.sayClosers? opener = some closers ∧ closer ∈ closers ∧
        f.span.start = start + opener.utf8Size ∧
        Stands line start ([opener] ++ Text.slice line f.span ++ [closer]) := by
  cases h with
  | nobody | plain _ => cases hquoted
  | @quoted p _ hkind =>
    obtain ⟨blanks, part, more, -, hshape, hline, -⟩ := hlayout.uncons
    obtain ⟨opener, closers, closer, body, hopener, hcloser, rfl, hinner⟩ := hshape.exists_quotes hkind
    rw [Nat.zero_add] at hinner
    have hstands : Stands line (Text.size blanks) ([opener] ++ body ++ [closer]) :=
      ⟨blanks, more, by rw [hline, List.append_assoc], rfl⟩
    have hslice : Text.slice line p.inner = body := by
      rw [hinner, Text.size_append, ← Nat.add_assoc]
      exact hstands.left.right.slice_eq
    refine ⟨nameOf line p, rfl, Text.size blanks, opener, closers, closer, hopener, hcloser, ?_, ?_⟩
    · simp [nameOf, hinner]
    · rwa [nameOf, hslice]

end Line

/-- **Positions in a spoken line are right, and nothing is lost.** The fields lie in the line from
left to right, and their texts are what stands there. If the content is not quoted, it goes to the
trimmed end of the line, and only blanks, marks and the quotes of the speaker belong to no field. -/
theorem ofLine?_faithful {text : String} {limit : Nat} {s : SayLine}
    (h : ofLine? text limit = some s) : Faithful text.toList s := by
  obtain ⟨hfind, -⟩ := Option.filter_eq_some_iff.1 h
  obtain ⟨⟨form, named⟩, -, hread⟩ := List.exists_of_findSome?_eq_some hfind
  obtain ⟨mid, rest, hspeaker, hstatus, hcontent⟩ := exists_of_readForm? hread
  have hlayout := Piece.layout_scan 0 text.toList
  -- with quoted content anything may be left out
  let out (pos : Nat) (c : Char) : Prop := s.contentQuoted = true ∨ s.LeavesOut pos c
  have hout : ∀ pos c, isLoose c = true → out pos c := fun pos c hc => .inr (.inl hc)
  obtain ⟨a, behind, htext, hname, hmid⟩ := hspeaker.divides hout
    (fun hquoted f hf pos c hpos => .inr (.inr ⟨hquoted, f, hf, hpos⟩)) hlayout
  obtain ⟨b, cs, rfl, htags, hrest⟩ := hstatus.divides hout hmid
  have hline : text.toList = a ++ b ++ cs := by rw [htext, List.append_assoc]
  rw [Nat.zero_add, ← Text.size_append] at hrest
  rw [hline] at hcontent
  obtain ⟨hdivided, hcontents, hend⟩ :=
    hcontent.divides hout (fun hquoted pos c => .inl hquoted) hrest
  have hfields : Divides out 0 text.toList s.fields := by
    rw [hline]
    refine (hname.append htags).append ?_
    rwa [Nat.zero_add]
  refine ⟨fits_of_ofLine? h, hspeaker.name, ?_, hfields.ordered, hspeaker.quotes hlayout, ?_, ?_⟩
  · exact List.forall_mem_append.2 ⟨hstatus.texts, hline ▸ hcontents⟩
  · rwa [hline]
  · rintro hplain pos c ⟨before, after, heq, rfl⟩
    have hcovered := hfields.covered before c after heq
    rw [Nat.zero_add] at hcovered
    exact hcovered.imp_left fun hleft => hleft.resolve_left (by simp [hplain])

/-- A speaker in quotes with two tags, and content with a quote that is never closed. -/
def openQuote : SayLine where
  speaker := some ⟨⟨3, 6⟩, "安"⟩
  speakerQuoted := true
  status := [⟨⟨11, 14⟩, "sad"⟩, ⟨⟨16, 19⟩, "low"⟩]
  content := [⟨⟨24, 36⟩, "it's “fine"⟩]
  contentQuoted := false

theorem ofLine?_faithful_openQuote :
    ofLine? "「安」 (sad, low)： it's “fine " 24 = some openQuote ∧
      Faithful "「安」 (sad, low)： it's “fine ".toList openQuote := by
  have hread : ofLine? "「安」 (sad, low)： it's “fine " 24 = some openQuote := by decide +kernel
  exact ⟨hread, ofLine?_faithful hread⟩

end SayLine
end Manuscript
