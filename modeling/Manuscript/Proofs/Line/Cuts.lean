/-
# The cuts of a line

Reading a line marks parts of it by their bytes: the bracketed segments, the name
and the tokens of a command, the pieces and fields of a spoken line. Every such
part lies in the text it is a part of, between characters.

A scanner is always somewhere in its text, with what is left of the text still to
be read. What it reads next stands there, and what is left then stands behind it;
this is the invariant of each of the scanners. The pieces of a spoken line are then
taken from the front: a speaker is one piece, each stretch of text in a status is a
field, the marks around it are none, and the content comes from all that is left
(`SayLine.exists_of_readForm?`).

Key definitions: `Segment.InLine`, `Command.Cuts`, `Piece.InLine`, `SayLine.fields`,
`SayLine.TakesSpeaker`, `SayLine.Spends`, `SayLine.TakesContent`, `Line.Cuts`.
Key theorems: `Segment.inLine_of_scan`, `Command.cuts_of_takeName?`, `Piece.inLine_of_scan`,
`SayLine.exists_of_readForm?`, `SayLine.fits_of_ofLine?`, `Line.cuts`.
-/
import Manuscript.Line.Basic
import Manuscript.Proofs.Command.Tokens

namespace Manuscript

open Text (Span Stands Fits)

variable {line : List Char}

/-! ### Segments -/

namespace Segment

/-- The segment and the text between its brackets stand in the line. -/
structure InLine (line : List Char) (s : Segment) : Prop where
  outer : Fits line s.outer
  interior : Stands line s.start s.interior

/-- A bracketed segment stands where its bracket opens, and the rest of the line behind it. -/
theorem inLine_of_takeInterior? {pos : Nat} {c close : Char} {cs interior rest : List Char}
    (h : Stands line pos (c :: cs)) (hin : takeInterior? cs = some (interior, close, rest)) :
    InLine line ⟨⟨pos, pos + c.utf8Size + Text.size interior + close.utf8Size⟩,
      pos + c.utf8Size, interior⟩ ∧
    Stands line (pos + c.utf8Size + Text.size interior + close.utf8Size) rest := by
  obtain ⟨rfl, -⟩ := takeInterior?_eq_some cs hin
  have hstop := h.tail.right.tail
  have hfits : Fits line ⟨pos, pos + c.utf8Size + Text.size interior + close.utf8Size⟩ :=
    ⟨by dsimp only; omega, h.boundary, hstop.boundary⟩
  exact ⟨⟨hfits, h.tail.left⟩, hstop⟩

theorem inLine_of_scan (pos : Nat) (cs : List Char) (h : Stands line pos cs) :
    ∀ {segments : List Segment}, scan pos cs = some segments → ∀ s ∈ segments, s.InLine line := by
  fun_induction scan pos cs with
  | case1 => simp
  | case2 => simp
  | case3 pos c cs _ interior close rest hin =>
    rintro _ ⟨rfl⟩ s hs
    rw [List.mem_singleton.1 hs]
    exact (inLine_of_takeInterior? h hin).1
  | case4 pos c cs _ interior close rest hin =>
    rename_i ih
    intro segments hscan s hs
    obtain ⟨more, hmore, rfl⟩ := Option.map_eq_some_iff.1 hscan
    obtain ⟨hsegment, hrest⟩ := inLine_of_takeInterior? h hin
    rcases List.mem_cons.1 hs with rfl | hs
    · exact hsegment
    · exact ih hrest.trimStart hmore s hs
  | case5 pos c cs _ interior close rest hin =>
    rintro _ ⟨rfl⟩ s hs
    rw [List.mem_singleton.1 hs]
    exact (inLine_of_takeInterior? h hin).1
  | case6 => simp
  | case7 => simp

theorem inLine_of_ofLine? {segments : List Segment} (h : ofLine? line = some segments) :
    ∀ s ∈ segments, s.InLine line := by
  have hstart := (Stands.self line).trimStart
  rw [Nat.zero_add] at hstart
  exact inLine_of_scan _ _ hstart h

/-- The text of a command without the mark that disables it is the end of the segment's text. The mark
is no medium, and neither are the blanks before it. -/
theorem exists_eq_append_enabling (interior : List Char) : ∃ front,
    interior = front ++ (enabling interior).1 ∧ front.countP Mark.isElement = 0 := by
  have hhanded := handed_enabling interior
  cases hdisabled : (enabling interior).2 with
  | true =>
    rw [hdisabled] at hhanded
    obtain ⟨blanks, mark, hinterior, hblanks, hmark⟩ := hhanded
    have hother : Mark.isElement mark = false := by
      simpa using Mark.of_contains (p := (!Mark.isElement ·)) (by decide) hmark
    refine ⟨blanks ++ [mark], by simpa using hinterior, ?_⟩
    rw [List.countP_append, Token.countP_blanks hblanks]
    simp [hother]
  | false =>
    rw [hdisabled] at hhanded
    exact ⟨[], hhanded.1.symm, rfl⟩

/-- What a segment's command is read from stands in the line. -/
theorem InLine.stands_enabling {s : Segment} (h : s.InLine line) :
    Stands line (s.start + (Text.size s.interior - Text.size (enabling s.interior).1))
      (enabling s.interior).1 := by
  obtain ⟨front, hfront, -⟩ := exists_eq_append_enabling s.interior
  exact h.interior.trans (Text.stands_of_eq_append hfront)

end Segment

/-! ### Commands -/

namespace Command

/-- What reading a command cuts out of the text between its brackets: the name, the text of
the arguments, and their tokens. -/
structure Cuts (interior name rest : List Char) : Prop where
  name : Text.slice? interior
    ⟨Text.size interior - Text.size (Text.trimStart interior),
      Text.size interior - Text.size (Text.trimStart interior) + Text.size name⟩ = some name
  args : Text.slice? interior ⟨Text.size interior - Text.size rest, Text.size interior⟩ = some rest
  tokens : ∀ element, ∀ t ∈ Token.scan (Text.size interior - Text.size rest) element rest,
    Fits interior t.span

/-- Between the name and the arguments stand no media. -/
theorem exists_eq_append_skipSeparator (cs : List Char) :
    ∃ front, cs = front ++ skipSeparator cs ∧ front.countP Mark.isElement = 0 := by
  unfold skipSeparator
  split
  · rename_i c rest htrim
    split
    · rename_i hc
      have hmark : Mark.isElement c = false := by
        simpa using Mark.of_contains (p := (!Mark.isElement ·)) (by decide) hc
      refine ⟨cs.takeWhile Text.isBlank ++ [c], ?_, ?_⟩
      · rw [List.append_assoc, List.singleton_append, ← htrim, Text.takeWhile_append_trimStart]
      · rw [List.countP_append, Token.countP_blanks fun d hd => List.mem_takeWhile_imp hd]
        simp [hmark]
    · exact ⟨[], rfl, rfl⟩
  · exact ⟨[], rfl, rfl⟩

/-- The name comes first behind blanks, and the text of the arguments last; neither the name nor what
is between has media. -/
theorem exists_eq_append_takeName? {interior name rest : List Char}
    (h : takeName? interior = some (name, rest)) :
    ∃ between, Text.trimStart interior = name ++ (between ++ rest) ∧
      (name ++ between).countP Mark.isElement = 0 := by
  unfold takeName? at h
  dsimp only at h
  split at h
  · cases h
  · split at h
    · cases h
    · obtain ⟨rfl, rfl⟩ : _ = name ∧ _ = rest := by simpa using h
      obtain ⟨between, hbetween, hnone⟩ :=
        exists_eq_append_skipSeparator ((Text.trimStart interior).dropWhile (!endsName ·))
      have hname : ((Text.trimStart interior).takeWhile (!endsName ·)).countP Mark.isElement = 0 := by
        rw [List.countP_eq_zero]
        intro c hc hmark
        have hends := List.mem_takeWhile_imp hc
        simp [endsName, hmark] at hends
      refine ⟨between, by rw [← hbetween, List.takeWhile_append_dropWhile], ?_⟩
      rw [List.countP_append, hname, hnone]

theorem cuts_of_takeName? {interior name rest : List Char}
    (h : takeName? interior = some (name, rest)) : Cuts interior name rest := by
  obtain ⟨between, hbetween, -⟩ := exists_eq_append_takeName? h
  have hname : Stands interior (Text.size interior - Text.size (Text.trimStart interior))
      (name ++ (between ++ rest)) := by
    rw [← hbetween]
    simpa using (Stands.self interior).trimStart
  have hrest : Stands interior (Text.size interior - Text.size rest) rest := by
    refine Text.stands_of_eq_append (a := interior.takeWhile Text.isBlank ++ (name ++ between)) ?_
    rw [List.append_assoc, List.append_assoc, ← hbetween, Text.takeWhile_append_trimStart]
  refine ⟨hname.left.slice?_eq, ?_, fun element => Token.fits_of_scan hrest⟩
  have hsize : Text.size interior - Text.size rest + Text.size rest = Text.size interior := by
    have hle := hrest.boundary_stop.le
    omega
  rw [← hrest.slice?_eq, hsize]

end Command

/-! ### Pieces -/

namespace Piece

/-- The piece stands in the line, with its quotes and without. -/
structure InLine (line : List Char) (p : Piece) : Prop where
  outer : Fits line p.outer
  inner : Fits line p.inner

theorem inLine_bare {kind : PieceKind} {pos : Nat} {body : List Char} (h : Stands line pos body) :
    InLine line (bare kind pos (pos + Text.size body)) :=
  ⟨h.fits, h.fits⟩

theorem inLine_of_scan (pos : Nat) (cs : List Char) (h : Stands line pos cs) :
    ∀ p ∈ scan pos cs, p.InLine line := by
  fun_induction scan pos cs with
  | case1 => simp
  | case2 pos c cs next _ ih => exact ih h.tail
  | case3 pos c cs next _ kind _ ih =>
    have hmark : Stands line pos [c] := Stands.left (b := cs) h
    refine List.forall_mem_cons.2 ⟨?_, ih h.tail⟩
    have hbare : InLine line (bare kind pos (pos + Text.size [c])) := inLine_bare hmark
    simpa using hbare
  | case4 pos c cs next _ _ closers _ body close rest hquote stop ih =>
    obtain ⟨rfl, -, -⟩ := Mark.takeQuote?_eq_some hquote
    have hstop := h.tail.right.tail
    have hle : pos ≤ stop + close.utf8Size := by omega
    exact List.forall_mem_cons.2
      ⟨⟨⟨hle, h.boundary, hstop.boundary⟩, h.tail.left.fits⟩, ih hstop⟩
  | case5 pos c cs _ _ _ _ _ =>
    intro p hp
    rw [List.mem_singleton.1 hp]
    exact inLine_bare h.trimEnd
  | case6 pos c cs _ _ _ body ih =>
    have hsplit : c :: cs = body ++ cs.dropWhile (!breaksText ·) := by
      simp [body]
    rw [hsplit] at h
    exact List.forall_mem_cons.2 ⟨inLine_bare h.left.trimEnd, ih h.right⟩

end Piece

/-! ### Spoken lines -/

namespace SayLine

/-- The fields of a spoken line in the order of its parts. -/
def fields (s : SayLine) : List Field := s.speaker.toList ++ s.status ++ s.content

/-- Pieces are spent on the fields of a status: each text is a field, and marks are none. -/
inductive Spends (line : List Char) : List Piece → List Field → List Piece → Prop
  | done {ps : List Piece} : Spends line ps [] ps
  | mark {p : Piece} {ps rest : List Piece} {fs : List Field} : p.kind ≠ .text → p.kind ≠ .quoted →
    Spends line ps fs rest → Spends line (p :: ps) fs rest
  | text {p : Piece} {ps rest : List Piece} {fs : List Field} : p.kind = .text →
    Spends line ps fs rest → Spends line (p :: ps) (fieldOf line p :: fs) rest

/-- A piece as the name of a speaker. -/
def nameOf (line : List Char) (p : Piece) : Field :=
  ⟨p.inner, String.ofList (Text.trim (Text.slice line p.inner))⟩

/-- The speaker is the first piece, quoted or not, or there is none. -/
inductive TakesSpeaker (line : List Char) : Option Field → Bool → List Piece → List Piece → Prop
  | nobody {ps : List Piece} : TakesSpeaker line none false ps ps
  | plain {p : Piece} {ps : List Piece} : p.kind = .text →
    TakesSpeaker line (some (nameOf line p)) false (p :: ps) ps
  | quoted {p : Piece} {ps : List Piece} : p.kind = .quoted →
    TakesSpeaker line (some (nameOf line p)) true (p :: ps) ps

/-- The content is all that is left, or the quotes in it. -/
inductive TakesContent (line : List Char) : List Field → Bool → List Piece → Prop
  | plain {p : Piece} {ps : List Piece} {text : List Char} :
    text = Text.trimEnd (Text.dropBytes p.outer.start line) →
    TakesContent line [⟨⟨p.outer.start, p.outer.start + Text.size text⟩, String.ofList text⟩] false
      (p :: ps)
  | quoted {ps : List Piece} :
    TakesContent line ((ps.filter (·.kind == .quoted)).map (fieldOf line)) true ps

section Reading

variable {limit : Nat} {ps mid rest : List Piece} {fs gs : List Field}

theorem Spends.trans (h : Spends line ps fs mid) (h' : Spends line mid gs rest) :
    Spends line ps (fs ++ gs) rest := by
  induction h with
  | done => exact h'
  | mark htext hquoted _ ih => exact .mark htext hquoted (ih h')
  | text hkind _ ih => exact .text hkind (ih h')

theorem spends_takeSeparator? (h : takeSeparator? ps = some rest) : Spends line ps [] rest := by
  cases ps with
  | nil => cases h
  | cons p ps =>
    rw [takeSeparator?] at h
    split at h
    · rename_i hkind
      cases h
      exact .mark (by simp [hkind]) (by simp [hkind]) .done
    · cases h

theorem spends_takeTags? : ∀ {ps : List Piece} {fs : List Field},
    takeTags? line ps = some (fs, rest) → Spends line ps fs rest
  | [], _, h => by cases h
  | p :: ps, fs, h => by
    rw [takeTags?] at h
    split at h
    · rename_i hkind
      cases h
      exact .mark (by simp [hkind]) (by simp [hkind]) .done
    · rename_i hkind
      exact .mark (by simp [hkind]) (by simp [hkind]) (spends_takeTags? h)
    · rename_i hkind
      obtain ⟨⟨tags, more⟩, htags, heq⟩ := Option.map_eq_some_iff.1 h
      cases heq
      exact .text hkind (spends_takeTags? htags)
    · cases h

theorem spends_takeStatus? (h : takeStatus? line ps = some (fs, rest)) : Spends line ps fs rest := by
  cases ps with
  | nil => cases h
  | cons p ps =>
    rw [takeStatus?] at h
    split at h
    · rename_i hkind
      exact .mark (by simp [hkind]) (by simp [hkind]) (spends_takeTags? h)
    · cases h

theorem spends_takeStatus (line : List Char) (ps : List Piece) :
    Spends line ps (takeStatus line ps).1 (takeStatus line ps).2 := by
  rw [takeStatus]
  cases hstatus : takeStatus? line ps with
  | none => exact .done
  | some r => exact spends_takeStatus? hstatus

theorem spends_takeMiddle? {form : SayForm} (h : takeMiddle? line form ps = some (fs, rest)) :
    Spends line ps fs rest := by
  cases form with
  | separatorFirst =>
    obtain ⟨more, hsep, heq⟩ := Option.map_eq_some_iff.1 h
    have hstatus := spends_takeStatus line more
    rw [heq] at hstatus
    exact (spends_takeSeparator? hsep).trans hstatus
  | statusFirst =>
    obtain ⟨⟨tags, more⟩, hstatus, hbind⟩ := Option.bind_eq_some_iff.1 h
    obtain ⟨last, hsep, heq⟩ := Option.bind_eq_some_iff.1 hbind
    cases heq
    have htrans := (spends_takeStatus? hstatus).trans (spends_takeSeparator? hsep)
    rwa [List.append_nil] at htrans
  | quotedContent | quotedName =>
    have hstatus := spends_takeStatus line ps
    rwa [Option.some.inj h] at hstatus

theorem takesSpeaker_takeName? {quotedOnly quoted : Bool} {f : Field}
    (h : takeName? line limit quotedOnly ps = some (f, quoted, rest)) :
    TakesSpeaker line (some f) quoted ps rest := by
  cases ps with
  | nil => cases h
  | cons p ps =>
    rw [takeName?] at h
    dsimp only at h
    split at h
    · rename_i hkind
      split at h <;> cases h
      exact .quoted hkind
    · rename_i hkind
      split at h
      · cases h
      · split at h <;> cases h
        exact .plain hkind
    · cases h

theorem takesContent_takeContent? {quotedOnly quoted : Bool}
    (h : takeContent? line quotedOnly ps = some (fs, quoted)) : TakesContent line fs quoted ps := by
  cases ps with
  | nil => cases h
  | cons p ps =>
    rw [takeContent?] at h
    split at h
    · cases h
    · split at h
      · cases h
        exact .quoted
      · cases h
        exact .plain rfl

/-- **A line that is read** is a speaker, a status and a content, taken from its pieces one after
the other. -/
theorem exists_of_readForm? {form : SayForm} {named : Bool} {s : SayLine}
    (h : readForm? line limit ps form named = some s) :
    ∃ mid rest, TakesSpeaker line s.speaker s.speakerQuoted ps mid ∧
      Spends line mid s.status rest ∧ TakesContent line s.content s.contentQuoted rest := by
  have hbehind : ∀ {speaker quoted mid}, readBehind? line form speaker quoted mid = some s →
      TakesSpeaker line speaker quoted ps mid → ∃ mid rest,
        TakesSpeaker line s.speaker s.speakerQuoted ps mid ∧
        Spends line mid s.status rest ∧ TakesContent line s.content s.contentQuoted rest := by
    intro speaker quoted mid hread hspeaker
    obtain ⟨⟨status, rest⟩, hmiddle, hbind⟩ := Option.bind_eq_some_iff.1 hread
    obtain ⟨⟨content, contentQuoted⟩, hcontent, heq⟩ := Option.bind_eq_some_iff.1 hbind
    cases heq
    exact ⟨mid, rest, hspeaker, spends_takeMiddle? hmiddle, takesContent_takeContent? hcontent⟩
  unfold readForm? at h
  split at h
  · obtain ⟨⟨f, quoted, mid⟩, hname, hread⟩ := Option.bind_eq_some_iff.1 h
    exact hbehind hread (takesSpeaker_takeName? hname)
  · split at h
    · cases h
    · exact hbehind h .nobody

/-! The fields of each part lie in the line, and so do the pieces behind it. -/

theorem Spends.fits (h : Spends line ps fs rest) (hps : ∀ p ∈ ps, p.InLine line) :
    (∀ f ∈ fs, Fits line f.span) ∧ ∀ p ∈ rest, p.InLine line := by
  induction h with
  | done => exact ⟨by simp, hps⟩
  | mark _ _ _ ih => exact ih (List.forall_mem_cons.1 hps).2
  | text _ _ ih =>
    obtain ⟨hp, hps⟩ := List.forall_mem_cons.1 hps
    obtain ⟨hfits, hrest⟩ := ih hps
    exact ⟨List.forall_mem_cons.2 ⟨hp.inner, hfits⟩, hrest⟩

theorem TakesSpeaker.fits {speaker : Option Field} {quoted : Bool}
    (h : TakesSpeaker line speaker quoted ps rest) (hps : ∀ p ∈ ps, p.InLine line) :
    (∀ f ∈ speaker.toList, Fits line f.span) ∧ ∀ p ∈ rest, p.InLine line := by
  cases h with
  | nobody => exact ⟨by simp, hps⟩
  | plain _ | quoted _ =>
    obtain ⟨hp, hrest⟩ := List.forall_mem_cons.1 hps
    exact ⟨List.forall_mem_singleton.2 hp.inner, hrest⟩

/-- Content that is not quoted runs from a piece to the trimmed end of the line. -/
theorem TakesContent.fits {quoted : Bool} (h : TakesContent line fs quoted ps)
    (hps : ∀ p ∈ ps, p.InLine line) : ∀ f ∈ fs, Fits line f.span := by
  cases h with
  | @plain p _ text htext =>
    obtain ⟨before, after, hline, hstart⟩ := (hps p List.mem_cons_self).outer.start
    have hdrop : Text.dropBytes p.outer.start line = after := by
      rw [hstart, hline, Text.dropBytes_append]
    have hstands : Stands line p.outer.start after := ⟨before, [], by simpa using hline, hstart⟩
    rw [htext, hdrop]
    exact List.forall_mem_singleton.2 hstands.trimEnd.fits
  | quoted =>
    intro f hf
    obtain ⟨p, hp, rfl⟩ := List.mem_map.1 hf
    exact (hps p (List.mem_filter.1 hp).1).inner

end Reading

/-- The fields of a spoken line lie in its text. -/
theorem fits_of_ofLine? {text : String} {limit : Nat} {s : SayLine}
    (h : ofLine? text limit = some s) : ∀ f ∈ s.fields, Fits text.toList f.span := by
  obtain ⟨hfind, -⟩ := Option.filter_eq_some_iff.1 h
  obtain ⟨⟨form, named⟩, -, hread⟩ := List.exists_of_findSome?_eq_some hfind
  obtain ⟨mid, rest, hspeaker, hstatus, hcontent⟩ := exists_of_readForm? hread
  obtain ⟨hname, hmid⟩ := hspeaker.fits (Piece.inLine_of_scan 0 text.toList (Stands.self _))
  obtain ⟨htags, hrest⟩ := hstatus.fits hmid
  exact List.forall_mem_append.2 ⟨List.forall_mem_append.2 ⟨hname, htags⟩, hcontent.fits hrest⟩

end SayLine

/-! ### Lines -/

/-- A command line is read from its segments. -/
theorem Line.exists_segments {text : String} {block limit : Nat} {cs : List Command}
    (h : (Line.read text block limit).1 = .commands cs) : ∃ segments ds,
      Segment.ofLine? text.toList = some segments ∧
      Bracketed.ofSegments text.toList block segments = .commands cs ds := by
  have hprose : Line.readProse text limit ≠ .commands cs := by
    unfold Line.readProse
    split <;> simp
  unfold Line.read at h
  split at h
  · cases h
  · split at h
    · rename_i ds hline
      cases h
      unfold Bracketed.ofLine at hline
      split at hline
      · cases hline
      · exact ⟨_, ds, ‹_›, hline⟩
    · exact absurd h hprose
    · exact absurd h hprose

/-- A command of a command line is read from the text in its brackets, and then may be disabled. -/
theorem Line.exists_parse? {text : String} {block limit : Nat} {cs : List Command}
    (h : (Line.read text block limit).1 = .commands cs) {c : Command} (hc : c ∈ cs) :
    ∃ interior loc element parsed ds, Command.parse? interior loc element = some (parsed, ds) ∧
      c = { parsed with disabled := c.disabled } := by
  obtain ⟨segments, ds, -, hcommands⟩ := Line.exists_segments h
  obtain ⟨s, -, es, hcommand⟩ := Bracketed.exists_of_mem_commands hcommands c hc
  obtain ⟨⟨parsed, es⟩, hparse, heq⟩ := Option.map_eq_some_iff.1 hcommand
  cases heq
  exact ⟨_, _, _, parsed, es, hparse, rfl⟩

/-- Every cut that reading a text makes lies between characters of what is cut. -/
structure Line.Cuts (text : String) (limit : Nat) : Prop where
  segments : ∀ segments, Segment.ofLine? text.toList = some segments →
    ∀ s ∈ segments, Fits text.toList s.outer ∧ Stands text.toList s.start s.interior ∧
      Stands text.toList
        (s.start + (Text.size s.interior - Text.size (Segment.enabling s.interior).1))
        (Segment.enabling s.interior).1
  commands : ∀ interior name rest, Command.takeName? interior = some (name, rest) →
    Command.Cuts interior name rest
  pieces : ∀ p ∈ Piece.scan 0 text.toList, p.InLine text.toList
  fields : ∀ s, SayLine.ofLine? text limit = some s → ∀ f ∈ s.fields, Fits text.toList f.span

theorem Line.cuts (text : String) (limit : Nat) : Line.Cuts text limit := by
  refine ⟨fun segments h s hs => ?_, fun interior name rest => Command.cuts_of_takeName?,
    Piece.inLine_of_scan 0 text.toList (Stands.self _), fun s => SayLine.fits_of_ofLine?⟩
  have hin := Segment.inLine_of_ofLine? h s hs
  exact ⟨hin.outer, hin.interior, hin.stands_enabling⟩

end Manuscript
