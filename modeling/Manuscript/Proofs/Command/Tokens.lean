/-
# Tokens lose nothing

The tokens of a text stand in it one behind the other, with nothing but blanks between
them, up to the end. What a token holds is told by the stretch of text it was read from,
and a stretch of text ends only where the text ends or a mark stands (`TokenKind.ReadFrom`).

A layout says this token by token (`Token.Layout`), and the tokens of a text are the only
ones that it is laid out with (`Token.layout_iff`). So the text can be put together again,
from the spans of its tokens and what stands there, up to the kind of the blanks between
them; and what is put together has the same tokens (`Token.Layout.padded`).

Key definitions: `TokenKind.ReadFrom`, `Token.Layout`, `Token.stopOf`, `Token.joined`,
`Token.padded`, `Token.Lossless`.
Key theorems: `Token.exists_taken`, `Token.layout_iff`, `Token.Layout.split`,
`Token.tokenize_lossless`.
-/
import Manuscript.Command.Token
import Manuscript.Proofs.Line.CommandLine

namespace Manuscript

open Text (Span Stands Boundary Fits StartsOff)

/-! ### Characters -/

namespace Mark

theorem not_isSpecial_of_closers? {c : Char} {closers : List Char} (h : closers? c = some closers) :
    Token.isSpecial c = false := by
  unfold closers? at h
  split at h <;> first | decide | cases h

theorem not_isBlank_of_closers? {c : Char} {closers : List Char} (h : closers? c = some closers) :
    Text.isBlank c = false := by
  unfold closers? at h
  split at h <;> first | decide | cases h

theorem not_isSpecial_of_mem_closers? {c d : Char} {closers : List Char}
    (h : closers? c = some closers) (hd : d ∈ closers) : Token.isSpecial d = false := by
  have hall : closers.all (!Token.isSpecial ·) = true := by
    unfold closers? at h
    split at h <;> cases h <;> decide
  simpa using List.all_eq_true.1 hall d hd

/-- A quote is never closed if none of what follows closes it. -/
theorem takeQuote?_eq_none_iff {closers : List Char} : ∀ {cs : List Char},
    takeQuote? closers cs = none ↔ ∀ c ∈ cs, c ∉ closers
  | [] => by simp [takeQuote?]
  | c :: cs => by
    by_cases hc : c ∈ closers
    · simp [takeQuote?, hc]
    · simp [takeQuote?, hc, takeQuote?_eq_none_iff]

end Mark

namespace Token

/-- The characters that end a stretch of text. -/
def specials : List Char := ['=', '＝', ',', '，', '(', '（', ')', '）', elementMark]

theorem isSpecial_eq (c : Char) : isSpecial c = specials.contains c := by
  have hmark : Mark.isElement c = decide (c = elementMark) := rfl
  simp [isSpecial, specials, Mark.isAssign, Mark.isArgComma, Mark.isParenOpen, Mark.isParenClose,
    hmark, Bool.or_assoc]

theorem not_isSpecial_of_isBlank {c : Char} (h : Text.isBlank c = true) : isSpecial c = false := by
  by_contra hspecial
  rw [Bool.not_eq_false, isSpecial_eq] at hspecial
  have hall : specials.all (!Text.isBlank ·) = true := by decide
  have hc := List.all_eq_true.1 hall c (by simpa using hspecial)
  rw [h] at hc
  cases hc

end Token

/-! ### What a token is read from -/

/-- A token of the kind is read from `part`, where `rest` follows it in the text. -/
def TokenKind.ReadFrom (part rest : List Char) : TokenKind → Prop
  -- without the blanks at the end, and as long as it can be
  | .text s => s ≠ "" ∧ s.toList = Text.trimEnd part ∧ (∀ c ∈ part, Token.isSpecial c = false) ∧
      (∀ c ∈ part.head?, Text.isBlank c = false ∧ Mark.closers? c = none) ∧
      StartsOff (!Token.isSpecial ·) rest
  -- up to the first character that closes the quote
  | .quoted s => ∃ opener closers closer, Mark.closers? opener = some closers ∧
      part = opener :: (s.toList ++ [closer]) ∧ closer ∈ closers ∧ ∀ c ∈ s.toList, c ∉ closers
  | .unterminated s => ∃ opener closers, Mark.closers? opener = some closers ∧
      part = opener :: s.toList ∧ rest = [] ∧ ∀ c ∈ s.toList, c ∉ closers
  | .element _ => part = [elementMark]
  | .assign => ∃ c, part = [c] ∧ Mark.isAssign c = true
  | .comma => ∃ c, part = [c] ∧ Mark.isArgComma c = true
  | .parenOpen => ∃ c, part = [c] ∧ Mark.isParenOpen c = true
  | .parenClose => ∃ c, part = [c] ∧ Mark.isParenClose c = true
  | .eof => part = [] ∧ rest = []

/-- The number of medium marks in a quoted text, which stand for no medium. -/
def TokenKind.hidden : TokenKind → Nat
  | .quoted s | .unterminated s => s.toList.countP Mark.isElement
  | _ => 0

namespace Token

variable {element : Nat} {kind : TokenKind} {part rest : List Char}

theorem first_text {c : Char} {cs : List Char} (hc : isSpecial c = false)
    (hquote : Mark.closers? c = none) : first element c cs =
      (.text (String.ofList (Text.trimEnd (c :: cs.takeWhile (!isSpecial ·)))),
        Text.size (c :: cs.takeWhile (!isSpecial ·)), cs.dropWhile (!isSpecial ·)) := by
  simp only [isSpecial, Bool.or_eq_false_iff] at hc
  simp [first, hc, hquote]

theorem first_quoted {c close : Char} {cs closers body rest : List Char}
    (hquote : Mark.closers? c = some closers)
    (htake : Mark.takeQuote? closers cs = some (body, close, rest)) : first element c cs =
      (.quoted (String.ofList body), c.utf8Size + Text.size body + close.utf8Size, rest) := by
  have hc := Mark.not_isSpecial_of_closers? hquote
  simp only [isSpecial, Bool.or_eq_false_iff] at hc
  simp [first, hc, hquote, htake]

theorem first_unterminated {c : Char} {cs closers : List Char}
    (hquote : Mark.closers? c = some closers) (htake : Mark.takeQuote? closers cs = none) :
    first element c cs = (.unterminated (String.ofList cs), c.utf8Size + Text.size cs, []) := by
  have hc := Mark.not_isSpecial_of_closers? hquote
  simp only [isSpecial, Bool.or_eq_false_iff] at hc
  simp [first, hc, hquote, htake]

/-- A token takes `part` off the front of a text, and `rest` is left; it is the next medium if it
is one. -/
structure Taken (element : Nat) (kind : TokenKind) (part rest : List Char) : Prop where
  filled : part ≠ []
  read : kind.ReadFrom part rest
  number : ∀ i, kind = .element i → i = element

/-- **The first token is taken off the front of the text.** -/
theorem exists_taken (element : Nat) {c : Char} (hc : Text.isBlank c = false) (cs : List Char) :
    ∃ kind part rest, c :: cs = part ++ rest ∧
      first element c cs = (kind, Text.size part, rest) ∧ Taken element kind part rest := by
  fun_cases first element c cs with
  | case1 h => exact ⟨.assign, [c], cs, rfl, by simp, ⟨by simp, ⟨c, rfl, h⟩, by simp⟩⟩
  | case2 _ h => exact ⟨.comma, [c], cs, rfl, by simp, ⟨by simp, ⟨c, rfl, h⟩, by simp⟩⟩
  | case3 _ _ h => exact ⟨.parenOpen, [c], cs, rfl, by simp, ⟨by simp, ⟨c, rfl, h⟩, by simp⟩⟩
  | case4 _ _ _ h => exact ⟨.parenClose, [c], cs, rfl, by simp, ⟨by simp, ⟨c, rfl, h⟩, by simp⟩⟩
  | case5 _ _ _ _ h =>
    have hmark : [c] = [elementMark] := by rw [eq_of_beq h]
    exact ⟨.element element, [c], cs, rfl, by simp, ⟨by simp, hmark, by simp⟩⟩
  | case6 _ _ _ _ _ closers hquote body close rest htake =>
    obtain ⟨rfl, hclose, hbody⟩ := Mark.takeQuote?_eq_some htake
    refine ⟨.quoted (String.ofList body), c :: (body ++ [close]), rest, by simp,
      by simp [Nat.add_assoc], ⟨by simp, ⟨c, closers, close, hquote, by simp, hclose, ?_⟩, by simp⟩⟩
    simpa using hbody
  | case7 _ _ _ _ _ closers hquote htake =>
    refine ⟨.unterminated (String.ofList cs), c :: cs, [], by simp, by simp,
      ⟨by simp, ⟨c, closers, hquote, by simp, rfl, ?_⟩, by simp⟩⟩
    simpa using Mark.takeQuote?_eq_none_iff.1 htake
  | case8 hassign hcomma hopen hclose hmark hquote =>
    have hspecial : isSpecial c = false := by simp [isSpecial, hassign, hcomma, hopen, hclose, hmark]
    have hword : Text.trimEnd (c :: cs.takeWhile (!isSpecial ·)) ≠ [] := fun hnil => by
      have hblank := Text.trimEnd_eq_nil_iff.1 hnil c List.mem_cons_self
      rw [hc] at hblank
      cases hblank
    refine ⟨_, c :: cs.takeWhile (!isSpecial ·), _, by simp, rfl, ⟨by simp, ?_, by simp⟩⟩
    refine ⟨by simpa using hword, String.toList_ofList, ?_, ?_, Text.startsOff_dropWhile _ cs⟩
    · refine List.forall_mem_cons.2 ⟨hspecial, fun d hd => ?_⟩
      simpa using List.mem_takeWhile_imp hd
    · simpa using ⟨hc, hquote⟩

/-- **A token that may be taken off the front of a text is its first token.** -/
theorem Taken.first_eq (h : Taken element kind part rest) : ∃ c tail, part = c :: tail ∧
    Text.isBlank c = false ∧ first element c (tail ++ rest) = (kind, Text.size part, rest) := by
  obtain ⟨hfilled, hread, hnumber⟩ := h
  cases kind with
  | text s =>
    obtain ⟨-, hs, hpart, hhead, hrest⟩ := hread
    obtain ⟨c, tail, rfl⟩ := List.exists_cons_of_ne_nil hfilled
    obtain ⟨hblank, hquote⟩ := hhead c rfl
    obtain ⟨hc, htail⟩ := List.forall_mem_cons.1 hpart
    have htail' : ∀ d ∈ tail, (!isSpecial d) = true := fun d hd => by simp [htail d hd]
    refine ⟨c, tail, rfl, hblank, ?_⟩
    rw [first_text hc hquote, Text.takeWhile_append_of_startsOff htail' hrest,
      Text.dropWhile_append_of_startsOff htail' hrest, ← hs, String.ofList_toList]
  | quoted s =>
    obtain ⟨opener, closers, closer, hquote, rfl, hclose, hbody⟩ := hread
    refine ⟨opener, _, rfl, Mark.not_isBlank_of_closers? hquote, ?_⟩
    rw [List.append_assoc, List.singleton_append,
      first_quoted hquote (Mark.takeQuote?_append rest hclose hbody), String.ofList_toList]
    simp [Nat.add_assoc]
  | unterminated s =>
    obtain ⟨opener, closers, hquote, rfl, rfl, hbody⟩ := hread
    refine ⟨opener, _, rfl, Mark.not_isBlank_of_closers? hquote, ?_⟩
    rw [List.append_nil, first_unterminated hquote (Mark.takeQuote?_eq_none_iff.2 hbody),
      String.ofList_toList]
    simp
  | element i =>
    obtain rfl := hnumber i rfl
    obtain rfl : part = [elementMark] := hread
    exact ⟨elementMark, [], rfl, by decide, rfl⟩
  | assign =>
    obtain ⟨c, rfl, hc⟩ := hread
    obtain rfl | rfl : c = '=' ∨ c = '＝' := by simpa [Mark.isAssign] using hc
    all_goals exact ⟨_, [], rfl, by decide, rfl⟩
  | comma =>
    obtain ⟨c, rfl, hc⟩ := hread
    obtain rfl | rfl : c = ',' ∨ c = '，' := by simpa [Mark.isArgComma] using hc
    all_goals exact ⟨_, [], rfl, by decide, rfl⟩
  | parenOpen =>
    obtain ⟨c, rfl, hc⟩ := hread
    obtain rfl | rfl : c = '(' ∨ c = '（' := by simpa [Mark.isParenOpen] using hc
    all_goals exact ⟨_, [], rfl, by decide, rfl⟩
  | parenClose =>
    obtain ⟨c, rfl, hc⟩ := hread
    obtain rfl | rfl : c = ')' ∨ c = '）' := by simpa [Mark.isParenClose] using hc
    all_goals exact ⟨_, [], rfl, by decide, rfl⟩
  | eof => exact absurd hread.1 hfilled

/-! ### Layouts -/

/-- The text, which starts at byte `pos` and whose first medium mark outside of quotes has the
number `element`, is laid out with the tokens: blanks, a token, and so on up to the end. -/
inductive Layout : Nat → Nat → List Char → List Token → Prop
  | done {pos element : Nat} {blanks : List Char} : (∀ c ∈ blanks, Text.isBlank c = true) →
    Layout pos element blanks [⟨.eof, ⟨pos + Text.size blanks, pos + Text.size blanks⟩⟩]
  | next {pos element : Nat} {blanks part rest : List Char} {kind : TokenKind} {ts : List Token} :
    (∀ c ∈ blanks, Text.isBlank c = true) → Taken element kind part rest →
    Layout (pos + Text.size blanks + Text.size part) (nextElement element kind) rest ts →
    Layout pos element (blanks ++ (part ++ rest))
      (⟨kind, ⟨pos + Text.size blanks, pos + Text.size blanks + Text.size part⟩⟩ :: ts)

variable {pos : Nat} {cs : List Char} {ts : List Token}

/-- A blank goes before a layout. -/
theorem Layout.blank {c : Char} (hc : Text.isBlank c = true)
    (h : Layout (pos + c.utf8Size) element cs ts) : Layout pos element (c :: cs) ts := by
  have hpos : ∀ blanks : List Char,
      pos + c.utf8Size + Text.size blanks = pos + Text.size (c :: blanks) :=
    fun blanks => by rw [Text.size_cons, Nat.add_assoc]
  cases h with
  | @done _ _ blanks hblanks =>
    rw [hpos]
    exact .done (List.forall_mem_cons.2 ⟨hc, hblanks⟩)
  | @next _ _ blanks part rest kind ts hblanks htaken hrest =>
    rw [hpos] at hrest ⊢
    exact .next (List.forall_mem_cons.2 ⟨hc, hblanks⟩) htaken hrest

theorem layout_scan (pos element : Nat) (cs : List Char) :
    Layout pos element cs (scan pos element cs) := by
  fun_induction scan pos element cs with
  | case1 pos element => exact .done (List.forall_mem_nil _)
  | case2 pos element c cs hc ih => exact ih.blank hc
  | case3 pos element c cs hc t ih =>
    obtain ⟨kind, part, rest, hcs, hfirst, htaken⟩ :=
      exists_taken element (by simpa using hc) cs
    obtain ⟨rfl, hsize, rfl⟩ : t.1 = kind ∧ t.2.1 = Text.size part ∧ t.2.2 = rest := by
      simp [t, hfirst]
    rw [hsize] at ih ⊢
    rw [hcs]
    exact .next (List.forall_mem_nil _) htaken ih

theorem scan_blanks : ∀ {blanks : List Char} {pos : Nat}, (∀ c ∈ blanks, Text.isBlank c = true) →
    scan pos element (blanks ++ cs) = scan (pos + Text.size blanks) element cs
  | [], _, _ => rfl
  | c :: blanks, pos, h => by
    obtain ⟨hc, hblanks⟩ := List.forall_mem_cons.1 h
    rw [List.cons_append, scan, if_pos hc, scan_blanks hblanks, Nat.add_assoc, ← Text.size_cons]

theorem Layout.scan_eq (h : Layout pos element cs ts) : scan pos element cs = ts := by
  induction h with
  | @done pos element blanks hblanks =>
    have hscan : scan pos element (blanks ++ []) = scan (pos + Text.size blanks) element [] :=
      scan_blanks hblanks
    rw [List.append_nil] at hscan
    rw [hscan, scan]
  | @next pos element blanks part rest kind ts hblanks htaken _ ih =>
    obtain ⟨c, tail, rfl, hc, hfirst⟩ := htaken.first_eq
    rw [scan_blanks hblanks, List.cons_append, scan, if_neg (by simp [hc])]
    simp only [hfirst, ih]

/-- **The tokens of a text are those that it is laid out with.** -/
theorem layout_iff : Layout pos element cs ts ↔ scan pos element cs = ts :=
  ⟨Layout.scan_eq, fun h => h ▸ layout_scan pos element cs⟩

/-! ### Numbers of media -/

/-- The number of medium marks in the quoted texts. -/
def hidden : List Token → Nat
  | [] => 0
  | t :: ts => t.kind.hidden + hidden ts

theorem isElement_of_not_isSpecial {c : Char} (h : isSpecial c = false) :
    Mark.isElement c = false := by
  simp only [isSpecial, Bool.or_eq_false_iff] at h
  exact h.2

theorem countP_of_not_isSpecial (h : ∀ c ∈ cs, isSpecial c = false) :
    cs.countP Mark.isElement = 0 := by
  rw [List.countP_eq_zero]
  intro c hc
  rw [isElement_of_not_isSpecial (h c hc)]
  exact Bool.false_ne_true

theorem countP_blanks (h : ∀ c ∈ cs, Text.isBlank c = true) : cs.countP Mark.isElement = 0 :=
  countP_of_not_isSpecial fun c hc => not_isSpecial_of_isBlank (h c hc)

/-- A token counts the medium marks it is read from, unless they stand in a quote. -/
theorem Taken.countP (h : Taken element kind part rest) :
    nextElement element kind + kind.hidden = element + part.countP Mark.isElement := by
  obtain ⟨hfilled, hread, -⟩ := h
  have hmark : ∀ {marks : List Char} {c : Char}, marks.all (!Mark.isElement ·) = true →
      marks.contains c = true → element = element + [c].countP Mark.isElement := by
    intro marks c hall hc
    have hother : Mark.isElement c = false := by simpa using Mark.of_contains hall hc
    simp [hother]
  cases kind with
  | text s =>
    rw [countP_of_not_isSpecial hread.2.2.1]
    rfl
  | quoted s =>
    obtain ⟨opener, closers, closer, hquote, rfl, hclose, -⟩ := hread
    have hopener := isElement_of_not_isSpecial (Mark.not_isSpecial_of_closers? hquote)
    have hcloser := isElement_of_not_isSpecial (Mark.not_isSpecial_of_mem_closers? hquote hclose)
    simp [nextElement, TokenKind.hidden, hopener, hcloser]
  | unterminated s =>
    obtain ⟨opener, closers, hquote, rfl, -⟩ := hread
    have hopener := isElement_of_not_isSpecial (Mark.not_isSpecial_of_closers? hquote)
    simp [nextElement, TokenKind.hidden, hopener]
  | element i =>
    obtain rfl : part = [elementMark] := hread
    rfl
  | assign =>
    obtain ⟨c, rfl, hc⟩ := hread
    exact hmark (by decide) hc
  | comma =>
    obtain ⟨c, rfl, hc⟩ := hread
    exact hmark (by decide) hc
  | parenOpen =>
    obtain ⟨c, rfl, hc⟩ := hread
    exact hmark (by decide) hc
  | parenClose =>
    obtain ⟨c, rfl, hc⟩ := hread
    exact hmark (by decide) hc
  | eof => exact absurd hread.1 hfilled

/-! ### One token of a layout -/

/-- Where the last of the tokens stops; `pos` if there is none. -/
def stopOf (pos : Nat) : List Token → Nat
  | [] => pos
  | t :: ts => stopOf t.span.stop ts

/-- A layout goes on where the tokens before stop. -/
theorem Layout.split : ∀ {pre : List Token} {pos element : Nat} {cs : List Char},
    Layout pos element cs (pre ++ ts) → ts ≠ [] → ∃ before rest element',
      cs = before ++ rest ∧ stopOf pos pre = pos + Text.size before ∧
      element' + hidden pre = element + before.countP Mark.isElement ∧
      Layout (pos + Text.size before) element' rest ts
  | [], pos, element, cs, h, _ => ⟨[], cs, element, rfl, rfl, rfl, h⟩
  | t :: pre, pos, element, cs, h, hts => by
    rw [List.cons_append] at h
    generalize htail : pre ++ ts = tail at h
    cases h with
    | done => exact absurd (List.append_eq_nil_iff.1 htail).2 hts
    | @next _ _ blanks part rest kind _ hblanks htaken hrest =>
      subst htail
      obtain ⟨before, rest, element', rfl, hstop, hcount, hlayout⟩ := hrest.split hts
      have hnumber : element' + hidden (⟨kind, ⟨pos + Text.size blanks,
          pos + Text.size blanks + Text.size part⟩⟩ :: pre) =
          element + (blanks ++ (part ++ before)).countP Mark.isElement := by
        have hnext := htaken.countP
        simp only [hidden, List.countP_append, countP_blanks hblanks] at hcount ⊢
        omega
      have hsize : pos + Text.size blanks + Text.size part + Text.size before =
          pos + Text.size (blanks ++ (part ++ before)) := by
        simp only [Text.size_append]
        omega
      rw [hsize] at hstop hlayout
      exact ⟨blanks ++ (part ++ before), rest, element', by simp, hstop, hnumber, hlayout⟩

/-- Where a token of a text stands, behind the tokens `pre`: the text `before` and a gap of blanks
stand before it, and `rest` behind it. A medium has the number of its mark, not counting those in
quotes. -/
structure Placed (base element : Nat) (cs : List Char) (pre : List Token) (t : Token)
    (before gap part rest : List Char) : Prop where
  text : cs = before ++ (gap ++ (part ++ rest))
  stop : stopOf base pre = base + Text.size before
  blank : ∀ c ∈ gap, Text.isBlank c = true
  span : t.span =
    ⟨base + Text.size (before ++ gap), base + Text.size (before ++ gap) + Text.size part⟩
  read : t.kind.ReadFrom part rest
  number : ∀ i, t.kind = .element i →
    i + hidden pre = element + (before ++ gap).countP Mark.isElement

/-- **Every token of a text has its place.** -/
theorem Layout.exists_placed {base : Nat} {pre post : List Token} {t : Token}
    (h : Layout base element cs (pre ++ t :: post)) :
    ∃ before gap part rest, Placed base element cs pre t before gap part rest := by
  obtain ⟨before, rest, element', rfl, hstop, hcount, hlayout⟩ := h.split (by simp)
  have hsize : ∀ gap : List Char, base + Text.size before + Text.size gap =
      base + Text.size (before ++ gap) := fun gap => by rw [Text.size_append, Nat.add_assoc]
  cases hlayout with
  | @done _ _ gap hgap =>
    refine ⟨before, rest, [], [], by simp, hstop, hgap, ?_, ⟨rfl, rfl⟩, by simp⟩
    rw [hsize]
    rfl
  | @next _ _ gap part rest kind ts hgap htaken hrest =>
    refine ⟨before, gap, part, rest, rfl, hstop, hgap, by rw [hsize], htaken.read, ?_⟩
    intro i hi
    rw [htaken.number i hi, List.countP_append, countP_blanks hgap]
    exact hcount

theorem exists_placed_of_mem {t : Token} (h : t ∈ scan pos element cs) :
    ∃ pre before gap part rest, Placed pos element cs pre t before gap part rest := by
  have hlayout := layout_scan pos element cs
  obtain ⟨pre, post, hsplit⟩ := List.append_of_mem h
  rw [hsplit] at hlayout
  exact ⟨pre, hlayout.exists_placed⟩

/-- **Tokens fit** a text in which the text that they are read from stands. -/
theorem fits_of_scan {line : List Char} (h : Stands line pos cs) :
    ∀ t ∈ scan pos element cs, Fits line t.span := by
  intro t ht
  obtain ⟨pre, before, gap, part, rest, hplaced⟩ := exists_placed_of_mem ht
  rw [hplaced.span]
  exact (h.trans ⟨before ++ gap, rest, by simp [hplaced.text], rfl⟩).fits

/-! ### Spans and slices -/

/-- The text of a span that is counted from `base`. -/
def sliceAt (base : Nat) (cs : List Char) (s : Span) : List Char :=
  Text.slice cs ⟨s.start - base, s.stop - base⟩

theorem sliceAt_eq (base : Nat) {start : Nat} (h : Stands cs pos part) (hstart : start = base + pos) :
    sliceAt base cs ⟨start, start + Text.size part⟩ = part := by
  subst hstart
  rw [sliceAt, Nat.add_assoc, Nat.add_sub_cancel_left, Nat.add_sub_cancel_left]
  exact h.slice_eq

namespace Placed

variable {base : Nat} {pre : List Token} {t : Token} {before gap : List Char}

theorem stands (h : Placed base element cs pre t before gap part rest) :
    Stands cs (Text.size (before ++ gap)) part :=
  ⟨before ++ gap, rest, by simp [h.text], rfl⟩

theorem sliceAt_span (h : Placed base element cs pre t before gap part rest) :
    sliceAt base cs t.span = part := by
  rw [h.span]
  exact sliceAt_eq base h.stands rfl

theorem dropBytes_stop (h : Placed base element cs pre t before gap part rest) :
    Text.dropBytes (t.span.stop - base) cs = rest := by
  have hcs : cs = (before ++ (gap ++ part)) ++ rest := by simp [h.text]
  have hstop : t.span.stop - base = Text.size (before ++ (gap ++ part)) := by
    rw [h.span]
    simp only [Text.size_append]
    omega
  rw [hstop, hcs, Text.dropBytes_append]

theorem sliceAt_gap (h : Placed base element cs pre t before gap part rest) :
    sliceAt base cs ⟨stopOf base pre, t.span.start⟩ = gap := by
  have hstands : Stands cs (Text.size before) gap := ⟨before, part ++ rest, h.text, rfl⟩
  rw [h.stop, h.span, Text.size_append, ← Nat.add_assoc]
  exact sliceAt_eq base hstands rfl

end Placed

/-! ### All tokens of a layout -/

theorem Layout.le_start (h : Layout pos element cs ts) : ∀ t ∈ ts, pos ≤ t.span.start := by
  induction h with
  | done => simp
  | next _ _ _ ih =>
    refine List.forall_mem_cons.2 ⟨Nat.le_add_right _ _, fun t ht => ?_⟩
    have hle := ih t ht
    omega

theorem Taken.size_pos (h : Taken element kind part rest) : 0 < Text.size part :=
  Nat.pos_of_ne_zero fun hzero => h.filled (Text.eq_nil_of_size hzero)

/-- Tokens stand one behind the other. -/
theorem Layout.pairwise (h : Layout pos element cs ts) :
    ts.Pairwise fun t u => t.span.start < u.span.start ∧ t.span.stop ≤ u.span.start := by
  induction h with
  | done => exact List.pairwise_singleton _ _
  | next _ htaken hrest ih =>
    refine List.pairwise_cons.2 ⟨fun u hu => ?_, ih⟩
    have hpos := htaken.size_pos
    have hle := hrest.le_start u hu
    dsimp only
    omega

/-- The end stands at the end of the text, and is the only empty token. -/
theorem Layout.exists_eq_append_eof (h : Layout pos element cs ts) :
    ∃ front, ts = front ++ [⟨.eof, ⟨pos + Text.size cs, pos + Text.size cs⟩⟩] ∧
      ∀ t ∈ front, t.kind ≠ .eof ∧ t.span.start < t.span.stop := by
  induction h with
  | done => exact ⟨[], rfl, by simp⟩
  | @next pos element blanks part rest kind ts _ htaken _ ih =>
    obtain ⟨front, rfl, hfront⟩ := ih
    have hsize : pos + Text.size blanks + Text.size part + Text.size rest =
        pos + Text.size (blanks ++ (part ++ rest)) := by
      simp only [Text.size_append]
      omega
    rw [hsize]
    refine ⟨_ :: front, rfl, List.forall_mem_cons.2 ⟨⟨?_, ?_⟩, hfront⟩⟩
    · rintro rfl
      exact htaken.filled htaken.read.1
    · have hpos := htaken.size_pos
      dsimp only
      omega

/-! ### Putting the text together -/

/-- What stands at the tokens and in the gaps before them, from byte `pos` on. -/
def joined (base : Nat) (cs : List Char) (pos : Nat) : List Token → List Char
  | [] => []
  | t :: ts => sliceAt base cs ⟨pos, t.span.start⟩ ++
      (sliceAt base cs t.span ++ joined base cs t.span.stop ts)

/-- The parts at their spans, from byte `pos` on, with spaces between them. -/
def padded (pos : Nat) : List (Span × List Char) → List Char
  | [] => []
  | (s, part) :: rest => List.replicate (s.start - pos) ' ' ++ (part ++ padded s.stop rest)

/-- A token with the text it was read from. -/
def cut (base : Nat) (cs : List Char) (t : Token) : Span × List Char := (t.span, sliceAt base cs t.span)

section Together

variable {base start : Nat} {blanks : List Char}

/-- **The tokens and the gaps make up the text.** -/
theorem Layout.joined_eq (h : Layout start element rest ts) (hstands : Stands cs pos rest)
    (hstart : start = base + pos) : joined base cs start ts = rest := by
  induction h generalizing pos with
  | @done start element blanks hblanks =>
    have hempty : Stands cs (pos + Text.size blanks) [] :=
      hstands.trans ⟨blanks, [], by simp, rfl⟩
    have hend : sliceAt base cs ⟨start + Text.size blanks, start + Text.size blanks⟩ = [] :=
      sliceAt_eq base hempty (by omega)
    simp only [joined, sliceAt_eq base hstands hstart, hend, List.append_nil]
  | @next start element blanks part rest kind ts hblanks htaken hrest ih =>
    have hpart : sliceAt base cs ⟨start + Text.size blanks,
        start + Text.size blanks + Text.size part⟩ = part :=
      sliceAt_eq base hstands.right.left (by omega)
    have hjoined := ih hstands.right.right (by omega)
    simp only [joined, sliceAt_eq base hstands.left hstart, hpart, hjoined]

theorem size_spaces (n : Nat) : Text.size (List.replicate n ' ') = n := by
  induction n with
  | zero => rfl
  | succ n ih =>
    rw [List.replicate_succ, Text.size_cons, ih, Nat.add_comm]
    rfl

theorem isBlank_of_mem_spaces {n : Nat} : ∀ c ∈ List.replicate n ' ', Text.isBlank c = true := by
  intro c hc
  rw [List.eq_of_mem_replicate hc]
  decide

theorem Layout.spacesOnly {n : Nat} :
    Layout pos element (List.replicate n ' ') [⟨.eof, ⟨pos + n, pos + n⟩⟩] := by
  have hdone : Layout pos element (List.replicate n ' ') _ := .done isBlank_of_mem_spaces
  rwa [size_spaces] at hdone

theorem Layout.spaces {n : Nat} (htaken : Taken element kind part rest)
    (hrest : Layout (pos + n + Text.size part) (nextElement element kind) rest ts) :
    Layout pos element (List.replicate n ' ' ++ (part ++ rest))
      (⟨kind, ⟨pos + n, pos + n + Text.size part⟩⟩ :: ts) := by
  have hsize := size_spaces n
  rw [← hsize] at hrest
  have hnext := Layout.next isBlank_of_mem_spaces htaken hrest
  rwa [hsize] at hnext

/-- What follows a token matters to it only by where a stretch of text ends. -/
theorem Taken.of_rest {rest' : List Char} (h : Taken element kind part rest)
    (hnil : rest = [] → rest' = [])
    (hstart : StartsOff (!isSpecial ·) rest → StartsOff (!isSpecial ·) rest') :
    Taken element kind part rest' := by
  refine ⟨h.filled, ?_, h.number⟩
  have hread := h.read
  cases kind with
  | text s =>
    obtain ⟨hs, htrim, hpart, hhead, hrest⟩ := hread
    exact ⟨hs, htrim, hpart, hhead, hstart hrest⟩
  | unterminated s =>
    obtain ⟨opener, closers, hquote, hpart, hrest, hbody⟩ := hread
    exact ⟨opener, closers, hquote, hpart, hnil hrest, hbody⟩
  | eof => exact absurd hread.1 h.filled
  | quoted s => exact hread
  | element i => exact hread
  | assign => exact hread
  | comma => exact hread
  | parenOpen => exact hread
  | parenClose => exact hread

/-- A stretch of text does not end at a blank. -/
theorem eq_nil_of_startsOff (hblanks : ∀ c ∈ blanks, Text.isBlank c = true)
    (h : StartsOff (!isSpecial ·) (blanks ++ rest)) : blanks = [] := by
  cases blanks with
  | nil => rfl
  | cons c blanks =>
    have hspecial := Text.startsOff_cons.1 h
    rw [not_isSpecial_of_isBlank (hblanks c List.mem_cons_self)] at hspecial
    cases hspecial

/-- **What is put together from the parts has the same tokens.** Spaces stand for the blanks of the
text, and a stretch of text ends where it did. -/
theorem Layout.padded (h : Layout start element rest ts) (hstands : Stands cs pos rest)
    (hstart : start = base + pos) :
    Layout start element (padded start (ts.map (cut base cs))) ts ∧
      (rest = [] → Token.padded start (ts.map (cut base cs)) = []) ∧
      (StartsOff (!isSpecial ·) rest →
        StartsOff (!isSpecial ·) (Token.padded start (ts.map (cut base cs)))) := by
  induction h generalizing pos with
  | @done start element blanks hblanks =>
    have hempty : Stands cs (pos + Text.size blanks) [] :=
      hstands.trans ⟨blanks, [], by simp, rfl⟩
    have hend : sliceAt base cs ⟨start + Text.size blanks, start + Text.size blanks⟩ = [] :=
      sliceAt_eq base hempty (by omega)
    have hpadded : Token.padded start (List.map (cut base cs)
        [⟨.eof, ⟨start + Text.size blanks, start + Text.size blanks⟩⟩]) =
        List.replicate (Text.size blanks) ' ' := by
      simp [Token.padded, cut, hend]
    rw [hpadded]
    refine ⟨?_, ?_, ?_⟩
    · exact .spacesOnly
    · rintro rfl
      rfl
    · intro hoff
      rw [← List.append_nil blanks] at hoff
      rw [eq_nil_of_startsOff hblanks hoff]
      exact Text.startsOff_nil _
  | @next start element blanks part rest kind ts hblanks htaken hrest ih =>
    obtain ⟨hlayout, hnil, hoff⟩ := ih hstands.right.right (by omega)
    have hpart : sliceAt base cs ⟨start + Text.size blanks,
        start + Text.size blanks + Text.size part⟩ = part :=
      sliceAt_eq base hstands.right.left (by omega)
    have hpadded : Token.padded start (List.map (cut base cs) (⟨kind, ⟨start + Text.size blanks,
          start + Text.size blanks + Text.size part⟩⟩ :: ts)) =
        List.replicate (Text.size blanks) ' ' ++ (part ++
          Token.padded (start + Text.size blanks + Text.size part) (ts.map (cut base cs))) := by
      simp [Token.padded, cut, hpart]
    rw [hpadded]
    refine ⟨?_, ?_, ?_⟩
    · exact .spaces (htaken.of_rest hnil hoff) hlayout
    · intro hempty
      exact absurd (List.append_eq_nil_iff.1 (List.append_eq_nil_iff.1 hempty).2).1 htaken.filled
    · intro hoff
      obtain rfl := eq_nil_of_startsOff hblanks hoff
      obtain ⟨c, tail, rfl⟩ := List.exists_cons_of_ne_nil htaken.filled
      exact Text.startsOff_cons.2 (Text.startsOff_cons.1 hoff)

end Together

/-! ### Tokens of a text -/

/-- The tokens tell the text, in which they are counted from `base`, and media from `element`. -/
structure Lossless (base element : Nat) (cs : List Char) (ts : List Token) : Prop where
  /-- The end is told once, by an empty token at the end of the text. -/
  ends : ∃ front, ts = front ++ [⟨.eof, ⟨base + Text.size cs, base + Text.size cs⟩⟩] ∧
    ∀ t ∈ front, t.kind ≠ .eof ∧ t.span.start < t.span.stop
  fits : ∀ t ∈ ts, base ≤ t.span.start ∧ Fits cs ⟨t.span.start - base, t.span.stop - base⟩
  ordered : ts.Pairwise fun t u => t.span.start < u.span.start ∧ t.span.stop ≤ u.span.start
  /-- Between a token and the one before it, or the start of the text, are blanks only. -/
  gaps : ∀ pre t post, ts = pre ++ t :: post →
    ∀ c ∈ sliceAt base cs ⟨stopOf base pre, t.span.start⟩, Text.isBlank c = true
  read : ∀ t ∈ ts, t.kind.ReadFrom (sliceAt base cs t.span) (Text.dropBytes (t.span.stop - base) cs)
  joined : joined base cs base ts = cs
  /-- Spans and slices alone give a text that differs in the kind of blanks in the gaps only, and
  has the same tokens. -/
  rebuilt : tokenize (String.ofList (padded base (ts.map (cut base cs)))) base element = ts

/-- **Tokens lose nothing.** -/
theorem tokenize_lossless (s : String) (base element : Nat) :
    Lossless base element s.toList (tokenize s base element) := by
  have hlayout : Layout base element s.toList (tokenize s base element) := layout_iff.2 rfl
  have hself := Stands.self s.toList
  refine
    { ends := hlayout.exists_eq_append_eof
      fits := fun t ht => ?_
      ordered := hlayout.pairwise
      gaps := fun pre t post hsplit => ?_
      read := fun t ht => ?_
      joined := hlayout.joined_eq hself rfl
      rebuilt := ?_ }
  · obtain ⟨pre, before, gap, part, rest, h⟩ := exists_placed_of_mem ht
    have hfits := h.stands.fits
    rw [h.span]
    refine ⟨Nat.le_add_right _ _, ?_⟩
    simp only [Nat.add_assoc, Nat.add_sub_cancel_left]
    exact hfits
  · rw [hsplit] at hlayout
    obtain ⟨before, gap, part, rest, h⟩ := hlayout.exists_placed
    rw [h.sliceAt_gap]
    exact h.blank
  · obtain ⟨pre, before, gap, part, rest, h⟩ := exists_placed_of_mem ht
    rw [h.sliceAt_span, h.dropBytes_stop]
    exact h.read
  · rw [tokenize, String.toList_ofList]
    exact layout_iff.1 (hlayout.padded hself rfl).1

end Token
end Manuscript
