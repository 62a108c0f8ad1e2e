/-
# The grammar of command lines

A command line is

    blank* (open interior close blank*)+ (end | comment)

where an interior is a sequence of single characters, which neither close a command
nor open a double quote, and of whole quoted strings. A line has at most one such
decomposition (`CommandLine.eq_of_chars`), and it is a command line if it has one:
its segments are the bracketed parts in their order, where they stand.

The commands are read from the interiors, each without a comment mark that disables
it; the line is no command line after all if one of them has no name.

Key definitions: `Mark.doubleClosers?`, `Atom`, `BracketPart`, `CommandLine`,
`CommandLine.Describes`, `CommandLine.placed`, `BracketPart.ReadAs`,
`BracketPart.Nameless`.
Key theorems: `Segment.takeInterior?_eq_some_iff`, `Segment.ofLine?_eq_some_iff`,
`CommandLine.eq_of_chars`, `Bracketed.ofLine_grammar`.
-/
import Manuscript.Line.Bracketed
import Manuscript.Proofs.Text.Boundary
import Manuscript.Proofs.Text.Trim

namespace Manuscript

open Text (StartsOff)

/-! ### Characters -/

namespace Mark

/-- What closes a double quote: straight, curly, corner or double corner. -/
def doubleClosers? : Char → Option (List Char)
  | '"' => some ['"']
  | '“' | '”' | '„' => some ['“', '”']
  | '「' => some ['」']
  | '『' => some ['』']
  | _ => none

theorem hidingClosers?_eq (c : Char) : Segment.hidingClosers? c = doubleClosers? c := by
  unfold doubleClosers?
  split
  case h_7 =>
    unfold Segment.hidingClosers? closers?
    split
    · rfl
    · -- what closes another quote than these is a single quote
      split <;> simp_all [isWeakQuote]
  all_goals rfl

theorem isCommandClose_of_doubleClosers? {c : Char} {closers : List Char}
    (h : doubleClosers? c = some closers) : isCommandClose c = false := by
  unfold doubleClosers? at h
  split at h <;> first | decide | cases h

/-- What holds of all characters of a class holds of a character in it. -/
theorem of_contains {cs : List Char} {p : Char → Bool} (hall : cs.all p = true) {c : Char}
    (h : cs.contains c = true) : p c = true :=
  List.all_eq_true.1 hall c (List.contains_iff_mem.1 h)

theorem not_isBlank_of_isCommandOpen {c : Char} (h : isCommandOpen c = true) :
    Text.isBlank c = false := by
  simpa using of_contains (p := (!Text.isBlank ·)) (by decide) h

theorem not_isBlank_of_isCommentStart {c : Char} (h : isCommentStart c = true) :
    Text.isBlank c = false := by
  simpa using of_contains (p := (!Text.isBlank ·)) (by decide) h

theorem not_isCommandOpen_of_isCommentStart {c : Char} (h : isCommentStart c = true) :
    isCommandOpen c = false := by
  simpa using of_contains (p := (!isCommandOpen ·)) (by decide) h

theorem not_isElement_of_isCommandOpen {c : Char} (h : isCommandOpen c = true) :
    isElement c = false := by
  simpa using of_contains (p := (!isElement ·)) (by decide) h

/-- A quote is split at its first closer. -/
theorem takeQuote?_append {closers : List Char} {close : Char} (rest : List Char)
    (hclose : close ∈ closers) : ∀ {body : List Char}, (∀ c ∈ body, c ∉ closers) →
    takeQuote? closers (body ++ close :: rest) = some (body, close, rest)
  | [], _ => by simp [takeQuote?, hclose]
  | c :: body, h => by
    have hc : c ∉ closers := h c List.mem_cons_self
    have ih := takeQuote?_append rest hclose fun d hd => h d (List.mem_cons_of_mem c hd)
    rw [List.cons_append, takeQuote?, if_neg (by simpa using hc), ih]
    rfl

end Mark

/-! ### Interiors -/

/-- A piece of the text between brackets: one character, or a whole quoted string. -/
inductive Atom where
  | plain (c : Char)
  | quote (opener : Char) (body : List Char) (closer : Char)

namespace Atom

/-- The text of a piece. -/
def chars : Atom → List Char
  | plain c => [c]
  | quote opener body closer => opener :: (body ++ [closer])

/-- A single character neither closes a command nor opens a double quote; a quoted string runs
from such an opener to the first closer of its class. -/
def WellFormed : Atom → Prop
  | plain c => Mark.isCommandClose c = false ∧ Mark.doubleClosers? c = none
  | quote opener body closer => ∃ closers, Mark.doubleClosers? opener = some closers ∧
      closer ∈ closers ∧ ∀ c ∈ body, c ∉ closers

instance : DecidablePred WellFormed
  | plain c => inferInstanceAs
      (Decidable (Mark.isCommandClose c = false ∧ Mark.doubleClosers? c = none))
  | quote opener body closer =>
    let _ (closers : List Char) : Decidable (∀ c ∈ body, c ∉ closers) := List.decidableBAll _ body
    inferInstanceAs (Decidable (∃ closers ∈ Mark.doubleClosers? opener,
      closer ∈ closers ∧ ∀ c ∈ body, c ∉ closers))

/-- Quotes that start with the same opener end at the same closer. -/
theorem quote_inj {closers body body' r r' : List Char} {closer closer' : Char}
    (h : closer ∈ closers) (h' : closer' ∈ closers) (hb : ∀ c ∈ body, c ∉ closers)
    (hb' : ∀ c ∈ body', c ∉ closers) (heq : body ++ closer :: r = body' ++ closer' :: r') :
    body = body' ∧ closer = closer' ∧ r = r' := by
  have hread := Mark.takeQuote?_append r h hb
  rw [heq, Mark.takeQuote?_append r' h' hb'] at hread
  simpa [eq_comm] using hread

/-- Pieces end by themselves: what follows does not matter. -/
theorem inj : ∀ {a b : Atom} {r s : List Char}, a.WellFormed → b.WellFormed →
    a.chars ++ r = b.chars ++ s → a = b ∧ r = s
  | plain c, plain d, r, s, _, _, h => by
    obtain ⟨rfl, rfl⟩ := List.cons_eq_cons.1 h
    exact ⟨rfl, rfl⟩
  | plain c, quote opener body closer, r, s, ha, hb, h => by
    obtain ⟨rfl, -⟩ := List.cons_eq_cons.1 h
    obtain ⟨closers, hopener, -⟩ := hb
    rw [ha.2] at hopener
    cases hopener
  | quote opener body closer, plain d, r, s, ha, hb, h => by
    obtain ⟨rfl, -⟩ := List.cons_eq_cons.1 h
    obtain ⟨closers, hopener, -⟩ := ha
    rw [hb.2] at hopener
    cases hopener
  | quote opener body closer, quote opener' body' closer', r, s, ha, hb, h => by
    simp only [chars, List.cons_append, List.append_assoc, List.nil_append] at h
    obtain ⟨rfl, hrest⟩ := List.cons_eq_cons.1 h
    obtain ⟨closers, hopener, hcloser, hbody⟩ := ha
    obtain ⟨closers', hopener', hcloser', hbody'⟩ := hb
    obtain rfl : closers = closers' := Option.some.inj (hopener.symm.trans hopener')
    obtain ⟨rfl, rfl, rfl⟩ := quote_inj hcloser hcloser' hbody hbody' hrest
    exact ⟨rfl, rfl⟩

/-- No piece starts where a bracket closes. -/
theorem chars_ne {a : Atom} (ha : a.WellFormed) {close : Char} {r s : List Char}
    (hclose : Mark.isCommandClose close = true) : a.chars ++ r ≠ close :: s := by
  intro h
  cases a with
  | plain c =>
    obtain ⟨rfl, -⟩ := List.cons_eq_cons.1 h
    rw [ha.1] at hclose
    cases hclose
  | quote opener body closer =>
    obtain ⟨rfl, -⟩ := List.cons_eq_cons.1 h
    obtain ⟨closers, hopener, -⟩ := ha
    rw [Mark.isCommandClose_of_doubleClosers? hopener] at hclose
    cases hclose

/-- **An interior has one decomposition**, and it ends at the first closing bracket outside
its quotes. -/
theorem eq_of_chars : ∀ {as bs : List Atom} {close close' : Char} {r s : List Char},
    (∀ a ∈ as, a.WellFormed) → (∀ b ∈ bs, b.WellFormed) → Mark.isCommandClose close = true →
    Mark.isCommandClose close' = true →
    as.flatMap chars ++ close :: r = bs.flatMap chars ++ close' :: s →
    as = bs ∧ close = close' ∧ r = s
  | [], [], _, _, _, _, _, _, _, _, h => ⟨rfl, List.cons_eq_cons.1 h⟩
  | [], b :: bs, _, _, _, _, _, hbs, hclose, _, h => by
    rw [List.flatMap_cons, List.append_assoc] at h
    exact absurd h.symm (chars_ne (hbs b List.mem_cons_self) hclose)
  | a :: as, [], _, _, _, _, has, _, _, hclose', h => by
    rw [List.flatMap_cons, List.append_assoc] at h
    exact absurd h (chars_ne (has a List.mem_cons_self) hclose')
  | a :: as, b :: bs, _, _, _, _, has, hbs, hclose, hclose', h => by
    rw [List.flatMap_cons, List.flatMap_cons, List.append_assoc, List.append_assoc] at h
    obtain ⟨rfl, hrest⟩ := inj (has a List.mem_cons_self) (hbs b List.mem_cons_self) h
    obtain ⟨rfl, hend⟩ := eq_of_chars (fun x hx => has x (List.mem_cons_of_mem _ hx))
      (fun x hx => hbs x (List.mem_cons_of_mem _ hx)) hclose hclose' hrest
    exact ⟨rfl, hend⟩

end Atom

namespace Segment

theorem exists_atoms (cs : List Char) : ∀ {body : List Char} {close : Char} {rest : List Char},
    takeInterior? cs = some (body, close, rest) →
    ∃ as : List Atom, (∀ a ∈ as, a.WellFormed) ∧ as.flatMap Atom.chars = body := by
  fun_induction takeInterior? cs with
  | case1 => intro body close rest h; cases h
  | case2 c cs hc =>
    rintro _ _ _ ⟨rfl⟩
    exact ⟨[], by simp, rfl⟩
  | case3 c cs hc hquote ih =>
    intro body close rest h
    obtain ⟨⟨b, k, r⟩, hin, ⟨rfl⟩⟩ := Option.map_eq_some_iff.1 h
    obtain ⟨as, has, rfl⟩ := ih hin
    rw [Mark.hidingClosers?_eq] at hquote
    have hplain : (Atom.plain c).WellFormed := ⟨by simpa using hc, hquote⟩
    exact ⟨.plain c :: as, List.forall_mem_cons.2 ⟨hplain, has⟩, rfl⟩
  | case4 => intro body close rest h; cases h
  | case5 c cs hc closers hquote quote mark after htake ih =>
    intro body close rest h
    obtain ⟨⟨b, k, r⟩, hin, ⟨rfl⟩⟩ := Option.map_eq_some_iff.1 h
    obtain ⟨as, has, rfl⟩ := ih hin
    rw [Mark.hidingClosers?_eq] at hquote
    obtain ⟨-, hmark, hbody⟩ := Mark.takeQuote?_eq_some htake
    have hwhole : (Atom.quote c quote mark).WellFormed := ⟨closers, hquote, hmark, hbody⟩
    exact ⟨.quote c quote mark :: as, List.forall_mem_cons.2 ⟨hwhole, has⟩, by simp [Atom.chars]⟩

theorem takeInterior?_append {close : Char} (rest : List Char)
    (hclose : Mark.isCommandClose close = true) : ∀ {as : List Atom}, (∀ a ∈ as, a.WellFormed) →
    takeInterior? (as.flatMap Atom.chars ++ close :: rest) =
      some (as.flatMap Atom.chars, close, rest)
  | [], _ => by
    rw [List.flatMap_nil, List.nil_append, takeInterior?, if_pos hclose]
  | .plain c :: as, h => by
    obtain ⟨hc, hquote⟩ := h _ List.mem_cons_self
    have ih := takeInterior?_append rest hclose fun a ha => h a (List.mem_cons_of_mem _ ha)
    rw [List.flatMap_cons, Atom.chars, List.singleton_append, List.cons_append, takeInterior?,
      if_neg (by simp [hc]), Mark.hidingClosers?_eq, hquote, ih]
    rfl
  | .quote opener body closer :: as, h => by
    obtain ⟨closers, hopener, hcloser, hbody⟩ := h _ List.mem_cons_self
    have ih := takeInterior?_append rest hclose fun a ha => h a (List.mem_cons_of_mem _ ha)
    have hopen := Mark.isCommandClose_of_doubleClosers? hopener
    have hchars : (Atom.quote opener body closer :: as).flatMap Atom.chars =
        opener :: (body ++ closer :: as.flatMap Atom.chars) := by simp [Atom.chars]
    have htake := Mark.takeQuote?_append (as.flatMap Atom.chars ++ close :: rest) hcloser hbody
    rw [hchars, List.cons_append, List.append_assoc, List.cons_append, takeInterior?,
      if_neg (by simp [hopen]), Mark.hidingClosers?_eq, hopener]
    dsimp only
    split
    · rename_i hnone
      rw [htake] at hnone
      cases hnone
    · rename_i quote mark after hsome
      rw [htake] at hsome
      cases hsome
      rw [ih]
      rfl

/-- What stands between brackets is a sequence of pieces, up to a closing bracket. -/
theorem takeInterior?_eq_some_iff {cs body rest : List Char} {close : Char} :
    takeInterior? cs = some (body, close, rest) ↔ ∃ as : List Atom, (∀ a ∈ as, a.WellFormed) ∧
      as.flatMap Atom.chars = body ∧ Mark.isCommandClose close = true ∧ cs = body ++ close :: rest := by
  constructor
  · intro h
    obtain ⟨hcs, hclose⟩ := takeInterior?_eq_some cs h
    obtain ⟨as, has, hbody⟩ := exists_atoms cs h
    exact ⟨as, has, hbody, hclose, hcs⟩
  · rintro ⟨as, has, rfl, hclose, rfl⟩
    exact takeInterior?_append rest hclose has

end Segment

/-! ### Lines -/

/-- A bracketed part of a line, with the blanks behind it. -/
structure BracketPart where
  opener : Char
  atoms : List Atom
  closer : Char
  blanks : List Char

namespace BracketPart

/-- The text between the brackets. -/
def interior (p : BracketPart) : List Char := p.atoms.flatMap Atom.chars

/-- The text from bracket to bracket. -/
def bracketed (p : BracketPart) : List Char := p.opener :: (p.interior ++ [p.closer])

/-- The whole text of the part. -/
def chars (p : BracketPart) : List Char := p.bracketed ++ p.blanks

/-- Any command brackets around any interior. -/
structure WellFormed (p : BracketPart) : Prop where
  opens : Mark.isCommandOpen p.opener = true
  atoms : ∀ a ∈ p.atoms, a.WellFormed
  closes : Mark.isCommandClose p.closer = true
  blanks : ∀ c ∈ p.blanks, Text.isBlank c = true

theorem chars_append (p : BracketPart) (r : List Char) :
    p.chars ++ r = p.opener :: (p.interior ++ p.closer :: (p.blanks ++ r)) := by
  simp [chars, bracketed]

end BracketPart

/-- The line ends here, or a comment starts. -/
def EndsLine (tail : List Char) : Prop :=
  tail = [] ∨ ∃ c rest, tail = c :: rest ∧ Mark.isCommentStart c = true

/-- A command line in its parts: blanks, bracketed parts, and the end or a comment. -/
structure CommandLine where
  lead : List Char
  parts : List BracketPart
  tail : List Char

namespace CommandLine

/-- The text of a line. -/
def chars (d : CommandLine) : List Char := d.lead ++ (d.parts.flatMap BracketPart.chars ++ d.tail)

structure WellFormed (d : CommandLine) : Prop where
  lead : ∀ c ∈ d.lead, Text.isBlank c = true
  nonempty : d.parts ≠ []
  parts : ∀ p ∈ d.parts, p.WellFormed
  tail : EndsLine d.tail

/-- The text decomposes like this. -/
def Describes (d : CommandLine) (line : List Char) : Prop := d.WellFormed ∧ d.chars = line

/-- Parts, each with the text of the line before it. -/
def placedFrom (before : List Char) : List BracketPart → List (List Char × BracketPart)
  | [] => []
  | p :: ps => (before, p) :: placedFrom (before ++ p.chars) ps

/-- The parts of a line, each with the text of the line before it. -/
def placed (d : CommandLine) : List (List Char × BracketPart) := placedFrom d.lead d.parts

end CommandLine

theorem EndsLine.startsOff_blank {tail : List Char} (h : EndsLine tail) :
    StartsOff Text.isBlank tail := by
  rcases h with rfl | ⟨c, rest, rfl, hc⟩
  · exact Text.startsOff_nil _
  · exact Text.startsOff_cons.2 (Mark.not_isBlank_of_isCommentStart hc)

/-- Behind the blanks of a part no blank follows: a bracket opens, or the line ends. -/
theorem startsOff_parts {ps : List BracketPart} {tail : List Char}
    (hps : ∀ p ∈ ps, p.WellFormed) (htail : EndsLine tail) :
    StartsOff Text.isBlank (ps.flatMap BracketPart.chars ++ tail) := by
  cases ps with
  | nil => exact htail.startsOff_blank
  | cons p ps =>
    rw [List.flatMap_cons, List.append_assoc, p.chars_append]
    exact Text.startsOff_cons.2 (Mark.not_isBlank_of_isCommandOpen (hps p List.mem_cons_self).opens)

/-- No bracket opens where a line ends. -/
theorem EndsLine.ne_chars_append {tail r : List Char} (h : EndsLine tail) {p : BracketPart}
    (hp : p.WellFormed) : tail ≠ p.chars ++ r := by
  rintro rfl
  have hopens := hp.opens
  rw [p.chars_append] at h
  rcases h with hnil | ⟨c, rest, hcons, hc⟩
  · cases hnil
  · obtain ⟨rfl, -⟩ := List.cons_eq_cons.1 hcons
    rw [Mark.not_isCommandOpen_of_isCommentStart hc] at hopens
    cases hopens

theorem eq_of_parts : ∀ {ps qs : List BracketPart} {tail tail' : List Char},
    (∀ p ∈ ps, p.WellFormed) → (∀ q ∈ qs, q.WellFormed) → EndsLine tail → EndsLine tail' →
    ps.flatMap BracketPart.chars ++ tail = qs.flatMap BracketPart.chars ++ tail' →
    ps = qs ∧ tail = tail'
  | [], [], _, _, _, _, _, _, h => ⟨rfl, h⟩
  | [], q :: qs, _, _, _, hqs, htail, _, h => by
    rw [List.flatMap_cons, List.append_assoc] at h
    exact absurd h (htail.ne_chars_append (hqs q List.mem_cons_self))
  | p :: ps, [], _, _, hps, _, _, htail', h => by
    rw [List.flatMap_cons, List.append_assoc] at h
    exact absurd h.symm (htail'.ne_chars_append (hps p List.mem_cons_self))
  | p :: ps, q :: qs, tail, tail', hps, hqs, htail, htail', h => by
    obtain ⟨hp, hps⟩ := List.forall_mem_cons.1 hps
    obtain ⟨hq, hqs⟩ := List.forall_mem_cons.1 hqs
    rw [List.flatMap_cons, List.flatMap_cons, List.append_assoc, List.append_assoc, p.chars_append,
      q.chars_append] at h
    obtain ⟨hopener, hinside⟩ := List.cons_eq_cons.1 h
    obtain ⟨hatoms, hcloser, hbehind⟩ :=
      Atom.eq_of_chars hp.atoms hq.atoms hp.closes hq.closes hinside
    obtain ⟨hblanks, hrest⟩ := Text.append_inj_of_startsOff hp.blanks hq.blanks
      (startsOff_parts hps htail) (startsOff_parts hqs htail') hbehind
    obtain ⟨rfl, rfl⟩ := eq_of_parts hps hqs htail htail' hrest
    obtain rfl : p = q := by
      cases p
      cases q
      simp_all
    exact ⟨rfl, rfl⟩

/-- **A line has one decomposition.** -/
theorem CommandLine.eq_of_chars {d e : CommandLine} (hd : d.WellFormed) (he : e.WellFormed)
    (h : d.chars = e.chars) : d = e := by
  obtain ⟨hlead, hrest⟩ := Text.append_inj_of_startsOff hd.lead he.lead
    (startsOff_parts hd.parts hd.tail) (startsOff_parts he.parts he.tail) h
  obtain ⟨hparts, htail⟩ := eq_of_parts hd.parts he.parts hd.tail he.tail hrest
  cases d
  cases e
  simp_all

/-! ### Segments -/

/-- The segment of a part behind the text `before`. -/
def BracketPart.segment (before : List Char) (p : BracketPart) : Segment :=
  ⟨⟨Text.size before, Text.size before + Text.size p.bracketed⟩,
    Text.size before + p.opener.utf8Size, p.interior⟩

namespace Segment

open CommandLine (placedFrom)

/-- One step of the scan: it takes a part off the front, and goes on where a bracket opens. -/
theorem scan_append (before : List Char) {p : BracketPart} (hp : p.WellFormed) {r : List Char}
    (hr : StartsOff Text.isBlank r) :
    scan (Text.size before) (p.chars ++ r) =
      match r.head? with
      | none => some [p.segment before]
      | some d =>
        if Mark.isCommandOpen d then
          (scan (Text.size (before ++ p.chars)) r).map (p.segment before :: ·)
        else if Mark.isCommentStart d then some [p.segment before]
        else none := by
  have hin : takeInterior? (p.interior ++ p.closer :: (p.blanks ++ r)) =
      some (p.interior, p.closer, p.blanks ++ r) := takeInterior?_append _ hp.closes hp.atoms
  have htrim : Text.trimStart (p.blanks ++ r) = r := Text.dropWhile_append_of_startsOff hp.blanks hr
  have hstop : Text.size before + p.opener.utf8Size + Text.size p.interior + p.closer.utf8Size =
      Text.size before + Text.size p.bracketed := by
    simp [BracketPart.bracketed]
    omega
  have hnext : Text.size before + Text.size p.bracketed +
      (Text.size (p.blanks ++ r) - Text.size r) = Text.size (before ++ p.chars) := by
    simp [BracketPart.chars]
    omega
  rw [p.chars_append, scan, if_pos hp.opens]
  split
  · rename_i hnone
    rw [hin] at hnone
    cases hnone
  · rename_i interior close rest hsome
    rw [hin] at hsome
    cases hsome
    simp only [htrim, hstop, hnext]
    rfl

theorem scan_placedFrom : ∀ {ps : List BracketPart} (before : List Char) {tail : List Char},
    ps ≠ [] → (∀ p ∈ ps, p.WellFormed) → EndsLine tail →
    scan (Text.size before) (ps.flatMap BracketPart.chars ++ tail) =
      some ((placedFrom before ps).map fun e => e.2.segment e.1)
  | [], _, _, hne, _, _ => absurd rfl hne
  | [p], before, tail, _, hps, htail => by
    have hp : p.WellFormed := hps p List.mem_cons_self
    rw [List.flatMap_cons, List.flatMap_nil, List.append_nil, scan_append before hp htail.startsOff_blank]
    rcases htail with rfl | ⟨c, rest, rfl, hc⟩
    · rfl
    · simp [Mark.not_isCommandOpen_of_isCommentStart hc, hc, placedFrom]
  | p :: q :: ps, before, tail, _, hps, htail => by
    obtain ⟨hp, hps⟩ := List.forall_mem_cons.1 hps
    have hq : Mark.isCommandOpen q.opener = true := (hps q List.mem_cons_self).opens
    have ih := scan_placedFrom (before ++ p.chars) (List.cons_ne_nil q ps) hps htail
    have hhead : ((q :: ps).flatMap BracketPart.chars ++ tail).head? = some q.opener := by
      rw [List.flatMap_cons, List.append_assoc, q.chars_append, List.head?_cons]
    rw [List.flatMap_cons, List.append_assoc, scan_append before hp (startsOff_parts hps htail), hhead]
    simp only [hq, if_true, ih, Option.map_some]
    rfl

/-- A bracket, an interior, its closing bracket and the blanks behind it are a part. -/
theorem exists_part {c close : Char} {cs interior rest : List Char}
    (hc : Mark.isCommandOpen c = true) (hin : takeInterior? cs = some (interior, close, rest)) :
    ∃ p : BracketPart, p.WellFormed ∧ c :: cs = p.chars ++ Text.trimStart rest := by
  obtain ⟨as, has, rfl, hclose, rfl⟩ := takeInterior?_eq_some_iff.1 hin
  refine ⟨⟨c, as, close, rest.takeWhile Text.isBlank⟩, ⟨hc, has, hclose, ?_⟩, ?_⟩
  · intro d hd
    exact List.mem_takeWhile_imp hd
  · rw [BracketPart.chars_append, Text.takeWhile_append_trimStart]
    rfl

theorem exists_parts_of_scan (pos : Nat) (cs : List Char) : ∀ {segments : List Segment},
    scan pos cs = some segments → ∃ (ps : List BracketPart) (tail : List Char), ps ≠ [] ∧
      (∀ p ∈ ps, p.WellFormed) ∧ EndsLine tail ∧ cs = ps.flatMap BracketPart.chars ++ tail := by
  fun_induction scan pos cs with
  | case1 => intro segments h; cases h
  | case2 => intro segments h; cases h
  | case3 pos c cs hc interior close rest hin =>
    rename_i next hhead
    rintro _ ⟨rfl⟩
    obtain ⟨p, hp, hcs⟩ := exists_part hc hin
    refine ⟨[p], next, List.cons_ne_nil p [], by simpa using hp, ?_, by simpa using hcs⟩
    exact .inl (List.head?_eq_none_iff.1 hhead)
  | case4 pos c cs hc interior close rest hin =>
    rename_i ih
    intro segments h
    obtain ⟨more, hmore, -⟩ := Option.map_eq_some_iff.1 h
    obtain ⟨p, hp, hcs⟩ := exists_part hc hin
    obtain ⟨ps, tail, -, hps, htail, hnext⟩ := ih hmore
    refine ⟨p :: ps, tail, List.cons_ne_nil p ps, List.forall_mem_cons.2 ⟨hp, hps⟩, htail, ?_⟩
    rw [List.flatMap_cons, List.append_assoc, ← hnext, hcs]
  | case5 pos c cs hc interior close rest hin =>
    rename_i next d hhead _ hd
    rintro _ ⟨rfl⟩
    obtain ⟨p, hp, hcs⟩ := exists_part hc hin
    refine ⟨[p], next, List.cons_ne_nil p [], by simpa using hp, ?_, by simpa using hcs⟩
    obtain ⟨more, hnext⟩ := List.head?_eq_some_iff.1 hhead
    exact .inr ⟨d, more, hnext, hd⟩
  | case6 => intro segments h; cases h
  | case7 => intro segments h; cases h

/-- **The segments of a line are its parts, where they stand.** -/
theorem ofLine?_eq_some_iff {line : List Char} {segments : List Segment} :
    ofLine? line = some segments ↔ ∃ d : CommandLine, d.Describes line ∧
      segments = d.placed.map fun e => e.2.segment e.1 := by
  have hlead : Text.size line - Text.size (Text.trimStart line) =
      Text.size (line.takeWhile Text.isBlank) := by
    have hsplit := congrArg Text.size (Text.takeWhile_append_trimStart line)
    rw [Text.size_append] at hsplit
    omega
  constructor
  · intro h
    obtain ⟨ps, tail, hne, hps, htail, hcs⟩ := exists_parts_of_scan _ _ h
    rw [ofLine?, hlead, hcs, scan_placedFrom _ hne hps htail, Option.some.injEq] at h
    refine ⟨⟨line.takeWhile Text.isBlank, ps, tail⟩, ⟨⟨?_, hne, hps, htail⟩, ?_⟩, h.symm⟩
    · intro c hc
      exact List.mem_takeWhile_imp hc
    · rw [CommandLine.chars, ← hcs, Text.takeWhile_append_trimStart]
  · rintro ⟨d, ⟨hd, rfl⟩, rfl⟩
    have hstart := startsOff_parts hd.parts hd.tail
    have htrim : Text.trimStart d.chars = d.parts.flatMap BracketPart.chars ++ d.tail :=
      Text.dropWhile_append_of_startsOff hd.lead hstart
    have htake : d.chars.takeWhile Text.isBlank = d.lead :=
      Text.takeWhile_append_of_startsOff hd.lead hstart
    rw [ofLine?, hlead, htake, htrim]
    exact scan_placedFrom d.lead hd.nonempty hd.parts hd.tail

end Segment

/-! ### Commands -/

/-- The interior starts, behind blanks, with a comment mark that `rest` follows. -/
def Disables (interior rest : List Char) : Prop :=
  ∃ blanks mark, interior = blanks ++ mark :: rest ∧ (∀ c ∈ blanks, Text.isBlank c = true) ∧
    Mark.isCommentStart mark = true

/-- What a command is read from: the interior without the mark that disables it, or the whole
interior if there is none. -/
def Handed (interior handed : List Char) : Bool → Prop
  | true => Disables interior handed
  | false => handed = interior ∧ ∀ rest, ¬ Disables interior rest

/-- The first character that is no blank starts no name: it ends one, or opens a quote. -/
def Command.NoName (cs : List Char) : Prop :=
  ∀ c ∈ (Text.trimStart cs).head?, Command.endsName c = true ∨ (Mark.closers? c).isSome = true

namespace BracketPart

/-- The place of a part behind the text `before`: from bracket to bracket. -/
def loc (block : Nat) (before : List Char) (p : BracketPart) : Loc :=
  ⟨block, Text.size before, Text.size before + Text.size p.bracketed⟩

/-- The command and the diagnostics of a part behind the text `before`. -/
def ReadAs (block : Nat) (before : List Char) (p : BracketPart)
    (r : Command × List Diagnostic) : Prop :=
  ∃ handed disabled command, Handed p.interior handed disabled ∧
    Command.parse? (String.ofList handed) (p.loc block before) (before.countP Mark.isElement) =
      some (command, r.2) ∧
    r.1 = { command with disabled } ∧ r.1.loc = p.loc block before

/-- What the command of a part would be read from has no name. -/
def Nameless (p : BracketPart) : Prop :=
  ∃ handed disabled, Handed p.interior handed disabled ∧ Command.NoName handed

end BracketPart

namespace Segment

theorem disables_iff {interior rest : List Char} : Disables interior rest ↔
    ∃ mark, Text.trimStart interior = mark :: rest ∧ Mark.isCommentStart mark = true := by
  constructor
  · rintro ⟨blanks, mark, rfl, hblanks, hmark⟩
    have hstart : StartsOff Text.isBlank (mark :: rest) :=
      Text.startsOff_cons.2 (Mark.not_isBlank_of_isCommentStart hmark)
    exact ⟨mark, Text.dropWhile_append_of_startsOff hblanks hstart, hmark⟩
  · rintro ⟨mark, htrim, hmark⟩
    refine ⟨interior.takeWhile Text.isBlank, mark, ?_, fun c hc => List.mem_takeWhile_imp hc, hmark⟩
    rw [← htrim, Text.takeWhile_append_trimStart]

theorem handed_enabling (interior : List Char) :
    Handed interior (enabling interior).1 (enabling interior).2 := by
  unfold enabling
  split
  · rename_i c rest htrim
    split
    · rename_i hc
      exact disables_iff.2 ⟨c, htrim, hc⟩
    · rename_i hc
      refine ⟨rfl, fun rest' h => hc ?_⟩
      obtain ⟨mark, hmark, hcomment⟩ := disables_iff.1 h
      obtain ⟨rfl, -⟩ := List.cons_eq_cons.1 (htrim.symm.trans hmark)
      exact hcomment
  · rename_i htrim
    refine ⟨rfl, fun rest' h => ?_⟩
    obtain ⟨mark, hmark, -⟩ := disables_iff.1 h
    rw [htrim] at hmark
    cases hmark

theorem eq_enabling_of_handed {interior handed : List Char} {disabled : Bool}
    (h : Handed interior handed disabled) : enabling interior = (handed, disabled) := by
  cases disabled with
  | true =>
    obtain ⟨mark, htrim, hmark⟩ := disables_iff.1 h
    rw [enabling, htrim]
    exact if_pos hmark
  | false =>
    obtain ⟨rfl, hnone⟩ := h
    unfold enabling
    split
    · rename_i c rest htrim
      rw [if_neg]
      exact fun hc => hnone rest (disables_iff.2 ⟨c, htrim, hc⟩)
    · rfl

end Segment

namespace Command

theorem takeName?_eq_none_iff {cs : List Char} : takeName? cs = none ↔ NoName cs := by
  unfold takeName? NoName
  cases htrim : Text.trimStart cs with
  | nil => simp
  | cons c rest =>
    by_cases hc : endsName c = true
    · simp [hc]
    · simp [hc, Option.isSome_iff_ne_none]

theorem parse?_eq_none_iff {interior : String} {loc : Loc} {element : Nat} :
    parse? interior loc element = none ↔ NoName interior.toList := by
  rw [← takeName?_eq_none_iff]
  unfold parse?
  cases takeName? interior.toList with
  | none => simp
  | some r =>
    simp only [Option.bind_eq_bind, Option.bind_some, reduceCtorEq, iff_false]
    split <;> simp

/-- A command knows its place. -/
theorem loc_of_parse? {interior : String} {loc : Loc} {element : Nat} {c : Command}
    {ds : List Diagnostic} (h : parse? interior loc element = some (c, ds)) : c.loc = loc := by
  obtain ⟨⟨name, rest⟩, -, h⟩ := Option.bind_eq_some_iff.1 h
  dsimp only at h
  split at h <;> cases h <;> rfl

/-- The arguments of a command are read from the tokens of what follows its name. -/
theorem exists_of_parse? {interior : String} {loc : Loc} {element : Nat} {c : Command}
    {ds : List Diagnostic} (h : parse? interior loc element = some (c, ds)) :
    ∃ name rest base, takeName? interior.toList = some (name, rest) ∧
      c.args = (Arguments.parse false (Token.scan base element rest)).1 := by
  obtain ⟨⟨name, rest⟩, hname, h⟩ := Option.bind_eq_some_iff.1 h
  dsimp only at h
  refine ⟨name, rest, Text.size interior.toList - Text.size rest, hname, ?_⟩
  split at h <;> cases h <;> rfl

end Command

namespace BracketPart

variable {before after : List Char} {p : BracketPart} (block : Nat)

/-- The media before a part are those before its interior: its bracket is none. -/
theorem firstElement_segment (hp : p.WellFormed) :
    (p.segment before).firstElement (before ++ (p.chars ++ after)) =
      before.countP Mark.isElement := by
  have hstart : (p.segment before).start = Text.size (before ++ [p.opener]) := by simp [segment]
  have hline : before ++ (p.chars ++ after) =
      (before ++ [p.opener]) ++ (p.interior ++ p.closer :: (p.blanks ++ after)) := by
    rw [p.chars_append, List.append_assoc, List.singleton_append]
  rw [Segment.firstElement, hstart, hline, Text.takeBytes_append, List.countP_append]
  simp [Mark.not_isElement_of_isCommandOpen hp.opens]

theorem nameless_iff : p.Nameless ↔ Command.NoName (Segment.enabling p.interior).1 := by
  constructor
  · rintro ⟨handed, disabled, hhanded, hname⟩
    rwa [Segment.eq_enabling_of_handed hhanded]
  · exact fun h => ⟨_, _, Segment.handed_enabling p.interior, h⟩

theorem command?_segment_eq_none_iff (line : List Char) :
    (p.segment before).command? line block = none ↔ p.Nameless := by
  rw [Segment.command?, Option.map_eq_none_iff, Command.parse?_eq_none_iff, String.toList_ofList,
    nameless_iff]
  rfl

theorem command?_segment_eq_some_iff (hp : p.WellFormed) {r : Command × List Diagnostic} :
    (p.segment before).command? (before ++ (p.chars ++ after)) block = some r ↔
      p.ReadAs block before r := by
  rw [Segment.command?, Option.map_eq_some_iff, firstElement_segment hp]
  constructor
  · rintro ⟨⟨command, ds⟩, hparse, rfl⟩
    have hloc : command.loc = p.loc block before := Command.loc_of_parse? hparse
    exact ⟨_, _, command, Segment.handed_enabling p.interior, hparse, rfl, hloc⟩
  · rintro ⟨handed, disabled, command, hhanded, hparse, hr, -⟩
    refine ⟨(command, r.2), ?_, ?_⟩
    · show Command.parse? (String.ofList (Segment.enabling p.interior).1) _ _ = _
      rw [Segment.eq_enabling_of_handed hhanded]
      exact hparse
    · show ({ command with disabled := (Segment.enabling p.interior).2 }, r.2) = r
      rw [Segment.eq_enabling_of_handed hhanded, ← hr]

end BracketPart

namespace CommandLine

theorem exists_of_mem_placedFrom : ∀ {ps : List BracketPart} {before : List Char}
    {e : List Char × BracketPart}, e ∈ placedFrom before ps → e.2 ∈ ps ∧ ∃ after,
      before ++ ps.flatMap BracketPart.chars = e.1 ++ (e.2.chars ++ after)
  | p :: ps, before, e, h => by
    rcases List.mem_cons.1 h with rfl | h
    · exact ⟨List.mem_cons_self, ps.flatMap BracketPart.chars, rfl⟩
    · obtain ⟨hmem, after, hafter⟩ := exists_of_mem_placedFrom h
      refine ⟨List.mem_cons_of_mem p hmem, after, ?_⟩
      rw [← hafter, List.flatMap_cons, List.append_assoc]

theorem map_snd_placedFrom : ∀ (before : List Char) (ps : List BracketPart),
    (placedFrom before ps).map Prod.snd = ps
  | _, [] => rfl
  | before, p :: ps => by rw [placedFrom, List.map_cons, map_snd_placedFrom]

/-- A part with the text before it and the text behind it is the line. -/
theorem exists_of_mem_placed {d : CommandLine} {e : List Char × BracketPart} (h : e ∈ d.placed) :
    e.2 ∈ d.parts ∧ ∃ after, d.chars = e.1 ++ (e.2.chars ++ after) := by
  obtain ⟨hmem, after, hafter⟩ := exists_of_mem_placedFrom h
  refine ⟨hmem, after ++ d.tail, ?_⟩
  rw [chars, ← List.append_assoc, hafter]
  simp

end CommandLine

/-- Where every element has a partner there is a list of partners. -/
theorem exists_forall₂ {α β : Type} {R : α → β → Prop} : ∀ {xs : List α},
    (∀ x ∈ xs, ∃ y, R x y) → ∃ ys, List.Forall₂ R xs ys
  | [], _ => ⟨[], .nil⟩
  | x :: xs, h => by
    obtain ⟨⟨y, hy⟩, hxs⟩ := List.forall_mem_cons.1 h
    obtain ⟨ys, hys⟩ := exists_forall₂ hxs
    exact ⟨y :: ys, .cons hy hys⟩

namespace Bracketed

variable (line : List Char) (block : Nat)

theorem ofSegments_ne_absent : ∀ segments : List Segment, ofSegments line block segments ≠ .absent
  | [] => by simp [ofSegments]
  | s :: rest => by
    have ih := ofSegments_ne_absent rest
    rw [ofSegments]
    split
    · simp
    · split
      · simp
      · exact ih

theorem ofSegments_of_forall₂ {segments : List Segment} {each : List (Command × List Diagnostic)}
    (h : List.Forall₂ (fun s r => s.command? line block = some r) segments each) :
    ofSegments line block segments = .commands (each.map (·.1)) (each.flatMap (·.2)) := by
  induction h with
  | nil => rfl
  | cons hfirst _ ih => rw [ofSegments, hfirst]; simp [ih]

theorem ofSegments_nameless_of_mem {segments : List Segment} {s : Segment} (hs : s ∈ segments)
    (h : s.command? line block = none) :
    ∃ diag, ofSegments line block segments = .nameless diag := by
  induction segments with
  | nil => cases hs
  | cons t rest ih =>
    rw [ofSegments]
    cases ht : t.command? line block with
    | none => exact ⟨_, rfl⟩
    | some r =>
      have hrest : s ∈ rest := by
        rcases List.mem_cons.1 hs with rfl | hrest
        · rw [h] at ht
          cases ht
        · exact hrest
      obtain ⟨diag, hdiag⟩ := ih hrest
      exact ⟨diag, by rw [hdiag]⟩

/-- The commands of a line are those of its segments. -/
theorem exists_of_mem_commands {line : List Char} {block : Nat} : ∀ {segments : List Segment}
    {cs : List Command} {ds : List Diagnostic}, ofSegments line block segments = .commands cs ds →
    ∀ c ∈ cs, ∃ s ∈ segments, ∃ es, s.command? line block = some (c, es)
  | [], _, _, h => by
    cases h
    simp
  | s :: segments, cs, ds, h => by
    rw [ofSegments] at h
    split at h
    · cases h
    · rename_i first es hfirst
      split at h
      · rename_i rest more hrest
        cases h
        refine List.forall_mem_cons.2 ⟨⟨s, List.mem_cons_self, es, hfirst⟩, fun c hc => ?_⟩
        obtain ⟨t, ht, hcommand⟩ := exists_of_mem_commands hrest c hc
        exact ⟨t, List.mem_cons_of_mem s ht, hcommand⟩
      · rename_i hother
        exact absurd h (hother cs ds)

/-- Each part of a line has no name or a command. -/
theorem nameless_or_exists_readAs {d : CommandLine} (hd : d.WellFormed)
    {e : List Char × BracketPart} (he : e ∈ d.placed) :
    e.2.Nameless ∨ ∃ r, e.2.ReadAs block e.1 r ∧
      (e.2.segment e.1).command? d.chars block = some r := by
  obtain ⟨hmem, after, hchars⟩ := CommandLine.exists_of_mem_placed he
  cases hread : (e.2.segment e.1).command? d.chars block with
  | none => exact .inl ((e.2.command?_segment_eq_none_iff block _).1 hread)
  | some r =>
    have hr := hread
    rw [hchars, e.2.command?_segment_eq_some_iff block (hd.parts e.2 hmem)] at hr
    exact .inr ⟨r, hr, rfl⟩

/-- If no part is nameless, the commands of a line are those of its parts. -/
theorem exists_ofSegments_eq_commands {d : CommandLine} (hd : d.WellFormed)
    (hnames : ∀ p ∈ d.parts, ¬ p.Nameless) : ∃ each : List (Command × List Diagnostic),
      List.Forall₂ (fun e r => e.2.ReadAs block e.1 r) d.placed each ∧
      ofSegments d.chars block (d.placed.map fun e => e.2.segment e.1) =
        .commands (each.map (·.1)) (each.flatMap (·.2)) := by
  have hread : ∀ e ∈ d.placed, ∃ r, e.2.ReadAs block e.1 r ∧
      (e.2.segment e.1).command? d.chars block = some r := by
    intro e he
    have hmem := (CommandLine.exists_of_mem_placed he).1
    exact (nameless_or_exists_readAs block hd he).resolve_left (hnames e.2 hmem)
  obtain ⟨each, heach⟩ := exists_forall₂ hread
  refine ⟨each, heach.imp fun _ _ h => h.1, ofSegments_of_forall₂ _ _ ?_⟩
  rw [List.forall₂_map_left_iff]
  exact heach.imp fun _ _ h => h.2

/-- **A line is a command line exactly if it decomposes like one.** The decomposition is unique;
the line is refused for want of a name exactly if one of the parts has none; and otherwise the
commands are those of the parts in their order, each read from its interior without the mark
that disables it, and placed from bracket to bracket. -/
theorem ofLine_grammar (text : String) (block : Nat) :
    (ofLine text block ≠ .absent ↔ ∃ d : CommandLine, d.Describes text.toList) ∧
    (∀ d e : CommandLine, d.Describes text.toList → e.Describes text.toList → d = e) ∧
    ∀ d : CommandLine, d.Describes text.toList →
      ((∃ diag, ofLine text block = .nameless diag) ↔ ∃ p ∈ d.parts, p.Nameless) ∧
      ((∀ p ∈ d.parts, ¬ p.Nameless) → ∃ each : List (Command × List Diagnostic),
        List.Forall₂ (fun e r => e.2.ReadAs block e.1 r) d.placed each ∧
        ofLine text block = .commands (each.map (·.1)) (each.flatMap (·.2))) := by
  have hsome : ∀ d : CommandLine, d.Describes text.toList → ofLine text block =
      ofSegments d.chars block (d.placed.map fun e => e.2.segment e.1) := by
    intro d hd
    rw [ofLine, Segment.ofLine?_eq_some_iff.2 ⟨d, hd, rfl⟩, hd.2]
  refine ⟨⟨?_, ?_⟩, fun d e hd he => CommandLine.eq_of_chars hd.1 he.1 (hd.2.trans he.2.symm), ?_⟩
  · intro h
    rw [ofLine] at h
    split at h
    · exact absurd rfl h
    · rename_i segments hline
      obtain ⟨d, hd, -⟩ := Segment.ofLine?_eq_some_iff.1 hline
      exact ⟨d, hd⟩
  · rintro ⟨d, hd⟩
    rw [hsome d hd]
    exact ofSegments_ne_absent _ _ _
  · intro d hd
    rw [hsome d hd]
    have hread := exists_ofSegments_eq_commands block hd.1
    refine ⟨⟨?_, ?_⟩, hread⟩
    · rintro ⟨diag, hdiag⟩
      by_contra hnone
      obtain ⟨each, -, hcommands⟩ := hread fun p hp hname => hnone ⟨p, hp, hname⟩
      rw [hdiag] at hcommands
      cases hcommands
    · rintro ⟨p, hp, hname⟩
      rw [← CommandLine.map_snd_placedFrom d.lead d.parts] at hp
      obtain ⟨e, he, rfl⟩ := List.mem_map.1 hp
      exact ofSegments_nameless_of_mem _ _ (List.mem_map_of_mem he)
        ((e.2.command?_segment_eq_none_iff block _).2 hname)

/-- A line of two parts, the first with a bracket in a quote and the second disabled. -/
def twoParts : CommandLine where
  lead := [' ']
  parts := [
    ⟨'[', ['s', 'a', 'y', ' '].map .plain ++ [.quote '“' ['a', ']'] '”'], '】', [' ']⟩,
    ⟨'【', ['#', 'x'].map .plain, ']', []⟩]
  tail := ['#']

theorem describes_twoParts : twoParts.Describes " [say “a]”】 【#x]#".toList := by
  refine ⟨⟨List.forall_mem_singleton.2 rfl, by decide,
    List.forall_mem_cons.2 ⟨?_, List.forall_mem_singleton.2 ?_⟩, ?_⟩, by decide⟩
  · exact ⟨rfl, by decide, rfl, List.forall_mem_singleton.2 rfl⟩
  · exact ⟨rfl, by decide, rfl, by simp⟩
  · exact .inr ⟨'#', [], rfl, rfl⟩

theorem ofLine_twoParts : twoParts.Describes " [say “a]”】 【#x]#".toList ∧
    (∀ p ∈ twoParts.parts, ¬ p.Nameless) ∧ ∃ each : List (Command × List Diagnostic),
      List.Forall₂ (fun e r => e.2.ReadAs 0 e.1 r) twoParts.placed each ∧
      ofLine " [say “a]”】 【#x]#" 0 = .commands (each.map (·.1)) (each.flatMap (·.2)) := by
  have hnames : ∀ p ∈ twoParts.parts, ¬ p.Nameless := by
    simp only [BracketPart.nameless_iff, ← Command.takeName?_eq_none_iff]
    decide
  obtain ⟨-, -, hread⟩ := ofLine_grammar " [say “a]”】 【#x]#" 0
  exact ⟨describes_twoParts, hnames, (hread twoParts describes_twoParts).2 hnames⟩

end Bracketed
end Manuscript
