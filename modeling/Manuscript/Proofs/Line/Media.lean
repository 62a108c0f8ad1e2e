/-
# Which medium an argument stands for

The n-th medium mark of a block stands for its n-th medium. Two counts have to agree for
this: a command line counts the marks before a command, and the tokens of the command count
on from there. They agree on all marks but those in quoted text, which the tokens do not
count (`Token.Layout.exists_placed`): behind a quote that holds a mark, a medium has a number
that is too small by the marks in it.

The media of the arguments are those of the tokens in their order, as far as the list was
read (`Arguments.elements_parse`), so that each medium argument has the mark it was read from.

Key definitions: `Arg.elements`, `Arguments.elements`, `Token.Numbered`, `Command.Numbered`.
Key theorems: `Arguments.elements_parse`, `Command.exists_skipped`, `Token.numbered_scan`,
`Bracketed.ofLine_numbered`.
-/
import Manuscript.Proofs.Command.Grammar
import Manuscript.Proofs.Command.Tokens
import Manuscript.Proofs.Line.Cuts

namespace Manuscript

open Text (Span)

/-! ### The media of arguments -/

namespace Arg

mutual

/-- The numbers of the media in a value, in the order written. -/
def elements : Arg → List Nat
  | text _ | quoted _ => []
  | element i => [i]
  | call _ positional keywords => positionalElements positional ++ keywordElements keywords

/-- The media in a bare value, if there is one. -/
def positionalElements : Option Arg → List Nat
  | none => []
  | some a => a.elements

/-- The media in the values of keywords. -/
def keywordElements : List (String × Arg) → List Nat
  | [] => []
  | (_, a) :: rest => a.elements ++ keywordElements rest

end

theorem keywordElements_append : ∀ xs ys : List (String × Arg),
    keywordElements (xs ++ ys) = keywordElements xs ++ keywordElements ys
  | [], ys => rfl
  | (key, a) :: xs, ys => by
    simp only [List.cons_append, keywordElements, keywordElements_append xs ys, List.append_assoc]

end Arg

/-- The number of a medium token. -/
def TokenKind.element? : TokenKind → Option Nat
  | .element i => some i
  | _ => none

/-- The media of an argument list, in the order written. -/
def Arguments.elements (args : Arguments) : List Nat :=
  Arg.positionalElements args.positional ++ Arg.keywordElements args.keywords

theorem ListTree.filterMap_comma (t : ListTree) : t.comma.filterMap TokenKind.element? = [] := by
  cases t <;> rfl

/-- A list without a bare value has the media of its keywords. -/
theorem ListTree.elements_of_hasBare {t : ListTree} (h : t.hasBare = false) :
    t.denote.elements = Arg.keywordElements t.keywords := by
  rw [Arguments.elements, ListTree.denote, Arguments.positional_eq_none h]
  rfl

mutual

/-- The media of a value are those of the tokens it is derived to. -/
theorem ValueTree.elements_denote : ∀ t : ValueTree, t.WellFormed →
    t.denote.elements = t.yield.filterMap TokenKind.element?
  | .text _, _ | .quoted _, _ | .element _, _ => rfl
  | .call name args, h => by
    have hyield : (ValueTree.call name args).yield.filterMap TokenKind.element? =
        args.yield.filterMap TokenKind.element? := by
      simp [ValueTree.yield, List.filterMap_cons, TokenKind.element?]
    rw [hyield]
    exact ListTree.elements_denote args h

/-- The media of a list are those of the tokens it is derived to: a bare value comes first in both. -/
theorem ListTree.elements_denote : ∀ t : ListTree, t.WellFormed →
    t.denote.elements = t.yield.filterMap TokenKind.element?
  | .empty, _ => rfl
  | .bare value rest, ⟨hvalue, hbare, hrest⟩ => by
    have helements : (ListTree.bare value rest).denote.elements =
        value.denote.elements ++ Arg.keywordElements rest.keywords := rfl
    rw [helements, ← ListTree.elements_of_hasBare hbare, ValueTree.elements_denote value hvalue,
      ListTree.elements_denote rest hrest]
    simp [ListTree.yield, ListTree.filterMap_comma]
  | .keyword key value rest, ⟨_, _, hvalue, hbare, hrest⟩ => by
    have helements : (ListTree.keyword key value rest).denote.elements =
        value.denote.elements ++ Arg.keywordElements rest.keywords := rfl
    rw [helements, ← ListTree.elements_of_hasBare hbare, ValueTree.elements_denote value hvalue,
      ListTree.elements_denote rest hrest]
    simp [ListTree.yield, ListTree.filterMap_comma, List.filterMap_cons, TokenKind.element?]

end

namespace Arguments

variable {last : Span} {nested : Bool} {args mid : Arguments} {steps : Nat} {ts rest : List Token}

theorem elements_extend {t : ListTree} (h : args.Joins t) :
    (args.extend t).elements = args.elements ++ t.denote.elements := by
  cases hbare : t.hasBare with
  | true =>
    rw [h.first hbare]
    rfl
  | false =>
    rw [ListTree.elements_of_hasBare hbare, elements, extend, positional_eq_none hbare, Option.or_none,
      Arg.keywordElements_append, ← List.append_assoc]
    rfl

/-- One argument adds the media of the tokens it is read from. -/
theorem elements_parseOne (h : parseOne last args steps ts = .ok (mid, rest)) :
    ∃ front, ts = front ++ rest ∧
      mid.elements = args.elements ++ front.filterMap (·.kind.element?) := by
  cases steps with
  | zero => cases h
  | succ steps =>
    have hderived := (parseOne_eq_ok.1 h).oneDerived (derived_of_parse last steps).1
    obtain ⟨t, front, -, hwf, hjoins, rfl, rfl, hfront⟩ := hderived.done
    refine ⟨front, rfl, ?_⟩
    rw [elements_extend hjoins, t.elements_denote hwf, ← hfront, List.filterMap_map]
    rfl

/-- The media that are read up to the end or to a fault, by induction on the steps. -/
theorem elements_parseMore (last : Span) (nested : Bool) (steps : Nat) :
    ∀ (args : Arguments) (ts : List Token), ∃ added,
      (parseMore last nested steps args ts).1.elements = args.elements ++ added ∧
      added <+: ts.filterMap (·.kind.element?) := by
  induction steps with
  | zero => exact fun args ts => ⟨[], (List.append_nil _).symm, List.nil_prefix⟩
  | succ steps ih =>
    intro args ts
    rw [parseMore]
    split
    · exact ⟨[], (List.append_nil _).symm, List.nil_prefix⟩
    · rename_i mid rest hone
      obtain ⟨front, rfl, hmid⟩ := elements_parseOne hone
      rw [List.filterMap_append]
      split
      · rename_i comma rest
        obtain ⟨added, hadded, hfirst⟩ := ih mid rest
        refine ⟨front.filterMap (·.kind.element?) ++ added, ?_, ?_⟩
        · rw [hadded, hmid, List.append_assoc]
        · exact (List.prefix_append_right_inj _).2 hfirst
      · exact ⟨_, hmid, List.prefix_append _ _⟩

/-- **The media of an argument list are those of the tokens it was read from**, in order, up to the
fault if the list is malformed. -/
theorem elements_parse (nested : Bool) (ts : List Token) :
    (parse nested ts).1.elements <+: ts.filterMap (·.kind.element?) := by
  obtain ⟨last, hparse⟩ := exists_parseList nested ts
  rw [hparse, Arguments.steps, parseList]
  split
  · exact List.nil_prefix
  · obtain ⟨added, hadded, hfirst⟩ := elements_parseMore last nested (4 * ts.length + 3) .empty ts
    rw [hadded]
    exact hfirst

end Arguments

/-! ### Where the arguments stand -/

namespace Command

/-- **Before the arguments of a command stand no media**: a medium mark ends a name. -/
theorem exists_skipped {cs name rest : List Char} (h : takeName? cs = some (name, rest)) :
    ∃ skipped, cs = skipped ++ rest ∧ skipped.countP Mark.isElement = 0 := by
  obtain ⟨between, hcs, hnone⟩ := exists_eq_append_takeName? h
  refine ⟨cs.takeWhile Text.isBlank ++ (name ++ between), ?_, ?_⟩
  · rw [List.append_assoc, List.append_assoc, ← hcs, Text.takeWhile_append_trimStart]
  · rw [List.countP_append, hnone, Token.countP_blanks fun d hd => List.mem_takeWhile_imp hd]

end Command

namespace Segment

/-- The text of a segment stands inside its brackets. -/
theorem bounds_of_ofLine? {line : List Char} {segments : List Segment}
    (h : ofLine? line = some segments) :
    ∀ s ∈ segments, s.outer.start < s.start ∧ s.start + Text.size s.interior < s.outer.stop := by
  obtain ⟨d, hd, rfl⟩ := ofLine?_eq_some_iff.1 h
  intro s hs
  obtain ⟨e, -, rfl⟩ := List.mem_map.1 hs
  have hopener := Char.utf8Size_pos e.2.opener
  have hcloser := Char.utf8Size_pos e.2.closer
  simp only [BracketPart.segment, BracketPart.bracketed, Text.size_cons, Text.size_append,
    Text.size_nil]
  omega

/-- **The media before the arguments of a command are those before its segment.** The arguments end
the text of the segment. -/
theorem exists_of_command? {line : List Char} {block : Nat} {s : Segment} {c : Command}
    {ds : List Diagnostic} (hs : s.InLine line) (h : s.command? line block = some (c, ds)) :
    c.loc = s.loc block ∧ ∃ front args back base, line = front ++ (args ++ back) ∧
      s.start ≤ Text.size front ∧ Text.size (front ++ args) = s.start + Text.size s.interior ∧
      c.args = (Arguments.parse false (Token.scan base (front.countP Mark.isElement) args)).1 := by
  obtain ⟨before, after, hline, hstart⟩ := hs.interior
  obtain ⟨mark, hinterior, hmark⟩ := exists_eq_append_enabling s.interior
  obtain ⟨⟨parsed, es⟩, hparse, heq⟩ := Option.map_eq_some_iff.1 h
  cases heq
  obtain ⟨name, args, base, hname, hargs⟩ := Command.exists_of_parse? hparse
  rw [String.toList_ofList] at hname
  obtain ⟨skipped, hskip, hskipped⟩ := Command.exists_skipped hname
  have hhanded : (enabling s.interior).1 = skipped ++ args := hskip
  have hcount : s.firstElement line = (before ++ (mark ++ skipped)).countP Mark.isElement := by
    rw [firstElement, hstart, hline, Text.takeBytes_append]
    simp only [List.countP_append, hmark, hskipped, Nat.add_zero]
  rw [hhanded] at hinterior
  have hloc := Command.loc_of_parse? hparse
  refine ⟨hloc, before ++ (mark ++ skipped), args, after, base, ?_, ?_, ?_, ?_⟩
  · rw [hline, hinterior]
    simp
  · rw [hstart, Text.size_append]
    exact Nat.le_add_right _ _
  · rw [hstart, hinterior]
    simp only [Text.size_append]
    omega
  · rw [← hcount]
    exact hargs

end Segment

/-! ### Numbers -/

namespace Token

theorem hidden_eq_zero {ts : List Token} : hidden ts = 0 ↔ ∀ t ∈ ts, t.kind.hidden = 0 := by
  induction ts with
  | nil => simp [hidden]
  | cons t ts ih => rw [hidden, Nat.add_eq_zero_iff, ih, List.forall_mem_cons]

/-- The number `i` is that of a mark behind the text `front`, counted from `element`, less the marks
in the quotes of the tokens before it. -/
structure Counts (element : Nat) (front : List Char) (pre : List Token) (i : Nat) : Prop where
  less : i + hidden pre = element + front.countP Mark.isElement
  /-- The number is the mark's own exactly if no quote before it holds a mark. -/
  own : i = element + front.countP Mark.isElement ↔ ∀ t ∈ pre, t.kind.hidden = 0

theorem counts_of_less {element i : Nat} {front : List Char} {pre : List Token}
    (h : i + hidden pre = element + front.countP Mark.isElement) : Counts element front pre i := by
  refine ⟨h, ?_⟩
  rw [← hidden_eq_zero]
  omega

/-- Every medium of the tokens was read from a mark of the text, and counts the marks before it. -/
def Numbered (base element : Nat) (cs : List Char) (ts : List Token) : Prop :=
  ∀ pre i span post, ts = pre ++ ⟨.element i, span⟩ :: post → ∃ front back,
    cs = front ++ elementMark :: back ∧ span.start = base + Text.size front ∧
    Counts element front pre i

theorem numbered_scan (base element : Nat) (cs : List Char) :
    Numbered base element cs (scan base element cs) := by
  intro pre i span post hsplit
  have hlayout := layout_scan base element cs
  rw [hsplit] at hlayout
  obtain ⟨before, gap, part, rest, h⟩ := hlayout.exists_placed
  obtain rfl : part = [elementMark] := h.read
  refine ⟨before ++ gap, rest, ?_, congrArg Span.start h.span, counts_of_less (h.number i rfl)⟩
  rw [h.text]
  simp

end Token

/-- The media among the arguments of the command are those of its tokens, in order, and these count
the marks of the whole line: the arguments stand between the command's brackets, behind `front`. -/
def Command.Numbered (line : List Char) (c : Command) : Prop :=
  ∃ front args back base ts, line = front ++ (args ++ back) ∧
    c.loc.start < Text.size front ∧ Text.size (front ++ args) < c.loc.stop ∧
    ts = Token.tokenize (String.ofList args) base (front.countP Mark.isElement) ∧
    c.args = (Arguments.parse false ts).1 ∧
    c.args.elements <+: ts.filterMap (·.kind.element?) ∧
    ∀ pre i span post, ts = pre ++ ⟨.element i, span⟩ :: post → ∃ mid rest,
      args = mid ++ elementMark :: rest ∧ span.start = base + Text.size mid ∧
      Token.Counts 0 (front ++ mid) pre i

namespace Bracketed

/-- The commands of a line count the media of the line. -/
theorem numbered_of_ofLine {text : String} {block : Nat} {commands : List Command}
    {diags : List Diagnostic} (h : ofLine text block = .commands commands diags) :
    ∀ c ∈ commands, c.Numbered text.toList := by
  intro c hc
  unfold ofLine at h
  split at h
  · cases h
  · rename_i segments hsegments
    obtain ⟨s, hs, es, hcommand⟩ := exists_of_mem_commands h c hc
    obtain ⟨hloc, front, args, back, base, hline, hfront, hend, hargs⟩ :=
      Segment.exists_of_command? (Segment.inLine_of_ofLine? hsegments s hs) hcommand
    obtain ⟨hopen, hclose⟩ := Segment.bounds_of_ofLine? hsegments s hs
    have htokens : Token.tokenize (String.ofList args) base (front.countP Mark.isElement) =
        Token.scan base (front.countP Mark.isElement) args := by
      rw [Token.tokenize, String.toList_ofList]
    refine ⟨front, args, back, base, _, hline, ?_, ?_, rfl, ?_, ?_, ?_⟩
    · rw [hloc]
      exact Nat.lt_of_lt_of_le hopen hfront
    · rw [hloc, hend]
      exact hclose
    · rw [htokens, hargs]
    · rw [htokens, hargs]
      exact Arguments.elements_parse false _
    · intro pre i span post hsplit
      rw [htokens] at hsplit
      obtain ⟨mid, rest, hmid, hspan, hcounts⟩ :=
        Token.numbered_scan base (front.countP Mark.isElement) args pre i span post hsplit
      refine ⟨mid, rest, hmid, hspan, Token.counts_of_less ?_⟩
      rw [hcounts.less, List.countP_append, Nat.zero_add]

/-- **Media are numbered by the marks before them, less those in quotes.** This holds of the tokens
of a text, and of the arguments of the commands of a line, which count the marks of the line. -/
theorem ofLine_numbered (s text : String) (base element block : Nat) :
    Token.Numbered base element s.toList (Token.tokenize s base element) ∧
    ∀ (commands : List Command) (diags : List Diagnostic),
      ofLine text block = .commands commands diags → ∀ c ∈ commands, c.Numbered text.toList :=
  ⟨Token.numbered_scan base element s.toList, fun _ _ => numbered_of_ofLine⟩

/-- The media of the commands of a line, command by command. -/
def elements? : Bracketed → Option (List (List Nat))
  | commands cs _ => some (cs.map (·.args.elements))
  | _ => none

theorem exists_commands {b : Bracketed} {numbers : List (List Nat)} (h : b.elements? = some numbers) :
    ∃ cs ds, b = .commands cs ds ∧ cs.map (·.args.elements) = numbers := by
  cases b with
  | absent => cases h
  | commands cs ds => exact ⟨cs, ds, rfl, Option.some.inj h⟩
  | nameless diag => cases h

theorem ofLine_numbered_disabled : ∃ commands diags,
    ofLine "[a ￼]【# b “￼”, k=￼]" 0 = .commands commands diags ∧
    commands.map (·.args.elements) = [[0], [1]] ∧
    ∀ c ∈ commands, c.Numbered "[a ￼]【# b “￼”, k=￼]".toList := by
  have helements : (ofLine "[a ￼]【# b “￼”, k=￼]" 0).elements? = some [[0], [1]] := by decide +kernel
  obtain ⟨commands, diags, hline, hnumbers⟩ := exists_commands helements
  have hnumbered := (ofLine_numbered "" "[a ￼]【# b “￼”, k=￼]" 0 0 0).2
  exact ⟨commands, diags, hline, hnumbers, hnumbered commands diags hline⟩

/-- Behind a mark in quotes, the second mark of a text has the number of the first: as a token, and
as the argument of a command. -/
theorem ofLine_hiddenMark :
    (⟨.element 0, ⟨5, 8⟩⟩ : Token) ∈ Token.tokenize "\"￼\"￼" 0 0 ∧
    (Text.takeBytes 5 "\"￼\"￼".toList).countP Mark.isElement = 1 ∧
    (ofLine "[a \"￼\", k=￼]" 0).elements? = some [[0]] ∧
    "[a \"￼\", k=".toList.countP Mark.isElement = 1 := by
  refine ⟨by decide +kernel, by decide +kernel, by decide +kernel, by decide +kernel⟩

end Bracketed
end Manuscript
