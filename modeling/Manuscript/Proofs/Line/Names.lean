/-
# Names that are read

A text that names somebody is not empty and has no blank at either end
(`Text.IsName`). Wherever a line gives such a name it is one: a stretch of text between
marks, and so the name of a call (`Token.isName_of_mem_scan`), the bare value of a
command (`Command.isName_of_positionalText`), the items of a list
(`Text.isName_of_mem_listItems`), and the speaker of a line
(`SayLine.isName_of_speakerText`).

Key definitions: `Text.IsName`, `Command.CallNamed`.
Key theorems: `Token.isName_of_mem_scan`, `Command.callNamed_of_read`,
`Command.isName_of_positionalText`, `SayLine.isName_of_speakerText`.
-/
import Manuscript.Command.Access
import Manuscript.Line.Basic
import Manuscript.Proofs.Command.Grammar
import Manuscript.Proofs.Command.Tokens
import Manuscript.Proofs.Line.Cuts
import Manuscript.Proofs.Line.Named
import Manuscript.Proofs.Text.Plain
import Manuscript.Proofs.Text.Trim

namespace Manuscript

/-! ### Texts -/

namespace Text

/-- The text can name somebody: it is not empty, and has no blank at either end. -/
def IsName (s : String) : Prop := s ≠ "" ∧ trimmed s = s

theorem trimmed_trimmed (s : String) : trimmed (trimmed s) = trimmed s := by
  simp only [trimmed, String.toList_ofList, trim_trim]

theorem trimmed_eq_empty_iff {s : String} : trimmed s = "" ↔ allBlank s = true := by
  rw [trimmed, String.ofList_eq_empty_iff, allBlank, List.all_eq_true, ← trimEnd_eq_nil_iff]
  refine ⟨trimEnd_eq_nil_of_trim, fun h => ?_⟩
  have hstart : trimStart s.toList = [] := by
    simpa [trimStart] using trimEnd_eq_nil_iff.1 h
  rw [trim, hstart]
  rfl

theorem isName_trimmed {s : String} (h : allBlank s = false) : IsName (trimmed s) := by
  refine ⟨fun hempty => ?_, trimmed_trimmed s⟩
  rw [trimmed_eq_empty_iff.1 hempty] at h
  cases h

theorem isName_ofList_trim {cs : List Char} (h : trim cs ≠ []) : IsName (String.ofList (trim cs)) := by
  refine ⟨by simpa using h, ?_⟩
  rw [trimmed, String.toList_ofList, trim_trim]

/-- The items of a list are names. -/
theorem isName_of_mem_listItems {s name : String} (h : name ∈ listItems s) : IsName name := by
  obtain ⟨item, hitem, hname⟩ := List.mem_filterMap.1 h
  obtain ⟨piece, -, rfl⟩ := List.mem_map.1 hitem
  split at hname
  · cases hname
  · rename_i hne
    cases hname
    exact isName_ofList_trim (by simpa using hne)

end Text

open Text (IsName)

/-! ### Tokens -/

namespace Token

/-- **A stretch of text between marks is a name**: it starts with no blank and is trimmed at its end. -/
theorem isName_of_mem_scan {pos element : Nat} {cs : List Char} {t : Token} {s : String}
    (ht : t ∈ scan pos element cs) (hs : t.kind = .text s) : IsName s := by
  obtain ⟨pre, before, gap, part, rest, hplaced⟩ := exists_placed_of_mem ht
  have hread := hplaced.read
  rw [hs] at hread
  obtain ⟨hne, hpart, -, hhead, -⟩ := hread
  have htrim : Text.trimEnd part = Text.trim part := by
    rw [Text.trim, Text.trimStart_of_startsOff fun c hc => (hhead c hc).1]
  rw [htrim] at hpart
  have hname : s = String.ofList (Text.trim part) := by rw [← hpart, String.ofList_toList]
  rw [hname] at hne ⊢
  exact Text.isName_ofList_trim fun hnil => hne (by rw [hnil])

end Token

/-! ### Arguments -/

namespace Arguments

open Text (Span)

variable {last : Span} {nested : Bool} {args mid : Arguments} {steps : Nat} {ts rest : List Token}
  {v : Arg}

/-- An argument is a bare value at the front of its list, or leaves the bare value as it is. -/
theorem positional_parseOne (h : parseOne last args steps ts = .ok (mid, rest)) :
    mid ≠ empty ∧ (mid.positional = some v →
      args.positional = some v ∨ args = empty ∧ ∃ n rest, ReadsValue last n ts v rest) := by
  cases steps with
  | zero => cases h
  | succ steps =>
    cases parseOne_eq_ok.1 h with
    | keyword _ _ => exact ⟨by simp [empty], fun hv => .inl hv⟩
    | bare _ hvalue hadd =>
      obtain ⟨rfl, rfl⟩ := addPositional_eq_ok.1 hadd
      refine ⟨by simp [empty], fun hv => .inr ⟨rfl, ?_⟩⟩
      cases hv
      cases steps with
      | zero => cases hvalue
      | succ n => exact ⟨n, rest, parseValue_eq_ok.1 hvalue⟩

theorem positional_parseMore (last : Span) (nested : Bool) (steps : Nat) :
    ∀ {args : Arguments} {ts : List Token},
      (parseMore last nested steps args ts).1.positional = some v →
      args.positional = some v ∨ args = empty ∧ ∃ n rest, ReadsValue last n ts v rest := by
  induction steps with
  | zero => exact fun h => .inl h
  | succ steps ih =>
    intro args ts h
    rw [parseMore] at h
    split at h
    · exact .inl h
    · rename_i mid rest hone
      obtain ⟨hne, hmid⟩ := positional_parseOne (v := v) hone
      refine hmid ?_
      split at h
      · -- behind the first argument the list is no longer empty, and takes no bare value
        exact (ih h).resolve_right fun hempty => hne hempty.1
      · exact h

/-- **The bare value of an argument list is what was read at its front**, even if the list is
malformed further on. -/
theorem positional_parse (h : (parse nested ts).1.positional = some v) :
    ∃ last n rest, ReadsValue last n ts v rest := by
  obtain ⟨last, hparse⟩ := exists_parseList nested ts
  rw [hparse, Arguments.steps, parseList] at h
  split at h
  · cases h
  · obtain hnone | ⟨-, hread⟩ := positional_parseMore last nested _ h
    · cases hnone
    · exact ⟨last, hread⟩

end Arguments

/-! ### Commands -/

namespace Command

/-- If the bare value of the command is a call, its name is a name. -/
def CallNamed (c : Command) : Prop := ∀ name positional keywords,
  c.args.positional = some (.call name positional keywords) → IsName name

theorem callNamed_of_parse? {interior : String} {loc : Loc} {element : Nat} {c : Command}
    {ds : List Diagnostic} (h : parse? interior loc element = some (c, ds)) : c.CallNamed := by
  obtain ⟨name, rest, base, -, hargs⟩ := exists_of_parse? h
  intro callee positional keywords hcall
  rw [hargs] at hcall
  obtain ⟨last, n, more, hread⟩ := Arguments.positional_parse hcall
  generalize hts : Token.scan base element rest = ts at hread
  cases hread with
  | @call _ a _ _ _ _ _ _ =>
    have hmem : (⟨.text callee, a⟩ : Token) ∈ Token.scan base element rest := hts ▸ List.mem_cons_self
    exact Token.isName_of_mem_scan hmem rfl

/-- **The calls of a command line have names.** -/
theorem callNamed_of_read {text : String} {block limit : Nat} {cs : List Command}
    (h : (Line.read text block limit).1 = .commands cs) : ∀ c ∈ cs, c.CallNamed := by
  intro c hc
  obtain ⟨interior, loc, element, parsed, ds, hparse, hsame⟩ := Line.exists_parse? h hc
  have hnamed := callNamed_of_parse? hparse
  rw [hsame]
  exact hnamed

/-- **The bare value of a command is a name.** -/
theorem isName_of_positionalText {c : Command} (hc : c.CallNamed) {arg name : String}
    (h : c.positionalText arg = .ok name) : IsName name := by
  unfold positionalText at h
  split at h
  · cases h
  · rename_i callee positional keywords hcall
    cases h
    exact hc _ _ _ hcall
  · split at h
    · split at h
      · cases h
      · rename_i hblank
        cases h
        exact Text.isName_trimmed (by simpa using hblank)
    · cases h

end Command

/-! ### Spoken lines -/

namespace SayLine

theorem isName_of_takeName? {line : List Char} {limit : Nat} {quotedOnly quoted : Bool}
    {ps rest : List Piece} {f : Field}
    (h : takeName? line limit quotedOnly ps = some (f, quoted, rest)) : IsName f.text := by
  have hname : ∀ {text : List Char} {quoted : Bool},
      (NameClass.of text quoted limit).isName = true → IsName (String.ofList (Text.trim text)) := by
    intro text quoted hclass
    refine Text.isName_ofList_trim fun hnil => ?_
    simp [NameClass.of, hnil, NameClass.isName] at hclass
  cases ps with
  | nil => cases h
  | cons p ps =>
    rw [takeName?] at h
    dsimp only at h
    split at h
    · split at h <;> cases h
      exact hname ‹_›
    · split at h
      · cases h
      · split at h <;> cases h
        exact hname ‹_›
    · cases h

theorem isName_of_readForm? {line : List Char} {limit : Nat} {ps : List Piece} {form : SayForm}
    {named : Bool} {s : SayLine} (h : readForm? line limit ps form named = some s) {f : Field}
    (hf : s.speaker = some f) : IsName f.text := by
  unfold readForm? at h
  split at h
  · obtain ⟨⟨g, quoted, rest⟩, htake, hread⟩ := Option.bind_eq_some_iff.1 h
    rw [(speaker_of_readBehind? hread).1] at hf
    cases hf
    exact isName_of_takeName? htake
  · split at h
    · cases h
    · rw [(speaker_of_readBehind? h).1] at hf
      cases hf

/-- **The speaker of a line is a name.** -/
theorem isName_of_speakerText {text name : String} {limit : Nat} {s : SayLine}
    (h : ofLine? text limit = some s) (hname : s.speakerText = some name) : IsName name := by
  obtain ⟨hfind, -⟩ := Option.filter_eq_some_iff.1 h
  obtain ⟨⟨form, named⟩, -, hread⟩ := List.exists_of_findSome?_eq_some hfind
  obtain ⟨f, hf, rfl⟩ := Option.map_eq_some_iff.1 hname
  exact isName_of_readForm? hread hf

end SayLine
end Manuscript
