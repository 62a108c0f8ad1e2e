/-
# Who has a name

The names in the cast of a document are those that its lines and commands mention, and
these are read as names: they are not empty, and have no blank at either end. There is
one exception. The command that hands every unnamed line to one speaker takes the
speaker's name as it is written, blanks around it apart, and so a blank one as well.
Then somebody is cast whose name is empty, and nobody is otherwise
(`Assembly.ofDocument_names`).

Key definitions: `Command.SinglesOutNobody`, `Item.Named`.
Key theorems: `Item.named_ofDocument`, `Item.isName_of_mentions`,
`Assembly.findCharacter?_character`, `Assembly.ofDocument_names`.
-/
import Manuscript.Proofs.Assembly.Cast

namespace Manuscript

open Text (IsName)

/-- The command hands every unnamed line to a speaker without a name. -/
def Command.SinglesOutNobody (c : Command) : Prop :=
  ∃ speaker, c.SinglesOut speaker ∧ Text.allBlank speaker = true

/-! ### Names that are mentioned -/

namespace Item

/-- The calls of a command line have names, and so has the speaker of a line. -/
def Named (it : Item) : Prop :=
  match it.content with
  | .commands cs => ∀ c ∈ cs, c.CallNamed
  | .say s => ∀ name, s.speakerText = some name → IsName name
  | _ => True

/-- A table or list does not change what a command calls. -/
theorem callNamed_attachLast (a : Attachment) : ∀ {cs : List Command}, (∀ c ∈ cs, c.CallNamed) →
    ∀ c ∈ attachLast a cs, c.CallNamed
  | [], _ => by simp [attachLast]
  | [c], h => by
    have hc : c.CallNamed := h c List.mem_cons_self
    rw [attachLast, List.forall_mem_singleton]
    split
    · exact hc
    · exact hc
  | c :: c' :: rest, h => by
    obtain ⟨hc, hrest⟩ := List.forall_mem_cons.1 h
    rw [attachLast]
    exact List.forall_mem_cons.2 ⟨hc, callNamed_attachLast a hrest⟩

theorem named_ofDocument (d : Document) (limit : Nat) : ∀ it ∈ (ofDocument limit d).items, it.Named := by
  refine forall_ofDocument ?_ ?_
  · exact fun a block cs h => callNamed_attachLast a h
  · intro i b hb _ content hcontent
    cases (carries_of_ofBlock? hcontent).2 with
    | commands hread => exact Command.callNamed_of_read hread
    | say hread => exact fun name => SayLine.isName_of_speakerText (ofLine?_of_read hread)
    | _ => trivial

/-- The speakers that a command lists have names. -/
theorem isName_of_mem_rotationNames {c : Command} {name : String}
    (h : name ∈ Assembly.rotationNames c) : IsName name := by
  rcases List.mem_append.1 h with h | h
  · cases htext : c.keywordText? .speakers with
    | none => simp [htext] at h
    | some text =>
      rw [htext] at h
      exact Text.isName_of_mem_listItems h
  · split at h
    · obtain ⟨hmem, hne⟩ := List.mem_filter.1 h
      obtain ⟨text, -, rfl⟩ := List.mem_map.1 hmem
      exact ⟨by simpa using hne, Text.trimmed_trimmed text⟩
    · cases h

/-- **What is mentioned is a name**, or the speaker that a command singles out. -/
theorem isName_of_mentions {it : Item} (hit : it.Named) {name : String} (h : it.Mentions name) :
    IsName name ∨ ∃ e ∈ it.enabled, ∃ speaker, e.command.SinglesOut speaker ∧
      name = Text.trimmed speaker := by
  rcases it with ⟨block, content⟩
  cases content with
  | commands cs =>
    obtain ⟨c, hc, ⟨arg, hname⟩ | hname | ⟨speaker, hspeaker, rfl⟩⟩ := h
    · exact .inl (Command.isName_of_positionalText (hit c (List.mem_of_mem_filter hc)) hname)
    · exact .inl (isName_of_mem_rotationNames hname)
    · exact .inr ⟨_, mem_enabled rfl hc hspeaker.kind, speaker, hspeaker, rfl⟩
  | say s => exact .inl (hit name h)
  | _ => cases h

end Item

namespace Assembly

variable {a b : Assembly}

/-! ### Somebody without a name -/

/-- A name that was asked for is known. -/
theorem findCharacter?_character (a : Assembly) (name : String) (code : Code) (loc : Loc) :
    (a.character name code loc).2.findCharacter? name = some (a.character name code loc).1 := by
  unfold character
  cases hfind : a.findCharacter? name with
  | some id => exact hfind
  | none =>
    have hself : { Character.ofName name with implicit := true }.answersTo name = true := by
      simp [Character.answersTo, Character.ofName]
    unfold findCharacter? at hfind
    simp [findCharacter?, addCharacter, Assembly.report, List.findIdx?_append, hfind, hself]

theorem isSome_findCharacter?_of_casts {P : String → Prop} (h : Casts P a b) {name : String}
    (ha : (a.findCharacter? name).isSome = true) : (b.findCharacter? name).isSome = true := by
  obtain ⟨id, hid⟩ := Option.isSome_iff_exists.1 ha
  rw [findCharacter?_of_grows h.grows hid]
  rfl

theorem sayModeCommand_of_singlesOut {c : Command} {speaker : String} (h : c.SinglesOut speaker)
    (a : Assembly) : (a.sayModeCommand c).characters =
      (a.character (Text.trimmed speaker) .characterUnresolved c.loc).2.characters := by
  obtain ⟨-, ⟨mode, hmode, hsingle⟩, hspeaker⟩ := h
  unfold sayModeCommand
  rw [hmode]
  dsimp only
  rcases List.mem_pair.1 hsingle with hsingle | hsingle <;> rw [hsingle, hspeaker] <;> rfl

/-- Somebody answers to no name at all once a command has singled out nobody, and later as well. -/
theorem nobody_of_command (a : Assembly) (c : Command) (media : List Media)
    (h : (a.findCharacter? "").isSome = true ∨ c.SinglesOutNobody) :
    ((a.command c media).findCharacter? "").isSome = true := by
  rcases h with ha | ⟨speaker, hsingles, hblank⟩
  · exact isSome_findCharacter?_of_casts (P := fun _ => True) (casts_command (by simp) media) ha
  · have hcommand : a.command c media = a.sayModeCommand c := by
      unfold command
      rw [hsingles.kind]
    rw [hcommand, findCharacter?, sayModeCommand_of_singlesOut hsingles,
      Text.trimmed_eq_empty_iff.2 hblank]
    exact Option.isSome_iff_exists.2 ⟨_, findCharacter?_character a "" .characterUnresolved c.loc⟩

theorem nobody_of_items {d : Document} {items : List Item} (h : items.foldlM (item d) a = .ok b)
    (hnobody : ∃ e ∈ items.flatMap Item.enabled, e.command.SinglesOutNobody) :
    (b.findCharacter? "").isSome = true := by
  refine reached_of_items (Q := fun a => (a.findCharacter? "").isSome = true) nobody_of_command ?_ h
    (.inr hnobody)
  intro a b it _ hitem ha
  exact isSome_findCharacter?_of_casts (P := fun _ => True) (casts_item hitem (by simp)) ha

/-- Who answers to no name at all has none, as no alias is empty. -/
theorem WellCast.exists_nameless {P : String → Prop} (ha : a.WellCast P)
    (h : (a.findCharacter? "").isSome = true) : ∃ c ∈ a.characters, c.name = "" := by
  obtain ⟨id, hid⟩ := Option.isSome_iff_exists.1 h
  obtain ⟨hlt, hanswers, -⟩ := List.findIdx?_eq_some_iff_getElem.1 hid
  have hmem : a.characters[id] ∈ a.characters := List.getElem_mem hlt
  refine ⟨_, hmem, ?_⟩
  have haliases := ha.aliases _ (List.mem_map_of_mem hmem)
  rcases Bool.or_eq_true_iff.1 hanswers with hname | halias
  · simpa using hname
  · exact absurd (List.contains_iff_mem.1 halias) haliases

/-! ### Documents -/

/-- **When somebody has no name.** Every document is put together. No name in its cast has a blank
at either end, and one is empty just if a command hands every unnamed line to a speaker whose name
is blank. -/
theorem ofDocument_names (s : FrontendSettings) (d : Document) : ∃ a, ofDocument s d = .ok a ∧
    (∀ c ∈ a.program.characters, Text.trimmed c.name = c.name) ∧
    ((∃ c ∈ a.program.characters, c.name = "") ↔
      ∃ e ∈ (Item.ofDocument s.maxNameChars d).items.flatMap Item.enabled,
        e.command.SinglesOutNobody) := by
  obtain ⟨a, ha, -⟩ := yields_ofDocument s d
  have hcast : a.WellCast fun name => Text.trimmed name = name ∧ (name = "" →
      ∃ e ∈ (Item.ofDocument s.maxNameChars d).items.flatMap Item.enabled,
        e.command.SinglesOutNobody) := by
    refine wellCast_of_ofDocument ha fun it hit name hname => ?_
    rcases Item.isName_of_mentions (Item.named_ofDocument d s.maxNameChars it hit) hname with
      hname | ⟨e, he, speaker, hspeaker, rfl⟩
    · exact ⟨hname.2, fun hempty => absurd hempty hname.1⟩
    · -- who is singled out is trimmed, but may be nothing but blanks
      exact ⟨Text.trimmed_trimmed speaker, fun hempty => ⟨e, List.mem_flatMap.2 ⟨it, hit, he⟩,
        speaker, hspeaker, Text.trimmed_eq_empty_iff.1 hempty⟩⟩
  refine ⟨a, ha, fun c hc => (hcast.names _ (List.mem_map_of_mem hc)).1, ?_, fun hnobody => ?_⟩
  · rintro ⟨c, hc, hempty⟩
    exact (hcast.names _ (List.mem_map_of_mem hc)).2 hempty
  · exact hcast.exists_nameless (nobody_of_items ha hnobody)

/-- A document that hands every unnamed line to a speaker with an empty name. -/
def namelessSpeaker : Document := ⟨"T", [.ofString "[SayMode single, speaker=\"\"]"]⟩

/-- The only character of the document has an empty name. -/
theorem ofDocument_namelessSpeaker :
    (ofDocument {} namelessSpeaker).toOption.map (·.program.characters.map (·.name)) = some [""] := by
  decide +kernel

end Assembly
end Manuscript
