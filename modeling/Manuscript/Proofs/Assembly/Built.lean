/-
# The assembly of a document

A document is put together without a fault, and by edits only. What could fail
is a cut: the content of a spoken line is cut out of the styled text of its block
at spans that were found in its plain text. The items of a document are of its
blocks, and the fields of a spoken line lie in the text of its block, so each of
these cuts is made between characters.

Key definitions: `Item.InDocument`, `Item.Carries`, `Item.readFrom`.
Key theorems: `Item.carries_of_ofBlock?`, `Item.forall_ofDocument`, `Assembly.yields_item`,
`Assembly.edits_ofDocument`, `Assembly.yields_ofDocument`.
-/
import Manuscript.Proofs.Assembly.Change
import Manuscript.Proofs.Line.Cuts

namespace Manuscript

/-! ### Items -/

namespace Item

/-- The item is of a block of the document, and a spoken line is what the block's text reads
as. -/
def InDocument (d : Document) (limit : Nat) (it : Item) : Prop :=
  ∃ b, d.blocks[it.block]? = some b ∧
    ∀ s, it.content = .say s → SayLine.ofLine? b.plain limit = some s

theorem ofLine?_of_read {text : String} {block limit : Nat} {s : SayLine}
    (h : (Line.read text block limit).1 = .say s) : SayLine.ofLine? text limit = some s := by
  have hprose : Line.readProse text limit = .say s → SayLine.ofLine? text limit = some s := by
    unfold Line.readProse
    split
    · rintro ⟨rfl⟩
      assumption
    · simp
  unfold Line.read at h
  split at h
  · cases h
  · split at h
    · cases h
    · exact hprose h
    · exact hprose h

/-- What a block carries: its text as it is, its images, or what its line is. -/
inductive Carries (limit i : Nat) (b : Block) : ItemContent → Prop
  | verbatim : b.isVerbatim = true → Carries limit i b .verbatim
  | display : b.isDisplay = true → Carries limit i b .display
  | commands {cs : List Command} : (Line.read b.plain i limit).1 = .commands cs →
    Carries limit i b (.commands cs)
  | say {s : SayLine} : (Line.read b.plain i limit).1 = .say s → Carries limit i b (.say s)
  | narration : (Line.read b.plain i limit).1 = .narration → Carries limit i b .narration

/-- **A block that is not blank carries something.** -/
theorem carries_of_ofBlock? {limit i : Nat} {b : Block} {content : ItemContent}
    (h : (ofBlock? limit i b).1 = some content) : b.isBlank = false ∧ Carries limit i b content := by
  unfold ofBlock? at h
  split at h
  · cases h
  · rename_i hblank
    refine ⟨by simpa using hblank, ?_⟩
    split at h
    · cases h
      exact .verbatim ‹_›
    · split at h
      · cases h
        exact .display ‹_›
      · dsimp only at h
        cases hread : (Line.read b.plain i limit).1 <;> rw [hread] at h <;> cases h
        · exact .commands hread
        · exact .say hread
        · exact .narration hread

theorem ofLine?_of_ofBlock? {limit i : Nat} {b : Block} {s : SayLine}
    (h : (ofBlock? limit i b).1 = some (.say s)) : SayLine.ofLine? b.plain limit = some s := by
  cases (carries_of_ofBlock? h).2 with
  | say hread => exact ofLine?_of_read hread

/-- Reads blocks from the one at a place on. -/
def readFrom (limit : Nat) : Nat → List Block → Reading → Reading
  | _, [], r => r
  | i, b :: bs, r => readFrom limit (i + 1) bs (r.step limit b i)

theorem ofDocument_eq (limit : Nat) (d : Document) :
    ofDocument limit d = readFrom limit 0 d.blocks ⟨[], []⟩ := by
  have key : ∀ (bs : List Block) (i : Nat) (r : Reading),
      (bs.zipIdx i).foldl (fun r x => r.step limit x.1 x.2) r = readFrom limit i bs r := by
    intro bs
    induction bs with
    | nil => exact fun i r => rfl
    | cons b bs ih => exact fun i r => ih (i + 1) (r.step limit b i)
  exact key d.blocks 0 ⟨[], []⟩

/-- The item of a block without a table or list, if it carries something. -/
def ofBlock (limit i : Nat) (b : Block) : List Item := ((ofBlock? limit i b).1.map (⟨i, ·⟩)).toList

theorem items_step {limit : Nat} {b : Block} (h : b.attachment = none) (r : Reading) (i : Nat) :
    (r.step limit b i).items = r.items ++ ofBlock limit i b := by
  rw [Reading.step, h]
  rfl

theorem attach_append (a : Attachment) {more : List Item} (h : more ≠ []) : ∀ items : List Item,
    attach a (items ++ more) = items ++ attach a more
  | [] => rfl
  | it :: items => by
    obtain ⟨y, rest, hy⟩ : ∃ y rest, items ++ more = y :: rest :=
      List.exists_cons_of_ne_nil (by simp [h])
    have ih := attach_append a h items
    rw [hy] at ih
    rw [List.cons_append, hy, attach, ih, List.cons_append]

section Items

variable {d : Document} {limit : Nat} {P : Item → Prop}

/-- A table or list only changes the last command of a command line. -/
theorem forall_attach
    (hcommands : ∀ a block cs, P ⟨block, .commands cs⟩ → P ⟨block, .commands (attachLast a cs)⟩)
    (a : Attachment) : ∀ {items : List Item}, (∀ it ∈ items, P it) → ∀ it ∈ attach a items, P it
  | [], _ => by simp [attach]
  | [⟨block, content⟩], h => by
    intro it hit
    cases content with
    | commands cs =>
      rw [attach, List.mem_singleton] at hit
      rw [hit]
      exact hcommands a block cs (h _ List.mem_cons_self)
    | _ => exact h it hit
  | x :: y :: rest, h => by
    have ih := forall_attach hcommands a fun it hit => h it (List.mem_cons_of_mem x hit)
    rw [attach]
    exact List.forall_mem_cons.2 ⟨h x List.mem_cons_self, ih⟩

theorem forall_step
    (hcommands : ∀ a block cs, P ⟨block, .commands cs⟩ → P ⟨block, .commands (attachLast a cs)⟩)
    {r : Reading} {b : Block} {i : Nat} (hblock : b.attachment = none →
      ∀ content, (ofBlock? limit i b).1 = some content → P ⟨i, content⟩)
    (h : ∀ it ∈ r.items, P it) : ∀ it ∈ (r.step limit b i).items, P it := by
  unfold Reading.step
  split
  · exact forall_attach hcommands _ h
  · rename_i hattachment
    intro it hit
    rcases List.mem_append.1 hit with hit | hit
    · exact h it hit
    · obtain ⟨content, hcontent, rfl⟩ : ∃ content, (ofBlock? limit i b).1 = some content ∧
          ⟨i, content⟩ = it := by simpa using hit
      exact hblock hattachment content hcontent

theorem forall_readFrom
    (hcommands : ∀ a block cs, P ⟨block, .commands cs⟩ → P ⟨block, .commands (attachLast a cs)⟩) :
    ∀ {bs : List Block} {i : Nat} {r : Reading},
      (∀ j b, bs[j]? = some b → b.attachment = none →
        ∀ content, (ofBlock? limit (i + j) b).1 = some content → P ⟨i + j, content⟩) →
      (∀ it ∈ r.items, P it) → ∀ it ∈ (readFrom limit i bs r).items, P it
  | [], _, _, _, hr => hr
  | b :: bs, i, r, hblock, hr => by
    rw [readFrom]
    refine forall_readFrom hcommands (fun j c hc => ?_) (forall_step hcommands (hblock 0 b rfl) hr)
    rw [Nat.add_assoc, Nat.add_comm 1 j]
    exact hblock (j + 1) c hc

/-- **What holds of what each block carries holds of all items** of a document, if it is kept when
a command gets its table or list. -/
theorem forall_ofDocument
    (hcommands : ∀ a block cs, P ⟨block, .commands cs⟩ → P ⟨block, .commands (attachLast a cs)⟩)
    (hblock : ∀ i b, d.blocks[i]? = some b → b.attachment = none →
      ∀ content, (ofBlock? limit i b).1 = some content → P ⟨i, content⟩) :
    ∀ it ∈ (ofDocument limit d).items, P it := by
  rw [ofDocument_eq]
  refine forall_readFrom hcommands (fun j b hb => ?_) (by simp)
  rw [Nat.zero_add]
  exact hblock j b hb

end Items

/-- A block whose text is an item of its own goes to the script as it is. -/
theorem isVerbatim_of_ofBlock? {i : Nat} {b : Block}
    (h : (ofBlock? limit i b).1 = some .verbatim) : b.isBlank = false ∧ b.isVerbatim = true := by
  obtain ⟨hblank, hcarries⟩ := carries_of_ofBlock? h
  cases hcarries with
  | verbatim hverbatim => exact ⟨hblank, hverbatim⟩

theorem goesVerbatim_ofDocument (d : Document) (limit : Nat) :
    ∀ it ∈ (ofDocument limit d).items, it.content = .verbatim →
      ∀ b, d.blocks[it.block]? = some b → b.GoesVerbatim := by
  refine forall_ofDocument ?_ ?_
  · rintro a block cs - ⟨⟩
  · rintro i b hb hattachment content hcontent rfl b' hb'
    rw [hb] at hb'
    cases hb'
    exact ⟨hattachment, isVerbatim_of_ofBlock? hcontent⟩

theorem inDocument_ofDocument (d : Document) (limit : Nat) :
    ∀ it ∈ (ofDocument limit d).items, InDocument d limit it := by
  refine forall_ofDocument ?_ ?_
  · rintro a block cs ⟨b, hb, -⟩
    exact ⟨b, hb, by simp⟩
  · intro i b hb _ content hcontent
    exact ⟨b, hb, fun s hs => ofLine?_of_ofBlock? (hcontent.trans (congrArg some hs))⟩

end Item

namespace Assembly

/-! ### Lines -/

/-- Parts that lie in the plain text can be cut out of the styled text and joined. -/
theorem yields_contentOf {text : StyledText} {fields : List Field}
    (h : ∀ f ∈ fields, Text.Fits text.plainChars f.span) :
    Yields (contentOf text fields) fun _ => True := by
  unfold contentOf
  refine (yields_foldlM (P := fun _ => True) (fun out f hf _ => ?_) trivial).bind
    fun joined _ => joined.yields_trim
  exact (StyledText.yields_slice (h f hf)).bind fun part _ => yields_ok trivial

variable {a : Assembly} {doc : Document}

/-- A line whose speaker is there, if it names one, finds who speaks it and is emitted. -/
theorem edits_speak (ha : a.InRange) (named : Option CharacterId)
    (h : ∀ id ∈ named, id < a.characters.length) (quoted : Bool) (status : List String)
    (content : StyledText) (loc : Loc) :
    Edits doc a ({ a with speakers := (a.speakers.say named quoted).2 }.emit
      (.act (.say (a.speakers.say named quoted).1 status content)) loc) := by
  refine .tail (.single (.say named quoted h)) (.emit _ _ (fun id hid => ?_) trivial)
  rcases List.mem_append.1 (Speakers.say_mem.1 hid) with hid | hid
  · exact h id (Option.mem_toList.1 hid)
  · exact ha.speakers id hid

theorem yields_say (ha : a.InRange) {s : SayLine} {b : Block} (i : Nat)
    (h : ∀ f ∈ s.content, Text.Fits b.text.plainChars f.span) :
    Yields (a.say s b i) fun a' => Edits doc a a' := by
  unfold say
  cases s.speakerText with
  | none =>
    refine (yields_contentOf h).bind fun content _ => yields_ok ?_
    exact edits_speak ha none (by simp) s.contentQuoted s.statusTags content (.ofBlock i)
  | some name =>
    obtain ⟨hchar, hid⟩ := edits_character a name .sayerImplicit (.ofBlock i)
    refine (yields_contentOf h).bind fun content _ => yields_ok (hchar.trans ?_)
    exact edits_speak (hchar.changes.inRange ha) (some (a.character name .sayerImplicit (.ofBlock i)).1)
      (by simpa using hid) s.contentQuoted s.statusTags content (.ofBlock i)

theorem yields_narrate (ha : a.InRange) (b : Block) (i : Nat) :
    Yields (a.narrate b i) fun a' => Edits doc a a' := by
  unfold narrate
  refine b.text.yields_trim.bind fun content _ => yields_ok (.single (.emit _ _ ?_ trivial))
  exact fun id hid => ha.speakers id (Speakers.narration_mem _ hid)

theorem edits_displayImage (a : Assembly) (name path : String) (i : Nat) :
    Edits doc a (a.displayImage name path i) := by
  refine .tail (.single (.addImage name path)) (.emit _ _ (Action.namesBelow_of_eq_nil rfl _) ?_)
  exact List.mem_map.2 ⟨_, List.mem_append_right _ List.mem_cons_self, rfl⟩

theorem edits_display (a : Assembly) (b : Block) (i : Nat) : Edits doc a (a.display b i) := by
  unfold display
  split
  · split
    · exact edits_displayImage a _ _ i
    · exact edits_displayImage a _ _ i
  · exact edits_foldl (fun a path => edits_displayImage a _ path i) _ a

/-! ### Documents -/

theorem yields_item {d : Document} {limit : Nat} {it : Item} (ha : a.InRange)
    (hit : it.InDocument d limit) (hverbatim : it.content = .verbatim →
      ∀ b, d.blocks[it.block]? = some b → b.GoesVerbatim) :
    Yields (item d a it) fun a' => Edits d a a' := by
  obtain ⟨b, hb, hsay⟩ := hit
  rcases it with ⟨block, content⟩
  unfold item
  rw [hb]
  cases content with
  | commands cs => exact yields_ok (edits_foldl (fun a c => edits_command a c _) _ a)
  | say s =>
    have hfits := SayLine.fits_of_ofLine? (hsay s rfl)
    dsimp only
    split
    · exact yields_ok .refl
    · refine yields_say ha block fun f hf => ?_
      simpa [Block.plain, StyledText.plain] using hfits f (List.mem_append_right _ hf)
  | narration =>
    dsimp only
    split
    · exact yields_ok .refl
    · exact yields_narrate ha b block
  | verbatim =>
    dsimp only
    split
    · exact yields_ok .refl
    · refine yields_ok (.single (.emit _ _ (Action.namesBelow_of_eq_nil rfl _) ?_))
      exact ⟨b, List.mem_of_getElem? hb, hverbatim rfl b hb, rfl⟩
  | display =>
    dsimp only
    split
    · exact yields_ok .refl
    · exact yields_ok (edits_display a b block)

/-- **Documents are put together by edits.** Every document is put together, from a fresh
assembly and by edits only. -/
theorem edits_ofDocument (s : FrontendSettings) (d : Document) :
    Yields (ofDocument s d) fun a =>
      Edits d (fresh d.title (Item.ofDocument s.maxNameChars d).diags) a := by
  unfold ofDocument
  dsimp only
  generalize hstart : fresh d.title (Item.ofDocument s.maxNameChars d).diags = start
  have hopen :
      Edits d start (defaultFunction s d (Item.ofDocument s.maxNameChars d).items start) := by
    unfold defaultFunction
    split
    · exact .refl
    · exact .single (.openFunction _ _ (by simp [← hstart, fresh]))
  have hdeclared := hopen.trans (edits_declareAll d (Item.ofDocument s.maxNameChars d).items _)
  refine yields_foldlM (fun a it hit ha => ?_) hdeclared
  have hin := ha.changes.inRange (hstart ▸ inRange_fresh _ _)
  exact (yields_item hin (Item.inDocument_ofDocument d s.maxNameChars it hit)
    (Item.goesVerbatim_ofDocument d s.maxNameChars it hit)).mono fun a' hedits => ha.trans hedits

theorem yields_ofDocument (s : FrontendSettings) (d : Document) :
    Yields (ofDocument s d) fun a =>
      Changes (fresh d.title (Item.ofDocument s.maxNameChars d).diags) a :=
  (edits_ofDocument s d).mono fun _ h => h.changes

end Assembly
end Manuscript
