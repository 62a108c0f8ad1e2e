/-
# Styles do not reach the assembly

Two documents have the same text if they differ only in how their paragraphs are
split into runs and in the styles of the runs (`Document.SameText`). Their items are
the same, since lines are read from the plain text, and putting them together does
the same at every item, up to the styles of what is said: commands read no steps,
and the contents that are cut out of the blocks have the same plain text
(`Assembly.unstyled_of_ofDocument`).

Key definitions: `Block.SameText`, `Document.SameText`, `Assembly.unstyled`.
Key theorems: `Item.ofDocument_of_sameText`, `Assembly.unstyled_of_emits`,
`Assembly.command_unstyled`, `Assembly.unstyled_of_item`,
`Assembly.unstyled_of_ofDocument`.
-/
import Manuscript.Proofs.Assembly.Built
import Manuscript.Proofs.Assembly.Emitted
import Manuscript.Proofs.Flow.Unstyled
import Manuscript.Proofs.Text.Plain

namespace Manuscript

/-! ### Documents with the same text -/

/-- The blocks differ only in the runs of their text. -/
structure Block.SameText (b c : Block) : Prop where
  plain : b.plain = c.plain
  paragraph : b.paragraph = c.paragraph
  attachment : b.attachment = c.attachment
  media : b.media = c.media

/-- The documents differ only in the runs of their paragraphs. -/
structure Document.SameText (d e : Document) : Prop where
  title : d.title = e.title
  blocks : List.Forall₂ Block.SameText d.blocks e.blocks

namespace Block.SameText

variable {b c : Block}

theorem refl (b : Block) : b.SameText b := ⟨rfl, rfl, rfl, rfl⟩

theorem plainChars (h : b.SameText c) : b.text.plainChars = c.text.plainChars := by
  simpa [Block.plain, StyledText.plain] using congrArg String.toList h.plain

theorem ofBlock? (h : b.SameText c) (limit i : Nat) :
    Item.ofBlock? limit i b = Item.ofBlock? limit i c := by
  unfold Item.ofBlock? Block.isBlank Block.isVerbatim Block.isDisplay
  rw [h.plain, h.paragraph, h.attachment, h.media]

theorem step (h : b.SameText c) (limit : Nat) (r : Item.Reading) (i : Nat) :
    r.step limit b i = r.step limit c i := by
  unfold Item.Reading.step
  rw [h.attachment, h.ofBlock?]

end Block.SameText

namespace Document.SameText

variable {d e : Document}

/-- Blocks in the same place have the same text, or there are none. -/
theorem getElem? (h : d.SameText e) (i : Nat) : (d.blocks[i]? = none ∧ e.blocks[i]? = none) ∨
    ∃ b c, d.blocks[i]? = some b ∧ e.blocks[i]? = some c ∧ b.SameText c := by
  have hblocks := h.blocks
  generalize d.blocks = bs at hblocks ⊢
  generalize e.blocks = cs at hblocks ⊢
  induction hblocks generalizing i with
  | nil => exact .inl ⟨rfl, rfl⟩
  | cons hfirst _ ih =>
    cases i with
    | zero => exact .inr ⟨_, _, rfl, rfl, hfirst⟩
    | succ i => exact ih i

theorem source (h : d.SameText e) (it : Item) : (it.source d).SameText (it.source e) := by
  unfold Item.source
  rcases h.getElem? it.block with ⟨hd, he⟩ | ⟨b, c, hd, he, hsame⟩
  · rw [hd, he]
    exact .refl _
  · rw [hd, he]
    exact hsame

theorem mediaOf (h : d.SameText e) (block : Nat) :
    Assembly.mediaOf d block = Assembly.mediaOf e block := by
  unfold Assembly.mediaOf
  rcases h.getElem? block with ⟨hd, he⟩ | ⟨b, c, hd, he, hsame⟩
  · rw [hd, he]
  · rw [hd, he, Option.map_some, Option.map_some, hsame.media]

end Document.SameText

/-- **Documents with the same text have the same items**, and the same reports of reading them. -/
theorem Item.ofDocument_of_sameText {d e : Document} (h : d.SameText e) (limit : Nat) :
    ofDocument limit d = ofDocument limit e := by
  have key : ∀ {bs cs : List Block} (n : Nat) (r : Reading), List.Forall₂ Block.SameText bs cs →
      (bs.zipIdx n).foldl (fun r x => r.step limit x.1 x.2) r =
        (cs.zipIdx n).foldl (fun r x => r.step limit x.1 x.2) r := by
    intro bs cs n r hsame
    induction hsame generalizing n r with
    | nil => rfl
    | cons hfirst _ ih =>
      rw [List.zipIdx_cons, List.zipIdx_cons, List.foldl_cons, List.foldl_cons]
      dsimp only
      rw [hfirst.step]
      exact ih _ _
  exact key 0 ⟨[], []⟩ h.blocks

namespace Assembly

/-! ### Erasing styles -/

/-- The assembly without styles. -/
def unstyled (a : Assembly) : Assembly :=
  a.withCode (a.procedures.map Procedure.unstyled) a.current

theorem map_unstyled_addOps (cur : Option FunctionId) (ops : List Op) (ps : List Procedure) :
    (addOps cur ops ps).map Procedure.unstyled =
      addOps cur (ops.map Op.unstyled) (ps.map Procedure.unstyled) :=
  map_addOps (fun p ops => by simp [Procedure.unstyled]) cur ops ps

/-- What is no line has no style. -/
theorem map_unstyled_of_silent {ops : List Op} (h : ∀ op ∈ ops, op.step.Silent) :
    ops.map Op.unstyled = ops := by
  have hop : ∀ op ∈ ops, op.unstyled = id op := by
    rintro ⟨step, loc⟩ hmem
    have hsilent := h _ hmem
    cases step with
    | act action =>
      cases action with
      | say speaker status content => exact absurd hsilent not_false
      | _ => rfl
    | _ => rfl
  rw [List.map_congr_left hop, List.map_id]

variable {a b : Assembly}

/-- **What adds steps that are no lines does the same without styles.** -/
theorem unstyled_of_emits {f : Assembly → Assembly} {ops : List Op}
    (hsilent : ∀ op ∈ ops, op.step.Silent)
    (h : ∀ ps, f (a.withCode ps a.current) = (f a).withCode (addOps a.current ops ps) a.current) :
    f a.unstyled = (f a).unstyled := by
  have ha := h a.procedures
  rw [withCode_self] at ha
  have hprocedures : (f a).procedures = addOps a.current ops a.procedures := by rw [ha]; rfl
  have hcurrent : (f a).current = a.current := by rw [ha]; rfl
  rw [unstyled, h, unstyled, hprocedures, hcurrent, map_unstyled_addOps, map_unstyled_of_silent hsilent]

theorem functionCommand_unstyled (a : Assembly) (c : Command) :
    a.unstyled.functionCommand c = (a.functionCommand c).unstyled := by
  have hany : ∀ name, a.unstyled.procedures.any (·.name == name) = a.procedures.any (·.name == name) :=
    fun name => List.any_map ..
  unfold functionCommand
  cases c.positionalText "name" with
  | error d => rfl
  | ok name =>
    dsimp only
    rw [hany]
    split
    · rfl
    · simp [openFunction, unstyled, withCode, Procedure.unstyled]

theorem command_unstyled (a : Assembly) (c : Command) (media : List Media) :
    a.unstyled.command c media = (a.command c media).unstyled := by
  by_cases hkind : CommandKind.lookup? c.name = some .function
  · rw [command_of_function hkind, command_of_function hkind, functionCommand_unstyled]
  · obtain ⟨ops, hsilent, hops⟩ := exists_command_withCode (a := a) hkind media
    exact unstyled_of_emits (f := fun a => a.command c media) hsilent fun ps => hops ps a.current rfl

theorem commands_unstyled (media : List Media) : ∀ (cs : List Command) (a : Assembly),
    cs.foldl (fun a c => a.command c media) a.unstyled =
      (cs.foldl (fun a c => a.command c media) a).unstyled
  | [], _ => rfl
  | c :: cs, a => by rw [List.foldl_cons, List.foldl_cons, command_unstyled, commands_unstyled media cs]

theorem emit_unstyled (a : Assembly) (step : Step) (loc : Loc) :
    (a.emit step loc).unstyled = a.unstyled.emit step.unstyled loc := by
  rw [emit_eq, unstyled, procedures_withCode, current_withCode, withCode_withCode, map_unstyled_addOps,
    unstyled, emit_withCode]
  rfl

theorem spoken_unstyled (a : Assembly) (s : SayLine) (i : Nat) :
    a.unstyled.spoken s i = ((a.spoken s i).1, (a.spoken s i).2.unstyled) := by
  have hadds := adds_spoken a s i
  rw [unstyled, spoken_withCode, unstyled, hadds.procedures, hadds.current, addOps_nil]

theorem display_unstyled (a : Assembly) (b : Block) (i : Nat) :
    a.unstyled.display b i = (a.display b i).unstyled := by
  obtain ⟨ops, -, hops, hemits⟩ := exists_emits_display a b i
  have hsilent : ∀ op ∈ ops, op.step.Silent := by
    intro op hop
    obtain ⟨-, image, hstep⟩ := hops op hop
    rw [hstep]
    trivial
  exact unstyled_of_emits (f := fun a => a.display b i) hsilent fun ps => hemits ps a.current

/-! ### Items -/

theorem display_of_sameText {b c : Block} (h : b.SameText c) (a : Assembly) (i : Nat) :
    a.display b i = a.display c i := by
  unfold display captionOf Block.imagePaths
  rw [h.media, h.plainChars]

theorem unstyled_eq_of_plainChars {t u : StyledText} (h : t.plainChars = u.plainChars) :
    t.unstyled = u.unstyled := by
  rw [StyledText.unstyled, StyledText.unstyled, StyledText.plain, StyledText.plain, h]

variable {d e : Document} {it : Item} {a' b' : Assembly}

/-- A line does the same in documents with the same text, up to styles. -/
theorem unstyled_of_line (hsame : d.SameText e) (hab : a.unstyled = b.unstyled)
    (hcommands : it.isCommands = false) (hit : ∀ s, it.content = .say s →
      ∀ f ∈ s.content, Text.Fits (it.source d).text.plainChars f.span)
    (hanone : ¬ a.current.isNone = true) (hbnone : ¬ b.current.isNone = true)
    (ha : item d a it = .ok a') (hb : item e b it = .ok b') : a'.unstyled = b'.unstyled := by
  have hsource := hsame.source it
  rcases it with ⟨block, content⟩
  unfold item at ha hb
  cases content with
  | commands cs => simp [Item.isCommands] at hcommands
  | say s =>
    dsimp only at ha hb
    rw [if_neg hanone, say_eq, bind_eq_ok] at ha
    rw [if_neg hbnone, say_eq, bind_eq_ok] at hb
    obtain ⟨content, hcontent, ⟨⟩⟩ := ha
    obtain ⟨content', hcontent', ⟨⟩⟩ := hb
    have hfits := hit s rfl
    have hplain := plainChars_of_contentOf hfits hcontent
    have hplain' := plainChars_of_contentOf (hsource.plainChars ▸ hfits) hcontent'
    rw [hsource.plainChars] at hplain
    have hunstyled := unstyled_eq_of_plainChars (hplain.trans hplain'.symm)
    have hspoken : a.unstyled.spoken s block = b.unstyled.spoken s block := by rw [hab]
    rw [spoken_unstyled, spoken_unstyled] at hspoken
    obtain ⟨hspeaker, hrest⟩ := Prod.mk.inj hspoken
    rw [emit_unstyled, emit_unstyled, hrest, hspeaker]
    simp only [Step.unstyled, Action.unstyled, hunstyled]
  | narration =>
    dsimp only at ha hb
    rw [if_neg hanone, narrate_eq, bind_eq_ok] at ha
    rw [if_neg hbnone, narrate_eq, bind_eq_ok] at hb
    obtain ⟨content, hcontent, ⟨⟩⟩ := ha
    obtain ⟨content', hcontent', ⟨⟩⟩ := hb
    have hplain := StyledText.plainChars_of_trim hcontent
    have hplain' := StyledText.plainChars_of_trim hcontent'
    have hunstyled : content.unstyled = content'.unstyled := by
      refine unstyled_eq_of_plainChars ?_
      rw [hplain, hplain']
      exact congrArg Text.trim hsource.plainChars
    have hspeakers : a.unstyled.speakers = b.unstyled.speakers := by rw [hab]
    change a.speakers = b.speakers at hspeakers
    rw [emit_unstyled, emit_unstyled, hab, hspeakers]
    simp only [Step.unstyled, Action.unstyled, hunstyled]
  | verbatim =>
    dsimp only at ha hb
    rw [if_neg hanone] at ha
    rw [if_neg hbnone] at hb
    cases ha
    cases hb
    rw [emit_unstyled, emit_unstyled, hab]
    exact congrArg (fun text => b.unstyled.emit (.act (.verbatim text)) (.ofBlock block)) hsource.plain
  | display =>
    dsimp only at ha hb
    rw [if_neg hanone] at ha
    rw [if_neg hbnone] at hb
    cases ha
    cases hb
    rw [← display_unstyled, ← display_unstyled, hab]
    exact display_of_sameText hsource b.unstyled block

/-- **An item does the same in documents with the same text**, up to styles. -/
theorem unstyled_of_item (hsame : d.SameText e) (hab : a.unstyled = b.unstyled)
    (hit : ∀ s, it.content = .say s →
      ∀ f ∈ s.content, Text.Fits (it.source d).text.plainChars f.span)
    (ha : item d a it = .ok a') (hb : item e b it = .ok b') : a'.unstyled = b'.unstyled := by
  have hcurrent : a.unstyled.current = b.unstyled.current := by rw [hab]
  change a.current = b.current at hcurrent
  cases hcommands : it.isCommands with
  | true =>
    obtain ⟨cs, hcs⟩ := Item.exists_commands hcommands
    rw [item_of_commands hcs] at ha hb
    cases ha
    cases hb
    rw [← commands_unstyled, ← commands_unstyled, hab, (hsame.source it).media]
  | false =>
    by_cases hnone : b.current = none
    · rw [item_of_current_none hcommands (hcurrent.trans hnone)] at ha
      rw [item_of_current_none hcommands hnone] at hb
      cases ha
      cases hb
      exact hab
    · have hbnone : ¬ b.current.isNone = true := by simpa using hnone
      exact unstyled_of_line hsame hab hcommands hit (hcurrent ▸ hbnone) hbnone ha hb

theorem unstyled_of_items (hsame : d.SameText e) : ∀ {items : List Item} {a b : Assembly},
    a.unstyled = b.unstyled → (∀ it ∈ items, ∀ s, it.content = .say s →
      ∀ f ∈ s.content, Text.Fits (it.source d).text.plainChars f.span) →
    items.foldlM (item d) a = .ok a' → items.foldlM (item e) b = .ok b' → a'.unstyled = b'.unstyled
  | [], _, _, hab, _, ha, hb => by
    cases ha
    cases hb
    exact hab
  | it :: items, a, b, hab, hfits, ha, hb => by
    rw [List.foldlM_cons, bind_eq_ok] at ha hb
    obtain ⟨a₁, hfirst, ha⟩ := ha
    obtain ⟨b₁, hfirst', hb⟩ := hb
    obtain ⟨hit, hrest⟩ := List.forall_mem_cons.1 hfits
    exact unstyled_of_items hsame (unstyled_of_item hsame hab hit hfirst hfirst') hrest ha hb

/-! ### Documents -/

theorem declareAll_of_sameText (h : d.SameText e) (items : List Item) (a : Assembly) :
    declareAll d items a = declareAll e items a := by
  have hstage : sceneryStage d = sceneryStage e := by
    funext a c
    unfold sceneryStage
    rw [h.mediaOf]
  unfold declareAll
  rw [hstage]

theorem defaultFunction_of_sameText (h : d.SameText e) (s : FrontendSettings) (items : List Item)
    (a : Assembly) : defaultFunction s d items a = defaultFunction s e items a := by
  unfold defaultFunction
  rw [h.title]

/-- The fields of a spoken line lie in the text of its block. -/
theorem fits_of_mem_items {limit : Nat} (hit : it ∈ (Item.ofDocument limit d).items) {s : SayLine}
    (hs : it.content = .say s) : ∀ f ∈ s.content, Text.Fits (it.source d).text.plainChars f.span := by
  obtain ⟨b, hb, hsay⟩ := Item.inDocument_ofDocument d limit it hit
  intro f hf
  have hfits := SayLine.fits_of_ofLine? (hsay s hs) f (List.mem_append_right _ hf)
  rw [Item.source, hb]
  simpa [Block.plain, StyledText.plain] using hfits

/-- **Documents with the same text are put together in the same way**, up to styles. -/
theorem unstyled_of_ofDocument (h : d.SameText e) (s : FrontendSettings)
    (ha : ofDocument s d = .ok a) (hb : ofDocument s e = .ok b) : a.unstyled = b.unstyled := by
  unfold ofDocument at ha hb
  dsimp only at ha hb
  rw [← Item.ofDocument_of_sameText h, ← declareAll_of_sameText h, ← defaultFunction_of_sameText h,
    ← h.title] at hb
  exact unstyled_of_items h rfl (fun it hit s hs => fits_of_mem_items hit hs) ha hb

end Assembly
end Manuscript
