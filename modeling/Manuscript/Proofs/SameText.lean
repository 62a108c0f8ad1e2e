/-
# Styles do not change what a document means

Documents with the same text compile to the same reports, the same transcript and,
up to the styles of what is said, the same program (`compile_sameText`). Each stage
commutes with erasing styles, so what two such documents compile to is equal once
the styles are erased.

What a line of the program says is told by the plain text of its block alone: the
parts that were found to be its content, one after the other and trimmed, or the
trimmed line if it is narration. The steps of an assembly are those that its items
gave, and a command gives no line (`Assembly.says_of_ofDocument`).

Key definitions: `Block.Says`, `Document.Says`, `Assembly.Says`.
Key theorems: `Item.Gives.saidIn`, `Assembly.Says.item`, `Assembly.says_of_ofDocument`,
`compile_eq_ok`, `says_of_compile`, `compile_sameText`.
-/
import Manuscript.Proofs.Assembly.Unstyled
import Manuscript.Proofs.Stage.Unstyled
import Manuscript.Proofs.Total

namespace Manuscript

/-! ### What a line says -/

/-- The content is what the block says: if its text is a spoken line, the parts of the plain text
that are the line's content, one after the other and trimmed; if it is narration, the trimmed
plain text. -/
def Block.Says (b : Block) (i limit : Nat) (content : StyledText) : Prop :=
  (∃ s, (Line.read b.plain i limit).1 = .say s ∧ content.plain =
    String.ofList (Text.trim (s.content.flatMap fun f => Text.slice b.plain.toList f.span))) ∨
  ((Line.read b.plain i limit).1 = .narration ∧ content.plain = Text.trimmed b.plain)

/-- The content is what the block at a place of the document says. -/
def Document.Says (d : Document) (limit : Nat) (loc : Loc) (content : StyledText) : Prop :=
  ∃ i b, d.blocks[i]? = some b ∧ loc = .ofBlock i ∧ b.Says i limit content

/-- The step is no line, or one that the document says. -/
def Op.SaidIn (op : Op) (d : Document) (limit : Nat) : Prop :=
  ∀ speaker status content, op.step = .act (.say speaker status content) →
    d.Says limit op.loc content

theorem Op.saidIn_of_silent {op : Op} (h : op.step.Silent) (d : Document) (limit : Nat) :
    op.SaidIn d limit := by
  intro speaker status content hstep
  rw [hstep] at h
  exact absurd h not_false

namespace Item

variable {d : Document} {limit : Nat} {it : Item} {ops : List Op}

/-- A line of the document is read as what its item carries. -/
theorem read_ofDocument (d : Document) (limit : Nat) : ∀ it ∈ (ofDocument limit d).items,
    ∃ b, d.blocks[it.block]? = some b ∧
      (∀ s, it.content = .say s → (Line.read b.plain it.block limit).1 = .say s) ∧
      (it.content = .narration → (Line.read b.plain it.block limit).1 = .narration) := by
  refine forall_ofDocument ?_ ?_
  · rintro a block cs ⟨b, hb, -⟩
    exact ⟨b, hb, by simp, by simp⟩
  · intro i b hb _ content hcontent
    refine ⟨b, hb, ?_⟩
    cases (carries_of_ofBlock? hcontent).2 with
    | say hread => exact ⟨fun s hs => by cases hs; exact hread, by simp⟩
    | narration hread => exact ⟨by simp, fun _ => hread⟩
    | _ => simp

/-- **The lines that an item gives are what its block says.** -/
theorem Gives.saidIn (h : it.Gives d ops) (hit : it ∈ (ofDocument limit d).items) :
    ∀ op ∈ ops, op.SaidIn d limit := by
  obtain ⟨b, hb, hsay, hnarration⟩ := read_ofDocument d limit it hit
  have hsource : it.source d = b := by rw [source, hb]; rfl
  cases h with
  | @say block s content speaker hcontent =>
    have hfits := Assembly.fits_of_mem_items hit rfl
    have hplain := Assembly.plainChars_of_contentOf hfits hcontent
    rw [hsource] at hplain
    rw [List.forall_mem_singleton]
    rintro _ _ _ ⟨⟩
    refine ⟨block, b, hb, rfl, .inl ⟨s, hsay s rfl, ?_⟩⟩
    rw [StyledText.plain, hplain, Block.plain, StyledText.plain, String.toList_ofList]
  | @narration block content speaker hcontent =>
    rw [hsource] at hcontent
    have hplain := StyledText.plainChars_of_trim hcontent
    rw [List.forall_mem_singleton]
    rintro _ _ _ ⟨⟩
    refine ⟨block, b, hb, rfl, .inr ⟨hnarration rfl, ?_⟩⟩
    rw [StyledText.plain, hplain, Text.trimmed, Block.plain, StyledText.plain, String.toList_ofList]
  | verbatim =>
    rw [List.forall_mem_singleton]
    rintro _ _ _ ⟨⟩
  | display _ hops =>
    intro op hop
    obtain ⟨-, image, hstep⟩ := hops op hop
    exact Op.saidIn_of_silent (by rw [hstep]; trivial) d limit

end Item

namespace Assembly

variable {d : Document} {limit : Nat} {a b : Assembly}

/-- Every line of the assembly is one that the document says. -/
def Says (a : Assembly) (d : Document) (limit : Nat) : Prop :=
  ∀ p ∈ a.procedures, ∀ op ∈ p.ops, op.SaidIn d limit

theorem Says.of_adds {ops : List Op} (ha : a.Says d limit) (h : Adds ops a b)
    (hops : ∀ op ∈ ops, op.SaidIn d limit) : b.Says d limit := by
  intro p hp op hop
  rw [h.procedures] at hp
  unfold addOps at hp
  split at hp
  · rcases mem_of_mem_modify hp with hp | ⟨q, hq, rfl⟩
    · exact ha p hp op hop
    · rcases List.mem_append.1 hop with hop | hop
      · exact ha q hq op hop
      · exact hops op hop
  · exact ha p hp op hop

theorem Says.command (ha : a.Says d limit) (c : Command) (media : List Media) :
    (a.command c media).Says d limit := by
  by_cases hkind : CommandKind.lookup? c.name = some .function
  · rw [command_of_function hkind]
    unfold functionCommand
    split
    · exact ha
    · split
      · exact ha
      · intro p hp
        rcases List.mem_append.1 hp with hp | hp
        · exact ha p hp
        · rw [List.mem_singleton.1 hp]
          simp
  · obtain ⟨ops, hsilent, hadds⟩ := adds_command (a := a) hkind media
    exact ha.of_adds hadds fun op hop => Op.saidIn_of_silent (hsilent op hop) d limit

theorem Says.commands (media : List Media) : ∀ (cs : List Command) {a : Assembly}, a.Says d limit →
    (cs.foldl (fun a c => a.command c media) a).Says d limit
  | [], _, ha => ha
  | c :: cs, _, ha => by
    rw [List.foldl_cons]
    exact Says.commands media cs (ha.command c media)

theorem Says.item {it : Item} (ha : a.Says d limit) (hit : it ∈ (Item.ofDocument limit d).items)
    (h : item d a it = .ok b) : b.Says d limit := by
  rcases item_cases h with ⟨cs, -, rfl⟩ | ⟨-, ⟨-, rfl⟩ | ⟨ops, hadds, hgives⟩⟩
  · exact Says.commands _ _ ha
  · exact ha
  · exact ha.of_adds hadds (hgives.saidIn hit)

/-- **Every line of an assembly is one that the document says.** -/
theorem says_of_ofDocument {s : FrontendSettings} (h : ofDocument s d = .ok a) :
    a.Says d s.maxNameChars := by
  have hstart : (declareAll d (Item.ofDocument s.maxNameChars d).items (defaultFunction s d
      (Item.ofDocument s.maxNameChars d).items
      (fresh d.title (Item.ofDocument s.maxNameChars d).diags))).Says d s.maxNameChars := by
    refine Says.of_adds ?_ (adds_declareAll d _ _) (by simp)
    unfold defaultFunction
    split <;> simp [Says, fresh, openFunction]
  have hstep : ∀ a, ∀ it ∈ (Item.ofDocument s.maxNameChars d).items, ∀ b, item d a it = .ok b →
      a.Says d s.maxNameChars → b.Says d s.maxNameChars :=
    fun a it hit b hitem ha => ha.item hit hitem
  exact of_foldlM (P := (·.Says d s.maxNameChars)) hstep h hstart

end Assembly

/-! ### Compiling -/

/-- What a document compiles to, stage by stage. -/
theorem compile_eq_ok {d : Document} {s : Settings} {r : Compiled} (h : compile d s = .ok r) :
    ∃ a g, Assembly.ofDocument s.frontend d = .ok a ∧
      r.program = { a.program with functions := (FlowGraph.build a.procedures).1 } ∧
      generate r.program s.codegen = .ok g ∧
      Transcript.of r.program s.frontend.narratorName = .ok r.transcript ∧
      r.diags = a.diags ++ (FlowGraph.build a.procedures).2 ++ g.diags := by
  obtain ⟨⟨program, lowering⟩, hlower, h⟩ := bind_eq_ok.1 h
  obtain ⟨⟨script, generation⟩, hscript, h⟩ := bind_eq_ok.1 h
  obtain ⟨transcript, htranscript, h⟩ := bind_eq_ok.1 h
  cases h
  obtain ⟨a, ha, hlower⟩ := bind_eq_ok.1 hlower
  cases hlower
  obtain ⟨g, hg, hscript⟩ := bind_eq_ok.1 hscript
  obtain ⟨text, -, hscript⟩ := bind_eq_ok.1 hscript
  cases hscript
  exact ⟨a, g, ha, rfl, hg, htranscript, rfl⟩

theorem build_unstyled_procedures (a : Assembly) : FlowGraph.build a.unstyled.procedures =
    ((FlowGraph.build a.procedures).1.map FlowGraph.unstyled, (FlowGraph.build a.procedures).2) :=
  FlowGraph.build_unstyled a.procedures

/-- Cutting procedures into blocks reports the same without styles. -/
theorem diags_build_unstyled (a : Assembly) :
    (FlowGraph.build a.unstyled.procedures).2 = (FlowGraph.build a.procedures).2 := by
  rw [build_unstyled_procedures]

/-- The program of an assembly without styles is its program without styles. -/
theorem program_unstyled (a : Assembly) :
    { a.unstyled.program with functions := (FlowGraph.build a.unstyled.procedures).1 } =
      { a.program with functions := (FlowGraph.build a.procedures).1 }.unstyled := by
  rw [build_unstyled_procedures]
  rfl

/-- Every line of a program says what its block says. -/
theorem says_of_compile {d : Document} {s : Settings} {r : Compiled} (h : compile d s = .ok r) :
    ∀ f ∈ r.program.functions, ∀ b ∈ f.blocks, ∀ i ∈ b.insts, ∀ speaker status content,
      i.action = .say speaker status content → d.Says s.frontend.maxNameChars i.loc content := by
  obtain ⟨a, g, ha, hprogram, -⟩ := compile_eq_ok h
  intro f hf b hb i hi speaker status content haction
  rw [hprogram] at hf
  obtain ⟨p, hp, rfl⟩ := FlowGraph.exists_of_mem_build hf
  have hop : ⟨.act i.action, i.loc⟩ ∈ p.ops := FlowGraph.mem_ops_of_mem_blocks hb hi
  exact Assembly.says_of_ofDocument ha p hp _ hop speaker status content (congrArg Step.act haction)

/-- **Styles do not change what a document means.** Documents that differ only in how their
paragraphs are split into runs and in the styles of the runs compile to the same reports, the same
transcript, and the same program once styles are erased. Every line of the program says what the
plain text of its block says: the parts that are the content of a spoken line, or the narrated line,
trimmed. -/
theorem compile_sameText (d e : Document) (s : Settings) (h : d.SameText e) :
    ∃ r r', compile d s = .ok r ∧ compile e s = .ok r' ∧ r.diags = r'.diags ∧
      r.transcript = r'.transcript ∧ r.program.unstyled = r'.program.unstyled ∧
      ∀ f ∈ r.program.functions, ∀ b ∈ f.blocks, ∀ i ∈ b.insts, ∀ speaker status content,
        i.action = .say speaker status content → d.Says s.frontend.maxNameChars i.loc content := by
  obtain ⟨r, hr, -⟩ := yields_compile d s
  obtain ⟨r', hr', -⟩ := yields_compile e s
  obtain ⟨a, g, ha, hprogram, hg, htranscript, hdiags⟩ := compile_eq_ok hr
  obtain ⟨a', g', ha', hprogram', hg', htranscript', hdiags'⟩ := compile_eq_ok hr'
  have hassembly := Assembly.unstyled_of_ofDocument h s.frontend ha ha'
  have hunstyled : r.program.unstyled = r'.program.unstyled := by
    rw [hprogram, hprogram', ← program_unstyled, ← program_unstyled, hassembly]
  refine ⟨r, r', hr, hr', ?_, ?_, hunstyled, says_of_compile hr⟩
  · -- Each stage reports the same: none of them reads a style.
    have hreading : a.diags = a'.diags := by
      have h := congrArg Assembly.diags hassembly
      exact h
    have hcutting : (FlowGraph.build a.procedures).2 = (FlowGraph.build a'.procedures).2 := by
      rw [← diags_build_unstyled a, hassembly, diags_build_unstyled]
    have hgenerating : g.diags = g'.diags := by
      have h := congrArg (generate · s.codegen) hunstyled
      rw [generate_unstyled, generate_unstyled, hg, hg'] at h
      have h := congrArg Generated.diags (Except.ok.inj h)
      exact h
    rw [hdiags, hdiags', hreading, hcutting, hgenerating]
  · have h := congrArg (Transcript.of · s.frontend.narratorName) hunstyled
    rw [Transcript.of_unstyled, Transcript.of_unstyled, htranscript, htranscript'] at h
    exact Except.ok.inj h

/-- A greeting with a word in bold type, split in the middle of the speaker's name. -/
def boldGreeting : Document :=
  ⟨"T", [.ofRuns [⟨"Al", .plain⟩, ⟨"ice: hi ", .plain⟩, ⟨"there ", ⟨true, false, none⟩⟩]]⟩

theorem compile_sameText_boldGreeting : ∃ r r', compile boldGreeting {} = .ok r ∧
    compile ⟨"T", [.ofString "Alice: hi there "]⟩ {} = .ok r' ∧ r.diags = r'.diags ∧
    r.transcript = r'.transcript ∧ r.program.unstyled = r'.program.unstyled := by
  have hsame : boldGreeting.SameText ⟨"T", [.ofString "Alice: hi there "]⟩ :=
    ⟨rfl, .cons ⟨by decide +kernel, rfl, rfl, rfl⟩ .nil⟩
  obtain ⟨r, r', hr, hr', hdiags, htranscript, hprogram, -⟩ :=
    compile_sameText boldGreeting ⟨"T", [.ofString "Alice: hi there "]⟩ {} hsame
  exact ⟨r, r', hr, hr', hdiags, htranscript, hprogram⟩

end Manuscript
