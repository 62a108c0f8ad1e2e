/-
# Every document compiles

Compiling has a result for every document and all settings. Each stage could fault
on a value made by hand, but none does on what the stage before it hands over:

* what is cut out of a text lies between characters of it, also in styled text;
* the assembly is made by changes that name only what is there, and names only
  characters and functions that it has;
* the graphs are well formed, so the program names only its own characters,
  functions and blocks;
* the generated code names no more than the program, has a patch for every edge and
  a list of patches for every arm;
* the names of the script cover the characters and the functions.

Key definitions: `Compiled.InBounds`, `Program.Stages`.
Key theorems: `Assembly.InRange.inRange_program`, `yields_lower`,
`Transcript.yields_of`, `compile_total`, `yields_stages`, `yields_compile`.
-/
import Manuscript.Compile
import Manuscript.Proofs.Assembly.Built
import Manuscript.Proofs.Script.Total

namespace Manuscript

/-! ### Transcripts -/

namespace Transcript

theorem yields_lineOf {p : Program} {i : Inst} (hi : i.action.NamesBelow p.characters.length)
    (narrator : String) (f : FlowGraph) (b : BasicBlock) :
    Yields (lineOf p narrator f b i) fun _ => True := by
  unfold lineOf
  split
  · exact yields_ok trivial
  · rename_i id _ _ haction
    have hid : id < p.characters.length := hi id (by simp [haction, Action.characters])
    exact (Program.yields_character hid).bind fun _ _ => yields_ok trivial
  · exact yields_ok trivial

theorem yields_of {p : Program} (hp : p.CharactersInRange) (narrator : String) :
    Yields (Transcript.of p narrator) fun _ => True := by
  have hblock : ∀ f ∈ p.functions, ∀ b ∈ f.blocks,
      Yields (blockLines p narrator f b) fun _ => True := fun f hf b hb =>
    (yields_mapM fun i hi => yields_lineOf (hp f hf b hb i hi) narrator f b).bind
      fun _ _ => yields_ok trivial
  exact (yields_mapM fun f hf => yields_mapM (hblock f hf)).bind fun _ _ => yields_ok trivial

end Transcript

/-! ### Programs -/

/-- The program of an assembly that names only what is there does so too. -/
theorem Assembly.InRange.inRange_program {a : Assembly} (h : a.InRange) :
    { a.program with functions := (FlowGraph.build a.procedures).1 }.InRange := by
  have hlength : (FlowGraph.build a.procedures).1.length = a.procedures.length := by
    simp [FlowGraph.build]
  intro f hf
  have hin := FlowGraph.inRange_of_mem_build h.ops f hf
  rw [← hlength] at hin
  exact hin

theorem yields_lower (d : Document) (s : Settings) :
    Yields (lower d s) fun r => ∃ a, Assembly.ofDocument s.frontend d = .ok a ∧
      Assembly.Changes (.fresh d.title (Item.ofDocument s.frontend.maxNameChars d).diags) a ∧
      a.InRange ∧ r.1 = { a.program with functions := (FlowGraph.build a.procedures).1 } := by
  obtain ⟨a, ha, hchanges⟩ := Assembly.yields_ofDocument s.frontend d
  have hin := hchanges.inRange (Assembly.inRange_fresh _ _)
  have hlower : lower d s = .ok ({ a.program with functions := (FlowGraph.build a.procedures).1 },
      a.diags ++ (FlowGraph.build a.procedures).2) := by
    rw [lower, ha]
    rfl
  exact ⟨_, hlower, a, ha, hchanges, hin, rfl⟩

/-! ### Documents -/

/-- All that compiling a document cuts and looks up is there; `a` is the assembly of the
document and `g` the generated code of its program. -/
structure Compiled.InBounds (d : Document) (s : Settings) (a : Assembly) (g : Generated)
    (c : Compiled) : Prop where
  cuts : ∀ b ∈ d.blocks, Line.Cuts b.plain s.frontend.maxNameChars
  /-- The parts of a spoken line can be cut out of the styled text too. -/
  styled : ∀ b ∈ d.blocks, ∀ l, SayLine.ofLine? b.plain s.frontend.maxNameChars = some l →
    ∀ f ∈ l.fields, ∃ part, b.text.slice f.span = .ok part
  items : ∀ it ∈ (Item.ofDocument s.frontend.maxNameChars d).items,
    it.InDocument d s.frontend.maxNameChars
  changes : Assembly.Changes (.fresh d.title (Item.ofDocument s.frontend.maxNameChars d).diags) a
  assembly : a.InRange
  lowered : c.program = { a.program with functions := (FlowGraph.build a.procedures).1 }
  program : c.program.InRange
  /-- Every function was visited block by block. -/
  visits : List.Forall₂ (fun f code => ∃ visits,
    Generate.Visited c.program s.codegen.reentrantShow f code visits ∧
      Generate.Grounded c.program f code visits) c.program.functions g.functions
  code : ∀ f ∈ g.functions, f.InRange c.program.characters.length c.program.functions.length
  names : (Script.Names.of c.program g).Covers c.program.characters.length
    c.program.functions.length

/-- **Every document compiles.** There is a result for every document and all settings, and
nothing is cut or looked up on the way that is not there. -/
theorem compile_total (d : Document) (s : Settings) :
    ∃ c, compile d s = .ok c ∧ ∃ a g, Assembly.ofDocument s.frontend d = .ok a ∧
      generate c.program s.codegen = .ok g ∧ c.InBounds d s a g := by
  obtain ⟨⟨p, lowering⟩, hlower, a, ha, hchanges, hin, hprogram⟩ := yields_lower d s
  have hp : p.InRange := by
    rw [show p = _ from hprogram]
    exact hin.inRange_program
  obtain ⟨g, hg, hvisited⟩ := Generate.yields_generate hp.characters s.codegen
  have hcode := Generate.inRange_of_visited hvisited hp
  have hlength : p.functions.length = g.functions.length := hvisited.length_eq
  obtain ⟨script, hscript, -⟩ := Script.yields_emit (hlength ▸ hcode) s.codegen
  obtain ⟨transcript, htranscript, -⟩ := Transcript.yields_of hp.characters s.frontend.narratorName
  have hcompile : compile d s = .ok ⟨p, script, transcript, lowering ++ g.diags⟩ := by
    simp only [compile, hlower, Program.script, bind, Except.bind, hg, hscript, htranscript]
    rfl
  refine ⟨_, hcompile, a, g, ha, hg, ?_⟩
  exact
    { cuts := fun b _ => Line.cuts b.plain s.frontend.maxNameChars
      styled := fun b _ l hl f hf => by
        have hfits := SayLine.fits_of_ofLine? hl f hf
        rw [Block.plain, StyledText.plain, String.toList_ofList] at hfits
        obtain ⟨part, hpart, -⟩ := StyledText.yields_slice hfits
        exact ⟨part, hpart⟩
      items := Item.inDocument_ofDocument d s.frontend.maxNameChars
      changes := hchanges
      assembly := hin
      lowered := hprogram
      program := hp
      visits := hvisited.imp fun _ _ ⟨visits, h⟩ => ⟨visits, h, h.grounded⟩
      code := hcode
      names := hlength ▸ Script.Names.covers_of p g }

/-! ### The stages of compiling -/

/-- What becomes of a program that was lowered from the assembly `a`: its generated code `g`,
and the lines `ls` of its script. -/
structure Program.Stages (c : CodegenSettings) (a : Assembly) (g : Generated)
    (ls : List Script.Line) (p : Program) : Prop where
  lowered : p = { a.program with functions := (FlowGraph.build a.procedures).1 }
  generated : generate p c = .ok g
  visited : List.Forall₂ (fun f code => ∃ visits, Generate.Visited p c.reentrantShow f code visits)
    p.functions g.functions
  code : ∀ f ∈ g.functions, f.InRange p.characters.length p.functions.length
  lines : Script.lines p g c = .ok ls

/-- The program of a document is generated and written with all settings. -/
theorem yields_stages (d : Document) (s : Settings) (c : CodegenSettings) :
    Yields (lower d s) fun r => ∃ a g ls, Assembly.ofDocument s.frontend d = .ok a ∧
      r.1.InRange ∧ r.1.Stages c a g ls := by
  refine (yields_lower d s).mono fun r hr => ?_
  obtain ⟨a, ha, -, hin, hprogram⟩ := hr
  have hp : r.1.InRange := by
    rw [hprogram]
    exact hin.inRange_program
  obtain ⟨g, hg, hvisited⟩ := Generate.yields_generate hp.characters c
  have hcode := Generate.inRange_of_visited hvisited hp
  obtain ⟨ls, hls, -⟩ := Script.yields_lines (hvisited.length_eq ▸ hcode) c
  exact ⟨a, g, ls, ha, hp, hprogram, hg, hvisited, hcode, hls⟩

/-- A document is compiled through its stages. -/
theorem yields_compile (d : Document) (s : Settings) :
    Yields (compile d s) fun c => ∃ a g ls, Assembly.ofDocument s.frontend d = .ok a ∧
      c.program.Stages s.codegen a g ls ∧
      c.script = Script.render s.codegen.indentWidth ls := by
  obtain ⟨⟨p, lowering⟩, hlower, a, g, ls, ha, hp, hstages⟩ := yields_stages d s s.codegen
  obtain ⟨transcript, htranscript, -⟩ := Transcript.yields_of hp.characters s.frontend.narratorName
  have hemit : Script.emit p g s.codegen = .ok (Script.render s.codegen.indentWidth ls) := by
    rw [Script.emit, hstages.lines]
    rfl
  have hcompile : compile d s =
      .ok ⟨p, Script.render s.codegen.indentWidth ls, transcript, lowering ++ g.diags⟩ := by
    simp only [compile, hlower, Program.script, bind, Except.bind, hstages.generated, hemit,
      htranscript]
    rfl
  exact ⟨_, hcompile, a, g, ls, ha, hstages, rfl⟩

end Manuscript
