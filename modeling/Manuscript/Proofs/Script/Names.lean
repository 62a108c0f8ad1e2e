/-
# Names of a script can be told apart

The identifiers of functions differ from each other, and so do those of characters,
which also differ from the words that stand before backgrounds and displayed images.
A label is its function's identifier and its own with a full stop between them, and
the name of an image is an identifier and tags with spaces between them. Neither mark
is part of an identifier, so two such names are equal only where their parts are.

Key definitions: `Script.Names.labelName`.
Key theorems: `Script.identifierOf_inj`, `Script.Names.labelName_eq_join`,
`Script.imageName_inj`, `Script.Names.nodup_characters`.
-/
import Manuscript.Proofs.Identifier
import Manuscript.Proofs.Script.Total

namespace Manuscript.Script

open Identifier (Plain)

/-! ### Identifiers of names -/

theorem mem_of_lookup {pairs : List (String × String)} {name ident : String}
    (h : pairs.lookup name = some ident) : (name, ident) ∈ pairs := by
  obtain ⟨before, after, rfl, -⟩ := List.lookup_eq_some_iff.1 h
  exact List.mem_append_right _ List.mem_cons_self

theorem mem_pairUp {names : List String} {name ident : String} : (name, ident) ∈ pairUp names ↔
    ∃ k : Nat, names[k]? = some name ∧ (Namer.fresh.claimAll names).1[k]? = some ident := by
  rw [pairUp, List.mem_iff_getElem?]
  simp only [List.getElem?_zip_eq_some]

/-- The identifier of a name was handed out for it, or the name was not among those named. -/
theorem identifierOf_pairUp (names : List String) (name : String) :
    (name, identifierOf (pairUp names) name) ∈ pairUp names ∨
      name ∉ names ∧ identifierOf (pairUp names) name = Identifier.sanitize name := by
  unfold identifierOf
  cases h : (pairUp names).reverse.lookup name with
  | some ident => exact .inl (List.mem_reverse.1 (mem_of_lookup h))
  | none =>
    refine .inr ⟨fun hmem => ?_, by rw [Option.getD_none]⟩
    obtain ⟨k, hk⟩ := List.mem_iff_getElem?.1 hmem
    have hlt : k < (Namer.fresh.claimAll names).1.length := by
      rw [Namer.length_claimAll]
      exact (List.getElem?_eq_some_iff.1 hk).1
    have hpair := mem_pairUp.2 ⟨k, hk, List.getElem?_eq_getElem hlt⟩
    have hsome : ((pairUp names).reverse.lookup name).isSome = true :=
      List.lookup_isSome_iff.2 ⟨_, List.mem_reverse.2 hpair, beq_self_eq_true name⟩
    rw [h] at hsome
    cases hsome

theorem plain_identifierOf (names : List String) (name : String) :
    Plain (identifierOf (pairUp names) name).toList := by
  rcases identifierOf_pairUp names name with hmem | ⟨-, heq⟩
  · exact Namer.plain_claimAll _ _ _ (List.of_mem_zip hmem).2
  · rw [heq]
    exact Identifier.plain_sanitize name

/-- Different names have different identifiers. -/
theorem identifierOf_inj {names : List String} {a b : String} (ha : a ∈ names) (hb : b ∈ names)
    (h : identifierOf (pairUp names) a = identifierOf (pairUp names) b) : a = b := by
  have hpair : ∀ c ∈ names, (c, identifierOf (pairUp names) c) ∈ pairUp names := fun c hc =>
    (identifierOf_pairUp names c).resolve_right fun hn => hn.1 hc
  obtain ⟨j, hja, hj⟩ := mem_pairUp.1 (hpair a ha)
  obtain ⟨k, hkb, hk⟩ := mem_pairUp.1 (hpair b hb)
  have hlt := (List.getElem?_eq_some_iff.1 hj).1
  have hjk : j = k := by
    refine (List.getElem?_inj hlt (Namer.nodup_claimAll Namer.fresh names).1).1 ?_
    rw [hj, hk, h]
  rw [hjk, hkb] at hja
  exact (Option.some.inj hja).symm

theorem plain_stop {ident : String} (h : Plain ident.toList) : '.' ∉ ident.toList :=
  h.not_mem Identifier.isIdentContinue_stop

theorem plain_space {ident : String} (h : Plain ident.toList) : ' ' ∉ ident.toList :=
  h.not_mem Identifier.isIdentContinue_space

namespace Names

variable (p : Program) (g : Generated)

theorem nodup_functions : (Names.of p g).functions.Nodup := (Namer.nodup_claimAll _ _).1

theorem plain_functions : ∀ name ∈ (Names.of p g).functions, Plain name.toList :=
  Namer.plain_claimAll _ _

theorem nodup_characters : (Names.of p g).characters.Nodup := (Namer.nodup_claimAll _ _).1

theorem plain_characters : ∀ name ∈ (Names.of p g).characters, Plain name.toList :=
  Namer.plain_claimAll _ _

/-- No character has the word for backgrounds or for displayed images as its identifier. -/
theorem characters_ne {name : String} (h : name ∈ (Names.of p g).characters) :
    name ≠ "bg" ∧ name ≠ "cg" := by
  have hfree := (Namer.nodup_claimAll ((Namer.fresh.reserve "bg").reserve "cg") _).2 name h
  constructor <;> rintro rfl <;> exact hfree (by simp [Namer.reserve])

/-! ### Labels -/

variable {p g}

/-- The label of a function's block in the script, by the label it has in the function. -/
def labelName (n : Names) (id : FunctionId) (label : String) : String :=
  n.functions[id]?.getD "" ++ "." ++ identifierOf (n.labels[id]?.getD []) label

theorem label?_eq (n : Names) (id : FunctionId) (b : GeneratedBlock) :
    n.label? id b = b.label.map (n.labelName id) := rfl

theorem functions_of {id : FunctionId} {f : GeneratedFunction} (h : g.functions[id]? = some f) :
    ∃ name, (Names.of p g).functions[id]? = some name ∧ Plain name.toList := by
  have hid : id < (Names.of p g).functions.length := by
    rw [(covers_of p g).length_functions]
    exact (List.getElem?_eq_some_iff.1 h).1
  exact ⟨_, List.getElem?_eq_getElem hid, plain_functions p g _ (List.getElem_mem hid)⟩

/-- A label is its parts with a full stop between them. -/
theorem labelName_eq_join {id : FunctionId} {f : GeneratedFunction} {name : String}
    (hf : g.functions[id]? = some f) (hname : (Names.of p g).functions[id]? = some name)
    (label : String) : (Names.of p g).labelName id label = Text.join (String.singleton '.')
      [name, identifierOf (pairUp (f.blocks.filterMap (·.label))) label] := by
  have hlabels : (Names.of p g).labels[id]? = some (pairUp (f.blocks.filterMap (·.label))) := by
    simp [Names.of, hf]
  rw [labelName, hname, hlabels]
  rfl

/-- No label of a block is the identifier of a function. -/
theorem labelName_not_mem_functions {id : FunctionId} {f : GeneratedFunction}
    (hf : g.functions[id]? = some f) (label : String) :
    (Names.of p g).labelName id label ∉ (Names.of p g).functions := by
  intro hmem
  obtain ⟨name, hname, hplain⟩ := functions_of (p := p) hf
  have hstop : ∀ part ∈ [(Names.of p g).labelName id label], '.' ∉ part.toList := by
    simpa using plain_stop (plain_functions p g _ hmem)
  have hparts := Text.join_injective (List.cons_ne_nil _ []) (List.cons_ne_nil _ _) hstop
    (by simpa using ⟨plain_stop hplain, plain_stop (plain_identifierOf _ label)⟩)
    (labelName_eq_join hf hname label)
  simp at hparts

end Names

/-! ### Images -/

/-- The name of an image is its parts with spaces between them. -/
theorem imageName_eq_join (base : String) (path : List String) :
    imageName base path = Text.join (String.singleton ' ')
      (base :: path.map Identifier.sanitize) := by
  cases path with
  | nil => rfl
  | cons tag rest => rfl

/-- Two images have the same name only where their parts are the same. -/
theorem imageName_inj {a b : String} {path path' : List String} (ha : Plain a.toList)
    (hb : Plain b.toList) (h : imageName a path = imageName b path') :
    a = b ∧ path.map Identifier.sanitize = path'.map Identifier.sanitize := by
  have hspace : ∀ {c : String} {path : List String}, Plain c.toList →
      ∀ part ∈ c :: path.map Identifier.sanitize, ' ' ∉ part.toList := by
    intro c path hc part hpart
    rcases List.mem_cons.1 hpart with rfl | hpart
    · exact plain_space hc
    · obtain ⟨tag, -, rfl⟩ := List.mem_map.1 hpart
      exact plain_space (Identifier.plain_sanitize tag)
  rw [imageName_eq_join, imageName_eq_join] at h
  have hparts := Text.join_injective (List.cons_ne_nil _ _) (List.cons_ne_nil _ _) (hspace ha)
    (hspace hb) h
  exact List.cons.inj hparts

end Manuscript.Script
