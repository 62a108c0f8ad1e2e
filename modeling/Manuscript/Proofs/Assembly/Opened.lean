/-
# Which functions a document opens

A document that has no command for a function gets one function, named for its
title, and all that it says goes there. A document that has such a command gets the
functions that its commands open; where none of them gives a name there is no
function at all, and whatever the document says is dropped
(`Assembly.ofDocument_opens`).

Key definitions: `Item.Enabled.Nameless`, `Assembly.Opens`, `Assembly.Idle`,
`Assembly.defaultName`.
Key theorems: `Assembly.adds_of_items`, `Assembly.reached_of_items`,
`Assembly.opened_of_items`, `Assembly.Idle.items`, `Assembly.ofDocument_opens`.
-/
import Manuscript.Proofs.Assembly.Built
import Manuscript.Proofs.Assembly.Emitted

namespace Manuscript

namespace Item

/-- The command is for a function. -/
def Enabled.isFunction (e : Enabled) : Bool := e.kind == .function

/-- The command gives no name: its bare value is missing, a medium, or blank. -/
def Enabled.Nameless (e : Enabled) : Prop := ∃ d, e.command.positionalText "name" = .error d

theorem mem_enabled {it : Item} {cs : List Command} {c : Command} {kind : CommandKind}
    (hcs : it.content = .commands cs) (hc : c ∈ cs.filter (!·.disabled))
    (hkind : CommandKind.lookup? c.name = some kind) : ⟨it.block, c, kind⟩ ∈ it.enabled := by
  unfold enabled
  rw [hcs]
  exact List.mem_filterMap.2 ⟨c, hc, by rw [hkind]; rfl⟩

theorem exists_of_mem_enabled {it : Item} {e : Enabled} (h : e ∈ it.enabled) : ∃ cs,
    it.content = .commands cs ∧ e.command ∈ cs.filter (!·.disabled) ∧
      CommandKind.lookup? e.command.name = some e.kind := by
  rcases it with ⟨block, content⟩
  cases content with
  | commands cs =>
    obtain ⟨c, hc, he⟩ := List.mem_filterMap.1 h
    obtain ⟨kind, hkind, rfl⟩ := Option.map_eq_some_iff.1 he
    exact ⟨cs, rfl, hc, hkind⟩
  | _ => cases h

/-- A block that displays something has an image. -/
theorem isDisplay_of_ofBlock? {limit i : Nat} {b : Block}
    (h : (ofBlock? limit i b).1 = some .display) : b.imagePaths ≠ [] := by
  cases (carries_of_ofBlock? h).2 with
  | display hdisplay =>
    obtain ⟨m, hm, himage⟩ := List.any_eq_true.1 (Bool.and_eq_true_iff.1 hdisplay).2
    exact List.ne_nil_of_mem (List.mem_map_of_mem (List.mem_filter.2 ⟨hm, himage⟩))

theorem imagePaths_ofDocument (d : Document) (limit : Nat) :
    ∀ it ∈ (ofDocument limit d).items, it.content = .display → (it.source d).imagePaths ≠ [] := by
  refine forall_ofDocument ?_ ?_
  · rintro a block cs - ⟨⟩
  · rintro i b hb - content hcontent rfl
    rw [source, hb]
    exact isDisplay_of_ofBlock? hcontent

/-- An item gives at least one step, if it displays images where it says so. -/
theorem Gives.ne_nil {d : Document} {it : Item} {ops : List Op} (h : Gives d it ops)
    (hdisplay : it.content = .display → (it.source d).imagePaths ≠ []) : ops ≠ [] := by
  cases h with
  | display hlength _ =>
    rw [← List.length_pos_iff, hlength, List.length_pos_iff]
    exact hdisplay rfl
  | _ => simp

end Item

namespace Assembly

variable {a b : Assembly}

/-! ### Steps that are added -/

theorem adds_commands (media : List Media) : ∀ {cs : List Command} (a : Assembly),
    (∀ c ∈ cs, CommandKind.lookup? c.name ≠ some .function) →
    ∃ ops, Adds ops a (cs.foldl (fun a c => a.command c media) a)
  | [], a, _ => ⟨[], .refl a⟩
  | c :: cs, a, h => by
    obtain ⟨new, -, hnew⟩ := adds_command (a := a) (h c List.mem_cons_self) media
    obtain ⟨more, hmore⟩ := adds_commands media (a.command c media) fun c' hc' =>
      h c' (List.mem_cons_of_mem c hc')
    exact ⟨new ++ more, hnew.trans hmore⟩

variable {d : Document} {it : Item}

/-- **What all items carry is added**, if no command is for a function. -/
theorem adds_of_items : ∀ {items : List Item} {a : Assembly}, items.foldlM (item d) a = .ok b →
    a.current ≠ none → (∀ e ∈ items.flatMap Item.enabled, e.isFunction = false) →
    ∃ ops, Adds ops a b ∧ ∀ it ∈ items, it.isCommands = false →
      ∃ given, it.Gives d given ∧ given <:+: ops
  | [], _, h, _, _ => by
    cases h
    exact ⟨[], .refl _, by simp⟩
  | it :: items, a, h, hcurrent, hfunction => by
    rw [List.foldlM_cons, bind_eq_ok] at h
    obtain ⟨next, hnext, h⟩ := h
    rw [List.flatMap_cons, List.forall_mem_append] at hfunction
    obtain ⟨new, hnew, hgives⟩ : ∃ new, Adds new a next ∧
        (it.isCommands = false → it.Gives d new) := by
      rcases item_cases hnext with ⟨cs, hcs, rfl⟩ | ⟨-, ⟨hnone, -⟩ | ⟨new, hnew, hgives⟩⟩
      · obtain ⟨new, hnew⟩ := adds_commands (it.source d).media a fun c hc hkind => by
          have he := hfunction.1 _ (Item.mem_enabled hcs hc hkind)
          simp [Item.Enabled.isFunction] at he
        exact ⟨new, hnew, by simp [Item.isCommands, hcs]⟩
      · exact absurd hnone hcurrent
      · exact ⟨new, hnew, fun _ => hgives⟩
    obtain ⟨more, hmore, hrest⟩ := adds_of_items h (hnew.current ▸ hcurrent) hfunction.2
    refine ⟨new ++ more, hnew.trans hmore, List.forall_mem_cons.2 ⟨fun hit => ?_, ?_⟩⟩
    · exact ⟨new, hgives hit, (List.prefix_append new more).isInfix⟩
    · intro it' hit' hcommands
      obtain ⟨given, hgiven, hinfix⟩ := hrest it' hit' hcommands
      exact ⟨given, hgiven, hinfix.trans (List.suffix_append new more).isInfix⟩

/-! ### What a command brings about -/

section Reached

variable {Q : Assembly → Prop} {R : Command → Prop}
  (hcommand : ∀ a c media, Q a ∨ R c → Q (a.command c media))

include hcommand

theorem reached_of_commands (media : List Media) : ∀ {cs : List Command} {a : Assembly},
    (Q a ∨ ∃ c ∈ cs, R c) → Q (cs.foldl (fun a c => a.command c media) a)
  | [], _, h => by simpa using h
  | c :: cs, a, h => by
    rw [List.exists_mem_cons_iff, ← or_assoc] at h
    rw [List.foldl_cons]
    exact reached_of_commands media (h.imp_left (hcommand a c media))

variable (hline : ∀ {a b it}, it.isCommands = false → item d a it = .ok b → Q a → Q b)

include hline

theorem reached_of_item (h : item d a it = .ok b)
    (hreach : Q a ∨ ∃ e ∈ it.enabled, R e.command) : Q b := by
  by_cases hcommands : it.isCommands = true
  · obtain ⟨cs, hcs⟩ := Item.exists_commands hcommands
    rw [item_of_commands hcs] at h
    cases h
    refine reached_of_commands hcommand _ (hreach.imp_right ?_)
    rintro ⟨e, he, hr⟩
    obtain ⟨cs', hcs', hmem, -⟩ := Item.exists_of_mem_enabled he
    rw [hcs] at hcs'
    cases hcs'
    exact ⟨e.command, hmem, hr⟩
  · refine hline (by simpa using hcommands) h (hreach.resolve_right fun ⟨e, he, _⟩ => ?_)
    obtain ⟨cs, hcs, -⟩ := Item.exists_of_mem_enabled he
    simp [Item.isCommands, hcs] at hcommands

/-- **What some command brings about and nothing undoes holds in the end.** -/
theorem reached_of_items : ∀ {items : List Item} {a : Assembly}, items.foldlM (item d) a = .ok b →
    (Q a ∨ ∃ e ∈ items.flatMap Item.enabled, R e.command) → Q b
  | [], _, h, hreach => by
    cases h
    simpa using hreach
  | it :: items, a, h, hreach => by
    rw [List.foldlM_cons, bind_eq_ok] at h
    obtain ⟨next, hnext, h⟩ := h
    refine reached_of_items h ?_
    rcases hreach with ha | ⟨e, he, hr⟩
    · exact .inl (reached_of_item hcommand hline hnext (.inl ha))
    · rw [List.flatMap_cons] at he
      rcases List.mem_append.1 he with he | he
      · exact .inl (reached_of_item hcommand hline hnext (.inr ⟨e, he, hr⟩))
      · exact .inr ⟨e, he, hr⟩

end Reached

/-! ### Functions that are opened -/

@[simp] theorem addOps_eq_nil_iff {cur : Option FunctionId} {ops : List Op} {ps : List Procedure} :
    addOps cur ops ps = [] ↔ ps = [] := by
  cases cur with
  | none => rfl
  | some i => rw [addOps, ← List.length_eq_zero_iff, List.length_modify, List.length_eq_zero_iff]

/-- The command is for a function and gives its name. -/
def Opens (c : Command) : Prop :=
  CommandKind.lookup? c.name = some .function ∧ ∃ name, c.positionalText "name" = .ok name

/-- A command that gives a name leaves a function behind, and functions stay. -/
theorem opened_of_command (a : Assembly) (c : Command) (media : List Media)
    (h : a.procedures ≠ [] ∨ Opens c) : (a.command c media).procedures ≠ [] := by
  by_cases hkind : CommandKind.lookup? c.name = some .function
  · rw [command_of_function hkind]
    unfold functionCommand
    cases hname : c.positionalText "name" with
    | error d =>
      refine h.resolve_right ?_
      rintro ⟨-, name, hok⟩
      rw [hname] at hok
      cases hok
    | ok name =>
      dsimp only
      split
      · rename_i hany
        obtain ⟨p, hp, -⟩ := List.any_eq_true.1 hany
        exact List.ne_nil_of_mem hp
      · simp [openFunction]
  · obtain ⟨ops, -, hops⟩ := adds_command (a := a) hkind media
    rw [hops.procedures, ne_eq, addOps_eq_nil_iff]
    exact h.resolve_right fun hopens => hkind hopens.1

/-- **A function is opened** if some command gives a name. -/
theorem opened_of_items {items : List Item} (h : items.foldlM (item d) a = .ok b)
    (hopens : a.procedures ≠ [] ∨ ∃ e ∈ items.flatMap Item.enabled, Opens e.command) :
    b.procedures ≠ [] := by
  refine reached_of_items opened_of_command ?_ h hopens
  intro a b it hcommands h ha
  rcases item_cases h with ⟨cs, hcs, -⟩ | ⟨-, ⟨-, rfl⟩ | ⟨ops, hops, -⟩⟩
  · simp [Item.isCommands, hcs] at hcommands
  · exact ha
  · rw [hops.procedures, ne_eq, addOps_eq_nil_iff]
    exact ha

/-! ### Documents without a function -/

/-- There is no function, and so none that takes steps. -/
structure Idle (a : Assembly) : Prop where
  procedures : a.procedures = []
  current : a.current = none

theorem Idle.of_adds {ops : List Op} (ha : Idle a) (h : Adds ops a b) : Idle b :=
  ⟨by rw [h.procedures, addOps_eq_nil_iff, ha.procedures], h.current.trans ha.current⟩

theorem Idle.command (ha : Idle a) {c : Command} (h : ¬ Opens c) (media : List Media) :
    Idle (a.command c media) := by
  by_cases hkind : CommandKind.lookup? c.name = some .function
  · rw [command_of_function hkind]
    unfold functionCommand
    cases hname : c.positionalText "name" with
    | error d => exact ⟨ha.procedures, ha.current⟩
    | ok name => exact absurd ⟨hkind, name, hname⟩ h
  · obtain ⟨ops, -, hops⟩ := adds_command (a := a) hkind media
    exact ha.of_adds hops

theorem Idle.commands (media : List Media) : ∀ {cs : List Command} {a : Assembly}, Idle a →
    (∀ c ∈ cs, ¬ Opens c) → Idle (cs.foldl (fun a c => a.command c media) a)
  | [], _, ha, _ => ha
  | c :: cs, _, ha, h => by
    obtain ⟨hc, hcs⟩ := List.forall_mem_cons.1 h
    rw [List.foldl_cons]
    exact Idle.commands media (ha.command hc media) hcs

theorem Idle.item (ha : Idle a) (h : item d a it = .ok b)
    (hopens : ∀ e ∈ it.enabled, ¬ Opens e.command) : Idle b := by
  rcases item_cases h with ⟨cs, hcs, rfl⟩ | ⟨-, ⟨-, rfl⟩ | ⟨ops, hops, -⟩⟩
  · exact Idle.commands _ ha fun c hc hopen => hopens _ (Item.mem_enabled hcs hc hopen.1) hopen
  · exact ha
  · exact ha.of_adds hops

/-- **Where no command gives a name there is no function.** -/
theorem Idle.items {items : List Item} (ha : Idle a) (h : items.foldlM (Assembly.item d) a = .ok b)
    (hopens : ∀ e ∈ items.flatMap Item.enabled, ¬ Opens e.command) : Idle b := by
  refine of_foldlM (fun a it hit b h ha => ?_) h ha
  exact ha.item h fun e he => hopens e (List.mem_flatMap.2 ⟨it, hit, he⟩)

/-! ### Documents -/

/-- The name of the function of a document that opens none. -/
def defaultName (s : FrontendSettings) (d : Document) : String :=
  if (Text.trimmed d.title).isEmpty then s.defaultFunctionName else Text.trimmed d.title

/-- A command of the document opens a function if it is for one and gives a name. -/
theorem opens_iff {items : List Item} {e : Item.Enabled} (he : e ∈ items.flatMap Item.enabled) :
    Opens e.command ↔ e.isFunction = true ∧ ¬ e.Nameless := by
  obtain ⟨it, -, hit⟩ := List.mem_flatMap.1 he
  obtain ⟨cs, -, -, hkind⟩ := Item.exists_of_mem_enabled hit
  have hfunction : CommandKind.lookup? e.command.name = some .function ↔ e.isFunction = true := by
    rw [hkind, Option.some_inj, Item.Enabled.isFunction, beq_iff_eq]
  have hname : (∃ name, e.command.positionalText "name" = .ok name) ↔ ¬ e.Nameless := by
    unfold Item.Enabled.Nameless
    cases e.command.positionalText "name" <;> simp
  rw [Opens, hfunction, hname]

/-- Where the document has a command for a function, none is opened for it. -/
theorem idle_start (s : FrontendSettings) {items : List Item} (diags : List Diagnostic)
    (h : (items.flatMap Item.enabled).any Item.Enabled.isFunction = true) :
    Idle (declareAll d items (defaultFunction s d items (fresh d.title diags))) := by
  have hdefault : defaultFunction s d items (fresh d.title diags) = fresh d.title diags := if_pos h
  rw [hdefault]
  exact Idle.of_adds ⟨rfl, rfl⟩ (adds_declareAll d items _)

/-- Where it has none, a function is opened, and takes steps. -/
theorem opened_start (s : FrontendSettings) {items : List Item} (diags : List Diagnostic)
    (h : ¬ (items.flatMap Item.enabled).any Item.Enabled.isFunction = true) :
    (declareAll d items (defaultFunction s d items (fresh d.title diags))).procedures =
        [⟨defaultName s d, [], .ofBlock 0⟩] ∧
      (declareAll d items (defaultFunction s d items (fresh d.title diags))).current = some 0 := by
  have hdefault : defaultFunction s d items (fresh d.title diags) =
      (fresh d.title diags).openFunction (defaultName s d) (.ofBlock 0) := if_neg h
  have hadds := adds_declareAll d items (defaultFunction s d items (fresh d.title diags))
  rw [hadds.procedures, hadds.current, addOps_nil, hdefault]
  exact ⟨rfl, rfl⟩

/-- **When a document has no functions.** Every document is put together. It has no function just
if it has a command for a function and no such command gives a name. A document without a command
for a function has one, named for its title, and all that its blocks say goes there. -/
theorem ofDocument_opens (s : FrontendSettings) (d : Document) : ∃ a, ofDocument s d = .ok a ∧
    (a.procedures = [] ↔
      (∃ e ∈ (Item.ofDocument s.maxNameChars d).items.flatMap Item.enabled, e.isFunction = true) ∧
      ∀ e ∈ (Item.ofDocument s.maxNameChars d).items.flatMap Item.enabled,
        e.isFunction = true → e.Nameless) ∧
    ((∀ e ∈ (Item.ofDocument s.maxNameChars d).items.flatMap Item.enabled, e.isFunction = false) →
      ∃ ops, a.procedures = [⟨defaultName s d, ops, .ofBlock 0⟩] ∧
        ∀ it ∈ (Item.ofDocument s.maxNameChars d).items, it.isCommands = false →
          ∃ given, it.Gives d given ∧ given ≠ [] ∧ given <:+: ops) := by
  obtain ⟨a, ha, -⟩ := yields_ofDocument s d
  refine ⟨a, ha, ?_⟩
  have hdisplay := Item.imagePaths_ofDocument d s.maxNameChars
  unfold ofDocument at ha
  dsimp only at ha
  generalize (Item.ofDocument s.maxNameChars d).items = items at ha hdisplay ⊢
  by_cases hfunction : (items.flatMap Item.enabled).any Item.Enabled.isFunction = true
  · have hidle := idle_start (d := d) s (Item.ofDocument s.maxNameChars d).diags hfunction
    obtain ⟨e, he, hkind⟩ := List.any_eq_true.1 hfunction
    refine ⟨⟨fun hnil => ⟨⟨e, he, hkind⟩, fun e he hkind => ?_⟩, ?_⟩, fun hnone => ?_⟩
    · by_contra hnamed
      exact opened_of_items ha (.inr ⟨e, he, (opens_iff he).2 ⟨hkind, hnamed⟩⟩) hnil
    · rintro ⟨-, hnameless⟩
      refine (hidle.items ha fun e he hopens => ?_).procedures
      obtain ⟨hkind, hnamed⟩ := (opens_iff he).1 hopens
      exact hnamed (hnameless e he hkind)
    · rw [hnone e he] at hkind
      cases hkind
  · obtain ⟨hstart, hcurrent⟩ :=
      opened_start (d := d) s (Item.ofDocument s.maxNameChars d).diags hfunction
    have hnone : ∀ e ∈ items.flatMap Item.enabled, e.isFunction = false := by
      rw [List.any_eq_true, not_exists] at hfunction
      exact fun e he => by simpa [he] using hfunction e
    obtain ⟨ops, hadds, hgives⟩ := adds_of_items ha (by simp [hcurrent]) hnone
    have hprocedures : a.procedures = [⟨defaultName s d, ops, .ofBlock 0⟩] := by
      rw [hadds.procedures, hcurrent, hstart]
      simp [addOps]
    refine ⟨iff_of_false (by simp [hprocedures]) ?_, fun _ => ⟨ops, hprocedures, ?_⟩⟩
    · rintro ⟨⟨e, he, hkind⟩, -⟩
      rw [hnone e he] at hkind
      cases hkind
    · intro it hit hcommands
      obtain ⟨given, hgiven, hinfix⟩ := hgives it hit hcommands
      exact ⟨given, hgiven, hgiven.ne_nil (hdisplay it hit), hinfix⟩

/-- A document that says something behind a command for a function without a name. -/
def namelessFunction : Document := ⟨"T", [.ofString "[Function]", .ofString "hello"]⟩

/-- The document has no function, and what it says is dropped. -/
theorem ofDocument_namelessFunction :
    (ofDocument {} namelessFunction).toOption.map (·.procedures) = some [] := by
  decide +kernel

end Assembly
end Manuscript
