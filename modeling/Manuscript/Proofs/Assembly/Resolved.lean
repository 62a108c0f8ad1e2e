/-
# Names stay resolved

While a document is put together names are looked up in one state after the other: before
each declaration, before each command and line, and before each name that a command takes
turns between. These are the moments of the document (`Assembly.moments`). From each of
them to each later one the cast only grows at its end, and a name that was resolved is
resolved to the same character. In each of them every character is found by its own name,
so no name belongs to two characters and none is the alias of an earlier one.

Key definitions: `Command.turns`, `Assembly.trail`, `Assembly.moments`,
`Assembly.Continues`, `Assembly.FoundByName`, `Assembly.Passes`.
Key theorems: `Assembly.Passes.append`, `Assembly.passes_trail`, `Assembly.passes_moments`,
`Assembly.WellCast.foundByName`, `Assembly.Changes.nodup_procedures`,
`Assembly.ofDocument_resolves`.
-/
import Manuscript.Proofs.Assembly.Cast
import Manuscript.Proofs.Assembly.Sound

namespace Manuscript

/-- The names between which the command lets unnamed lines take turns, if it does. -/
def Command.turns (c : Command) : List String :=
  match CommandKind.lookup? c.name, c.positionalText "mode" with
  | some .sayMode, .ok mode =>
    if Text.lowercase mode ∈ ["rotation", "交替"] then Assembly.rotationNames c else []
  | _, _ => []

namespace Assembly

/-! ### Moments -/

/-- The states before the steps of a fold, and those during each of them. -/
def trail {β : Type} (during : Assembly → β → List Assembly) (f : Assembly → β → Assembly)
    (a : Assembly) : List β → List Assembly
  | [] => []
  | x :: xs => during a x ++ trail during f (f a x) xs

/-- The state once a name was looked up. -/
def learn (loc : Loc) (a : Assembly) (name : String) : Assembly :=
  (a.character name .characterUnresolved loc).2

/-- The states in which a command looks names up: the one before it, and one for each name
between which lines take turns. -/
def duringCommand (a : Assembly) (c : Command) : List Assembly :=
  a :: trail (fun a _ => [a]) (learn c.loc) a c.turns

/-- The states in which an item looks names up. -/
def duringItem (d : Document) (a : Assembly) (it : Item) : List Assembly :=
  match it.content with
  | .commands cs =>
    trail duringCommand (fun a c => a.command c (it.source d).media) a (cs.filter (!·.disabled))
  | _ => [a]

/-- The states in which the items of a document look names up. -/
def duringItems (d : Document) (a : Assembly) : List Item → List Assembly
  | [] => []
  | it :: items =>
    duringItem d a it ++ match item d a it with
      | .ok b => duringItems d b items
      | .error _ => []

/-- **The states in which names are looked up** while a document is put together, in order: those of
the declarations of characters, of the other declarations, and of the items. -/
def moments (s : FrontendSettings) (d : Document) : List Assembly :=
  let reading := Item.ofDocument s.maxNameChars d
  let commands := reading.items.flatMap Item.enabled
  let start := defaultFunction s d reading.items (fresh d.title reading.diags)
  let declared := commands.foldl characterStage start
  trail (fun a _ => [a]) characterStage start commands
    ++ trail (fun a _ => [a]) (sceneryStage d) declared commands
    ++ duringItems d (commands.foldl (sceneryStage d) declared) reading.items

/-- The cast only grew at its end, and names that were resolved still are, to the same
characters. -/
structure Continues (a b : Assembly) : Prop where
  cast : a.cast <+: b.cast
  resolved : ∀ name id, a.findCharacter? name = some id → b.findCharacter? name = some id

/-- Every character is found by its own name. -/
def FoundByName (a : Assembly) : Prop :=
  ∀ i c, a.characters[i]? = some c → a.findCharacter? c.name = some i

variable {a b c : Assembly}

theorem Casts.continues {P : String → Prop} (h : Casts P a b) : Continues a b :=
  ⟨h.grows, fun _ _ => findCharacter?_of_grows h.grows⟩

/-- Where no character answers to the name of a later one, each is found by its own. -/
theorem WellCast.foundByName {P : String → Prop} (ha : a.WellCast P) : a.FoundByName := by
  intro i c hc
  have hcast : a.cast[i]? = some c.bare := by rw [cast, List.getElem?_map, hc]; rfl
  obtain ⟨hi, hbare⟩ := List.getElem?_eq_some_iff.1 hcast
  rw [findCharacter?_eq, List.findIdx?_eq_some_iff_getElem]
  refine ⟨hi, by simp [hbare, Character.answersTo], fun j hj => ?_⟩
  have hapart := List.pairwise_iff_getElem.1 ha.apart j i (hj.trans hi) hi hj
  rw [hbare] at hapart
  simpa using hapart

/-! ### Runs through states -/

/-- From one state to another the run passes through the states of the list, in this order. -/
structure Passes (a : Assembly) (between : List Assembly) (b : Assembly) : Prop where
  casts : Casts (fun _ => True) a b
  reached : ∀ x ∈ between, Casts (fun _ => True) a x
  left : ∀ x ∈ between, Casts (fun _ => True) x b
  ordered : between.Pairwise (Casts fun _ => True)

theorem passes_nil (h : Casts (fun _ => True) a b) : Passes a [] b :=
  ⟨h, by simp, by simp, .nil⟩

theorem Passes.cons {between : List Assembly} (h : Passes a between b) : Passes a (a :: between) b :=
  ⟨h.casts, List.forall_mem_cons.2 ⟨.refl, h.reached⟩, List.forall_mem_cons.2 ⟨h.casts, h.left⟩,
    List.pairwise_cons.2 ⟨h.reached, h.ordered⟩⟩

theorem Passes.append {between more : List Assembly} (hab : Passes a between b)
    (hbc : Passes b more c) : Passes a (between ++ more) c where
  casts := hab.casts.trans hbc.casts
  reached := List.forall_mem_append.2 ⟨hab.reached, fun x hx => hab.casts.trans (hbc.reached x hx)⟩
  left := List.forall_mem_append.2 ⟨fun x hx => (hab.left x hx).trans hbc.casts, hbc.left⟩
  ordered := List.pairwise_append.2 ⟨hab.ordered, hbc.ordered, fun x hx y hy =>
    (hab.left x hx).trans (hbc.reached y hy)⟩

/-- **A fold passes through its trail.** -/
theorem passes_trail {β : Type} {during : Assembly → β → List Assembly} {f : Assembly → β → Assembly}
    (h : ∀ a x, Passes a (during a x) (f a x)) : ∀ (xs : List β) (a : Assembly),
    Passes a (trail during f a xs) (xs.foldl f a)
  | [], _ => passes_nil .refl
  | x :: xs, a => (h a x).append (passes_trail h xs (f a x))

theorem passes_self (h : Casts (fun _ => True) a b) : Passes a [a] b := (passes_nil h).cons

theorem casts_learn (loc : Loc) (a : Assembly) (name : String) :
    Casts (fun _ => True) a (learn loc a name) :=
  casts_character trivial .characterUnresolved rfl loc

theorem charactersOf_eq_foldl (loc : Loc) : ∀ (names : List String) (a : Assembly),
    (a.charactersOf .characterUnresolved loc names).2 = names.foldl (learn loc) a
  | [], _ => rfl
  | name :: rest, a => charactersOf_eq_foldl loc rest (learn loc a name)

/-- What a command does begins with the names between which it lets lines take turns. -/
theorem casts_of_turns (a : Assembly) (c : Command) (media : List Media) :
    Casts (fun _ => True) (c.turns.foldl (learn c.loc) a) (a.command c media) := by
  by_cases hturns : c.turns = []
  · -- any other command looks up one name at most, in the state before it
    rw [hturns]
    exact casts_command (by simp) media
  · rw [← charactersOf_eq_foldl]
    unfold Command.turns at hturns ⊢
    split at hturns
    · rename_i mode hkind hmode
      split at hturns
      · rename_i hrotation
        have hcommand : a.command c media = a.sayModeCommand c := by
          unfold command
          rw [hkind]
        rw [hcommand, sayModeCommand, hmode]
        dsimp only
        rw [if_pos hrotation]
        obtain ⟨name, rest, hnames⟩ := List.exists_cons_of_ne_nil hturns
        rw [hnames]
        rcases List.mem_pair.1 hrotation with hrotation | hrotation
        · rw [hrotation]
          exact casts_of_eq rfl rfl
        · rw [hrotation]
          exact casts_of_eq rfl rfl
      · exact absurd rfl hturns
    · exact absurd rfl hturns

theorem passes_command (media : List Media) (a : Assembly) (c : Command) :
    Passes a (duringCommand a c) (a.command c media) := by
  have hturns := passes_trail (fun a name => passes_self (casts_learn c.loc a name)) c.turns a
  have happend := hturns.append (passes_nil (casts_of_turns a c media))
  rw [List.append_nil] at happend
  exact happend.cons

theorem passes_item {d : Document} {it : Item} (h : item d a it = .ok b) :
    Passes a (duringItem d a it) b := by
  by_cases hcommands : it.isCommands = true
  · obtain ⟨cs, hcs⟩ := Item.exists_commands hcommands
    rw [item_of_commands hcs] at h
    cases h
    rw [duringItem, hcs]
    exact passes_trail (passes_command _) _ a
  · have hself : duringItem d a it = [a] := by
      rcases it with ⟨block, content⟩
      cases content with
      | commands cs => simp [Item.isCommands] at hcommands
      | _ => rfl
    rw [hself]
    exact passes_self (casts_item h (by simp))

theorem passes_items {d : Document} : ∀ {items : List Item} {a : Assembly},
    items.foldlM (item d) a = .ok b → Passes a (duringItems d a items) b
  | [], _, h => by
    cases h
    exact passes_nil .refl
  | it :: items, a, h => by
    rw [List.foldlM_cons, bind_eq_ok] at h
    obtain ⟨next, hnext, h⟩ := h
    rw [duringItems, hnext]
    exact (passes_item hnext).append (passes_items h)

/-- **A document is put together through its moments.** -/
theorem passes_moments {s : FrontendSettings} {d : Document} (h : ofDocument s d = .ok a) :
    Passes (fresh d.title (Item.ofDocument s.maxNameChars d).diags) (moments s d) a := by
  have hcharacter (a : Assembly) (e : Item.Enabled) : Passes a [a] (a.characterStage e) :=
    passes_self (casts_characterStage (by simp))
  have hscenery (a : Assembly) (e : Item.Enabled) : Passes a [a] (sceneryStage d a e) :=
    passes_self (casts_sceneryStage d (by simp))
  exact (((passes_nil (casts_defaultFunction s d _)).append (passes_trail hcharacter _ _)).append
    (passes_trail hscenery _ _)).append (passes_items h)

/-! ### Names of functions -/

theorem map_name_addOps (current : Option FunctionId) (ops : List Op) (ps : List Procedure) :
    (addOps current ops ps).map (·.name) = ps.map (·.name) := by
  cases current with
  | none => rfl
  | some i =>
    have hname (p : Procedure) : { p with ops := p.ops ++ ops }.name = p.name := rfl
    exact map_modify_eq hname ps i

theorem Change.nodup_procedures (h : Change a b) (ha : (a.procedures.map (·.name)).Nodup) :
    (b.procedures.map (·.name)).Nodup := by
  cases h with
  | emit step loc _ =>
    rwa [emit_eq, procedures_withCode, map_name_addOps]
  | openFunction name loc hname =>
    refine nodup_map_concat ha fun hmem => ?_
    obtain ⟨p, hp, hsame⟩ := List.mem_map.1 hmem
    rw [List.any_eq_false] at hname
    exact hname p hp (by simpa using hsame)
  | _ => exact ha

theorem Changes.nodup_procedures (h : Changes a b) (ha : (a.procedures.map (·.name)).Nodup) :
    (b.procedures.map (·.name)).Nodup := by
  induction h with
  | refl => exact ha
  | tail _ hchange ih => exact hchange.nodup_procedures ih

/-! ### Documents -/

/-- Characters are reported as implicit under one of two codes. -/
theorem countP_tellsStranger (ds : List Diagnostic) : ds.countP (·.code.tellsStranger) =
    Diagnostic.countOf ds .sayerImplicit + Diagnostic.countOf ds .characterUnresolved := by
  induction ds with
  | nil => rfl
  | cons d ds ih =>
    simp only [Diagnostic.countOf, ← List.countP_eq_length_filter, List.countP_cons] at ih ⊢
    rw [ih]
    cases d.code <;> simp [Code.tellsStranger] <;> omega

/-- **Names stay resolved.** Every document is put together. From each moment to each later one, and
to the end, the cast only grows at its end and a name that was resolved is resolved to the same
character; in all of them each character is found by its own name. In the end no two scenes and no
two functions have the same name, and as many characters are implicit as were reported. -/
theorem ofDocument_resolves (s : FrontendSettings) (d : Document) : ∃ a, ofDocument s d = .ok a ∧
    (moments s d ++ [a]).Pairwise Continues ∧
    (∀ b ∈ moments s d ++ [a], b.FoundByName) ∧
    (a.scenes.map (·.name)).Nodup ∧
    (a.procedures.map (·.name)).Nodup ∧
    a.characters.countP (·.implicit) =
      Diagnostic.countOf a.diags .sayerImplicit + Diagnostic.countOf a.diags .characterUnresolved := by
  obtain ⟨a, ha, hchanges⟩ := yields_ofDocument s d
  have hpasses := (passes_moments ha).append (passes_self .refl)
  have hcast : ∀ b ∈ moments s d ++ [a], b.WellCast fun _ => True := fun b hb =>
    (hpasses.reached b hb).wellCast (wellCast_fresh _ s.maxNameChars d)
  refine ⟨a, ha, hpasses.ordered.imp Casts.continues, fun b hb => (hcast b hb).foundByName,
    (sound_of_ofDocument ha).scenes, hchanges.nodup_procedures List.nodup_nil, ?_⟩
  have himplicit := (hcast a (by simp)).implicit
  rw [cast, List.countP_map, strangers, countP_tellsStranger] at himplicit
  exact himplicit

end Assembly
end Manuscript
