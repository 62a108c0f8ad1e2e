/-
# Tags choose states

Tags lead from one state of a character to another. A tag is looked for from the root
along the path of the current state; it replaces the choice at the highest level that
offers it, and below it the first names are taken (`applyTag?_eq_some`). So a tag finds
itself again in the path that it has led to, and tags can be given together or one after
the other.

A state is also chosen by all its names. While the names are applied, the front of the
path that was named stays in place whatever defaults fill up the rest: a later name
could only change it if a level further up offered that name too. A state without such
names is reached from everywhere (`foldlM_applyTag?_named`).

Key definitions: `SpriteTree.Chooses`, `SpriteTree.Lawful`, `SpriteTree.Unambiguous`.
Key theorems: `SpriteTree.applyTag?_eq_some`, `SpriteTree.resolve?_append`,
`SpriteTree.ofAdditions_lawful`, `SpriteTree.ofAdditions_selects`.
-/
import Manuscript.Proofs.Program.DefaultPath

namespace Manuscript.SpriteTree

variable {t : SpriteTree} {current path front other result tags : List String} {tag : String}

/-! ### One tag -/

theorem isPrefix_descend (t : SpriteTree) (path : List String) : path <+: t.descend path := by
  rw [descend]
  split
  · exact List.prefix_append _ _
  · exact List.prefix_rfl

/-- A complete path has nothing below it to go on with. -/
theorem descend_of_isComplete (h : t.isComplete path = true) : t.descend path = path := by
  rw [descend, (isComplete_iff.1 h).2]
  exact List.append_nil path

/-- The tag replaces the choice behind `front`: the level there offers it, and no level further up
does. -/
structure Chooses (t : SpriteTree) (path : List String) (tag : String) (front : List String) :
    Prop where
  along : front <+: path
  offered : t.offers tag front = true
  highest : ∀ higher, higher <+: front → higher ≠ front → t.offers tag higher = false

/-- **What a tag does.** -/
theorem applyTag?_eq_some : t.applyTag? path tag = some result ↔
    ∃ front, t.Chooses path tag front ∧ result = t.descend (front ++ [tag]) := by
  rw [applyTag?, Option.map_eq_some_iff]
  simp only [List.find?_range_eq_some]
  constructor
  · rintro ⟨depth, ⟨hoffered, hdepth, hhighest⟩, rfl⟩
    refine ⟨path.take depth, ⟨List.take_prefix _ _, hoffered, fun higher hhigher hne => ?_⟩, rfl⟩
    -- A shorter beginning of the path is one of the depths that were tried before.
    have hlt : higher.length < depth := by
      have hle : higher.length ≤ (path.take depth).length := hhigher.length_le
      have hlength : higher.length ≠ (path.take depth).length := fun heq =>
        hne (hhigher.eq_of_length heq)
      rw [List.length_take] at hle hlength
      omega
    have htake := List.prefix_iff_eq_take.1 (hhigher.trans (List.take_prefix _ _))
    rw [htake]
    simpa using hhighest higher.length hlt
  · rintro ⟨front, hchooses, rfl⟩
    have htake := List.prefix_iff_eq_take.1 hchooses.along
    have hle := hchooses.along.length_le
    refine ⟨front.length, ⟨by rw [← htake]; exact hchooses.offered, by simp; omega, ?_⟩, by
      rw [← htake]⟩
    intro depth hdepth
    have hhigher : path.take depth <+: front := by
      rw [htake]
      exact List.take_prefix_take_left hdepth.le
    have hne : path.take depth ≠ front := fun heq => by
      have hlength := congrArg List.length heq
      rw [List.length_take] at hlength
      omega
    simpa using hchooses.highest _ hhigher hne

/-- Where a tag is put depends only on the path down to there. -/
theorem Chooses.of_isPrefix (h : t.Chooses path tag front) (hfront : front <+: other) :
    t.Chooses other tag front :=
  { h with along := hfront }

theorem mem_of_applyTag? (h : t.applyTag? path tag = some result) : tag ∈ result := by
  obtain ⟨front, -, rfl⟩ := applyTag?_eq_some.1 h
  exact (t.isPrefix_descend (front ++ [tag])).subset (by simp)

/-- **A tag finds itself again** in the path that it has led to. -/
theorem applyTag?_again (h : t.applyTag? path tag = some result) :
    t.applyTag? result tag = some result := by
  obtain ⟨front, hchooses, rfl⟩ := applyTag?_eq_some.1 h
  have hfront : front <+: t.descend (front ++ [tag]) :=
    (List.prefix_append _ _).trans (t.isPrefix_descend _)
  exact applyTag?_eq_some.2 ⟨front, hchooses.of_isPrefix hfront, rfl⟩

/-! ### Tags one after the other -/

theorem isComplete_empty (path : List String) : empty.isComplete path = false := by
  rw [Bool.eq_false_iff]
  intro h
  obtain ⟨hne, hbelow⟩ := isComplete_iff.1 h
  rw [below?_empty hne] at hbelow
  cases hbelow

/-- A character is always in a complete state, unless there is none. -/
theorem isComplete_startPath (h : t ≠ empty) (current : List String) :
    t.isComplete (t.startPath current) = true := by
  rw [startPath]
  split
  · assumption
  · exact isComplete_defaultPath h

theorem startPath_empty (current : List String) : empty.startPath current = [] := by
  rw [startPath, isComplete_empty, if_neg Bool.false_ne_true, defaultPath]

/-- What tags lead to is a state, or nothing was there and nothing was asked for. -/
theorem isComplete_or_of_resolve? (h : t.resolve? current tags = some path) :
    t.isComplete path = true ∨ path = [] ∧ t = empty ∧ tags = [] := by
  by_cases htags : tags = []
  · subst htags
    obtain rfl : t.startPath current = path := Option.some.inj h
    by_cases ht : t = empty
    · subst ht
      exact .inr ⟨startPath_empty current, rfl, rfl⟩
    · exact .inl (isComplete_startPath ht current)
  · exact .inl (isComplete_of_resolve? htags h)

theorem startPath_of_resolve? (h : t.resolve? current tags = some path) :
    t.startPath path = path := by
  rcases isComplete_or_of_resolve? h with hcomplete | ⟨rfl, rfl, -⟩
  · exact if_pos hcomplete
  · exact startPath_empty []

/-- **Tags can be given together or one after the other.** -/
theorem resolve?_append (t : SpriteTree) (current tags more : List String) :
    t.resolve? current (tags ++ more) = (t.resolve? current tags).bind (t.resolve? · more) := by
  rw [resolve?, List.foldlM_append, ← resolve?]
  cases h : t.resolve? current tags with
  | none => rfl
  | some path =>
    show more.foldlM t.applyTag? path = t.resolve? path more
    rw [resolve?, startPath_of_resolve? h]

theorem resolve?_singleton (t : SpriteTree) (current : List String) (tag : String) :
    t.resolve? current [tag] = t.applyTag? (t.startPath current) tag := by
  rw [resolve?, List.foldlM_cons]
  cases t.applyTag? (t.startPath current) tag <;> rfl

/-- What tags lead to, the last of them has led to. -/
theorem exists_of_resolve?_concat (h : t.resolve? current (tags ++ [tag]) = some path) :
    ∃ before, t.applyTag? before tag = some path := by
  rw [resolve?_append] at h
  obtain ⟨before, -, hlast⟩ := Option.bind_eq_some_iff.1 h
  rw [resolve?_singleton] at hlast
  exact ⟨_, hlast⟩

/-- The laws by which tags choose a state. The first two say what no tag and one tag do, and the
third puts tags together, so these fix what any tags do. -/
structure Lawful (t : SpriteTree) : Prop where
  /-- A state that is not complete gives way to the default. -/
  start : ∀ current, t.resolve? current [] =
    some (if t.isComplete current = true then current else t.defaultPath)
  one : ∀ current tag path, t.resolve? current [tag] = some path ↔
    ∃ front, t.Chooses (t.startPath current) tag front ∧ path = t.descend (front ++ [tag])
  append : ∀ current tags more,
    t.resolve? current (tags ++ more) = (t.resolve? current tags).bind (t.resolve? · more)
  complete : ∀ current tags path, t.resolve? current tags = some path →
    t.isComplete path = true ∨ path = [] ∧ t = empty ∧ tags = []
  last : ∀ current tags tag path, t.resolve? current (tags ++ [tag]) = some path → tag ∈ path
  /-- A tag that is given a second time changes nothing. -/
  again : ∀ current tags tag path, t.resolve? current (tags ++ [tag]) = some path →
    t.resolve? path [tag] = some path

/-- **Tags choose states by these laws** in every tree that has grown by adding paths. -/
theorem ofAdditions_lawful (added : List (List String × Asset)) : Lawful (ofAdditions added) where
  start _ := rfl
  one current tag path := by
    rw [resolve?_singleton]
    exact applyTag?_eq_some
  append := resolve?_append _
  complete _ _ _ := isComplete_or_of_resolve?
  last _ _ _ _ h := by
    obtain ⟨before, hbefore⟩ := exists_of_resolve?_concat h
    exact mem_of_applyTag? hbefore
  again _ _ _ _ h := by
    obtain ⟨before, hbefore⟩ := exists_of_resolve?_concat h
    rw [resolve?_singleton, startPath_of_resolve? h]
    exact applyTag?_again hbefore

/-! ### Naming a state -/

/-- No name of the path is also offered by a level further up along the path. -/
def Unambiguous (t : SpriteTree) (path : List String) : Prop :=
  ∀ i, (h : i < path.length) → ∀ j, j < i → t.offers path[i] (path.take j) = false

theorem Unambiguous.offers_eq_false {name : String} {higher back : List String}
    (h : t.Unambiguous (front ++ name :: back)) (hhigher : higher <+: front)
    (hne : higher ≠ front) : t.offers name higher = false := by
  have hlt : higher.length < front.length := by
    have hle := hhigher.length_le
    have hlength : higher.length ≠ front.length := fun heq => hne (hhigher.eq_of_length heq)
    omega
  have hname := h front.length (by simp) higher.length hlt
  have htake : (front ++ name :: back).take higher.length = higher :=
    (List.prefix_iff_eq_take.1 (hhigher.trans (List.prefix_append _ _))).symm
  rw [htake] at hname
  simpa using hname

/-- A name of the path that is next to be named goes behind those that were. -/
theorem applyTag?_named {name : String} {back : List String}
    (hclear : t.Unambiguous (front ++ name :: back))
    (hleads : (t.below? (front ++ name :: back)).isSome = true) (hfront : front <+: path) :
    t.applyTag? path name = some (t.descend (front ++ [name])) := by
  have hoffered : t.offers name front = true := by
    rw [offers_iff]
    rw [List.append_cons, below?_append] at hleads
    exact Option.isSome_of_isSome_bind hleads
  exact applyTag?_eq_some.2
    ⟨front, ⟨hfront, hoffered, fun _ hhigher hne => hclear.offers_eq_false hhigher hne⟩, rfl⟩

/-- **Along the names of a path** the front that was named stays, and the path is reached in the
end. The induction is on the names to come, from any path that starts with those before them. -/
theorem foldlM_applyTag?_named : ∀ (back front : List String) {path : List String},
    t.Unambiguous (front ++ back) → (t.below? (front ++ back)).isSome = true → front <+: path →
      back ≠ [] → back.foldlM t.applyTag? path = some (t.descend (front ++ back))
  | [], _, _, _, _, _, hne => absurd rfl hne
  | [name], front, path, hclear, hleads, hfront, _ => by
    rw [List.foldlM_cons, applyTag?_named hclear hleads hfront]
    rfl
  | name :: next :: back, front, path, hclear, hleads, hfront, _ => by
    rw [List.foldlM_cons, applyTag?_named hclear hleads hfront,
      List.append_cons front name (next :: back)]
    rw [List.append_cons] at hclear hleads
    exact foldlM_applyTag?_named (next :: back) _ hclear hleads (t.isPrefix_descend _)
      (List.cons_ne_nil _ _)

/-- **Naming a state selects it**, whatever state the character was in. -/
theorem ofAdditions_selects (added : List (List String × Asset)) (path : List String)
    (hcomplete : (ofAdditions added).isComplete path = true)
    (hclear : (ofAdditions added).Unambiguous path) (current : List String) :
    (ofAdditions added).resolve? current path = some path := by
  obtain ⟨hne, hleaf⟩ := isComplete_iff.1 hcomplete
  have hleads : ((ofAdditions added).below? path).isSome = true := by rw [hleaf]; rfl
  rw [resolve?, foldlM_applyTag?_named path [] hclear hleads List.nil_prefix hne, List.nil_append,
    descend_of_isComplete hcomplete]

/-- Two outfits. The default of the second has the mood `angry`, which is one of the first too. -/
def outfits : List (List String × Asset) :=
  [(["casual", "smile"], .file "a"), (["casual", "angry"], .file "b"),
    (["school", "angry", "left"], .file "c"), (["school", "angry", "right"], .file "d")]

theorem outfits_selects :
    (ofAdditions outfits).isComplete ["school", "angry", "right"] = true ∧
      (ofAdditions outfits).Unambiguous ["school", "angry", "right"] ∧
      (ofAdditions outfits).resolve? ["casual", "angry"] ["school", "angry", "right"] =
        some ["school", "angry", "right"] := by
  have hcomplete : (ofAdditions outfits).isComplete ["school", "angry", "right"] = true := by
    decide +kernel
  have hclear : (ofAdditions outfits).Unambiguous ["school", "angry", "right"] := by
    unfold Unambiguous
    decide +kernel
  exact ⟨hcomplete, hclear, ofAdditions_selects outfits _ hcomplete hclear ["casual", "angry"]⟩

end Manuscript.SpriteTree
