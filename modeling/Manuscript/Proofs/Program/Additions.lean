/-
# A sprite tree is a map of what was added

A tree grows by adding paths, in any order: a path may run along names that are there,
branch off anywhere, go on below a leaf, or come a second time with other art. However
it was built, the tree holds what was added and nothing else. Its images are the paths
added, each once and with the art it was given last, and a path is complete if it was
added and no path that goes on from it was.

A tree is seen here through two questions that are asked of a path: which level is below
it (`below?`), and what art it has (`art?`). Adding a path changes one level at its first
name only (`child?_insert`, `own?_insert`), from which follows by going down the path what
it changes in the answers (`isSome_below?_insert`, `art?_insert`). The answers after a whole
run of additions follow by going along the run, and images and complete paths are read off
the answers.

Key definitions: `SpriteTree.art?`, `SpriteTree.ofAdditions`, `SpriteTree.LastGiven`,
`SpriteTree.MapOf`.
Key theorems: `SpriteTree.child?_insert`, `SpriteTree.mem_images_iff`,
`SpriteTree.isSome_below?_ofAdditions`, `SpriteTree.art?_ofAdditions`,
`SpriteTree.ofAdditions_mapOf`.
-/
import Mathlib.Data.List.Infix
import Manuscript.Proofs.Program.Sprite

namespace Manuscript.SpriteTree

variable {asset : Asset} {name n : String} {path other : List String} {a : Option Asset}
  {children siblings t : SpriteTree}

/-! ### Levels and art by path -/

/-- The art of a name of the level. -/
def own? (name : String) : SpriteTree → Option Asset
  | empty => none
  | node n asset _ siblings => if n = name then asset else siblings.own? name

/-- The art of a path. -/
def art? : List String → SpriteTree → Option Asset
  | [], _ => none
  | [name], t => t.own? name
  | name :: next :: path, t => (t.child? name).bind (art? (next :: path))

theorem art?_here : (node n a children siblings).art? [n] = a := by
  simp [art?, own?]

theorem art?_below {next : String} : (node n a children siblings).art? (n :: next :: path) =
    children.art? (next :: path) := by
  simp [art?, child?]

theorem art?_beside (h : n ≠ name) :
    (node n a children siblings).art? (name :: path) = siblings.art? (name :: path) := by
  cases path <;> simp [art?, own?, child?, h]

theorem art?_empty (path : List String) : empty.art? path = none := by
  rcases path with _ | ⟨name, _ | ⟨next, path⟩⟩ <;> rfl

theorem below?_here : (node n a children siblings).below? (n :: path) = children.below? path := by
  simp [below?, child?]

theorem below?_beside (h : n ≠ name) :
    (node n a children siblings).below? (name :: path) = siblings.below? (name :: path) := by
  simp [below?, child?, h]

theorem below?_empty (h : path ≠ []) : empty.below? path = none := by
  cases path with
  | nil => exact absurd rfl h
  | cons name path => rfl

/-- A level is empty if no name leads further. -/
theorem eq_empty_iff : t = empty ↔ ∀ name, t.below? [name] = none := by
  cases t with
  | empty => simp [below?_empty]
  | node n a children siblings =>
    simp only [reduceCtorEq, false_iff, not_forall]
    exact ⟨n, by simp [below?, child?]⟩

/-- A path is complete if it leads somewhere and cannot be continued. -/
theorem isComplete_iff_maximal : t.isComplete path = true ↔
    path ≠ [] ∧ (t.below? path).isSome = true ∧ ∀ name, t.below? (path ++ [name]) = none := by
  rw [isComplete_iff]
  refine and_congr_right fun _ => ?_
  cases hlevel : t.below? path with
  | none => simp
  | some level =>
    have hnext : ∀ name, t.below? (path ++ [name]) = level.below? [name] := fun name => by
      rw [below?_append, hlevel, Option.bind_some]
    simp only [Option.some.injEq, Option.isSome_some, true_and, hnext]
    exact eq_empty_iff

/-! ### Adding one path -/

theorem insert_nil (t : SpriteTree) : t.insert asset [] = t := by
  cases t <;> rfl

/-- Adding a path changes the level below its first name, which starts out empty if it was not
there, by adding the rest of the path to it. -/
theorem child?_insert (t : SpriteTree) : (t.insert asset (name :: path)).child? n =
    if n = name then some (((t.child? name).getD empty).insert asset path) else t.child? n := by
  induction t with
  | empty =>
    rw [insert]
    cases path <;> simp [chain, child?, insert, eq_comm]
  | node m a children siblings _ ih =>
    by_cases hm : m = name
    · subst hm
      cases path with
      | nil =>
        rw [insert_here, child?, child?, child?, if_pos rfl, Option.getD_some, insert_nil]
        grind
      | cons next path =>
        rw [insert_below, child?, child?, child?, if_pos rfl, Option.getD_some]
        grind
    · rw [insert_beside hm, child?, child?, child?, if_neg hm, ih]
      grind

theorem own?_insert (t : SpriteTree) : (t.insert asset (name :: path)).own? n =
    if n = name ∧ path = [] then some asset else t.own? n := by
  induction t with
  | empty =>
    rw [insert]
    cases path <;> simp [chain, own?, eq_comm]
  | node m a children siblings _ ih =>
    by_cases hm : m = name
    · subst hm
      cases path with
      | nil =>
        rw [insert_here, own?, own?]
        grind
      | cons next path => simp only [insert_below, own?, reduceCtorEq, and_false, if_false]
    · rw [insert_beside hm, own?, own?, ih]
      grind

/-- Along the path that is added, the rest of it is added to the level there. -/
theorem below?_insert_append : ∀ (t : SpriteTree) (front back : List String),
    (t.insert asset (front ++ back)).below? front =
      some (((t.below? front).getD empty).insert asset back)
  | _, [], _ => rfl
  | t, name :: front, back => by
    rw [List.cons_append, below?, child?_insert, if_pos rfl, Option.bind_some,
      below?_insert_append _ front back, below?]
    cases t.child? name with
    | none => cases front <;> rfl
    | some children => rfl

/-- Nothing changes off the path that is added. -/
theorem below?_insert_of_not_isPrefix : ∀ (t : SpriteTree) {path other : List String},
    ¬ other <+: path → (t.insert asset path).below? other = t.below? other
  | _, _, [], h => absurd List.nil_prefix h
  | t, [], _ :: _, _ => by rw [insert_nil]
  | t, name :: path, first :: other, h => by
    rw [below?, below?, child?_insert]
    by_cases hfirst : first = name
    · subst hfirst
      have hother : ¬ other <+: path := fun hp => h (List.cons_prefix_cons.2 ⟨rfl, hp⟩)
      rw [if_pos rfl, Option.bind_some, below?_insert_of_not_isPrefix _ hother]
      cases t.child? first with
      | none =>
        rw [Option.getD_none, Option.bind_none, below?_empty]
        rintro rfl
        exact hother List.nil_prefix
      | some children => rfl
    · rw [if_neg hfirst]

/-- **Adding a path makes it lead somewhere, with all its beginnings, and no other.** -/
theorem isSome_below?_insert : ((t.insert asset path).below? other).isSome = true ↔
    (t.below? other).isSome = true ∨ other <+: path := by
  by_cases h : other <+: path
  · obtain ⟨rest, rfl⟩ := h
    simp [below?_insert_append]
  · simp [below?_insert_of_not_isPrefix t h, h]

/-- **Adding a path gives it the art, and no other path.** -/
theorem art?_insert : ∀ (t : SpriteTree) {path other : List String}, path ≠ [] →
    (t.insert asset path).art? other = if other = path then some asset else t.art? other
  | _, [], _, h => absurd rfl h
  | t, name :: path, [], _ => by simp [art?]
  | t, name :: path, [first], _ => by
    rw [art?, own?_insert, art?]
    simp [eq_comm]
  | t, name :: path, first :: second :: other, _ => by
    rw [art?, child?_insert, art?]
    by_cases hfirst : first = name
    · subst hfirst
      rw [if_pos rfl, Option.bind_some]
      cases path with
      | nil =>
        rw [insert_nil, if_neg (by simp)]
        cases t.child? first with
        | none => exact art?_empty _
        | some children => rfl
      | cons next path =>
        rw [art?_insert _ (List.cons_ne_nil next path)]
        cases t.child? first with
        | none => simp [art?_empty]
        | some children => simp
    · rw [if_neg hfirst, if_neg fun heq => hfirst (List.cons.inj heq).1]

/-! ### Images -/

/-- The images below a path are the paths of the tree that have art or are leaves, each with the
art it has. -/
theorem mem_imagesBelow_iff {image : Option Asset} (ht : t.Unique) : ∀ {above : List String},
    (path, image) ∈ t.imagesBelow above ↔ ∃ rest, rest ≠ [] ∧ path = above ++ rest ∧
      image = t.art? rest ∧ (image.isSome = true ∨ t.below? rest = some empty) := by
  induction t generalizing path with
  | empty =>
    intro above
    simp only [imagesBelow, List.not_mem_nil, false_iff, not_exists]
    rintro rest ⟨hne, -, rfl, hart | hleaf⟩
    · simp [art?_empty] at hart
    · simp [below?_empty hne] at hleaf
  | node n a children siblings ihc ihs =>
    intro above
    obtain ⟨hname, hchildren, hsiblings⟩ := ht
    simp only [imagesBelow, List.mem_append, ihc hchildren, ihs hsiblings]
    have hown : (path, image) ∈ (if a.isSome || children.isEmpty then [(above ++ [n], a)] else
        [] : List (List String × Option Asset)) ↔
        path = above ++ [n] ∧ image = a ∧ (a.isSome = true ∨ children = empty) := by
      have hempty : children.isEmpty = true ↔ children = empty := by
        cases children <;> simp [isEmpty]
      by_cases h : a.isSome = true ∨ children = empty <;> simp [h, hempty]
    rw [hown]
    constructor
    · rintro ((⟨rfl, rfl, hart⟩ | ⟨rest, hne, rfl, himage, hart⟩) | ⟨rest, hne, rfl, himage, hart⟩)
      · refine ⟨[n], List.cons_ne_nil _ _, rfl, art?_here.symm, hart.imp_right fun h => ?_⟩
        rw [below?_here, h]
        rfl
      · obtain ⟨next, rest, rfl⟩ := List.exists_cons_of_ne_nil hne
        exact ⟨n :: next :: rest, List.cons_ne_nil _ _, by simp, by rw [art?_below, himage],
          hart.imp_right fun h => by rw [below?_here, h]⟩
      · obtain ⟨next, rest, rfl⟩ := List.exists_cons_of_ne_nil hne
        -- A path beside the name starts with another name of the level.
        have hother : n ≠ next := by
          rintro rfl
          have hmem : above ++ n :: rest ∈ (siblings.imagesBelow above).map (·.1) :=
            List.mem_map.2 ⟨(_, image), (ihs hsiblings).2 ⟨_, hne, rfl, himage, hart⟩, rfl⟩
          obtain ⟨first, hfirst, rest', heq⟩ := exists_of_mem_imagesBelow hmem
          rw [List.append_right_inj] at heq
          exact hname ((List.cons.inj heq).1 ▸ hfirst)
        exact ⟨next :: rest, hne, rfl, by rw [art?_beside hother, himage],
          hart.imp_right fun h => by rw [below?_beside hother, h]⟩
    · rintro ⟨rest, hne, rfl, himage, hart⟩
      obtain ⟨first, rest, rfl⟩ := List.exists_cons_of_ne_nil hne
      by_cases hn : n = first
      · subst hn
        rw [below?_here] at hart
        cases rest with
        | nil =>
          rw [art?_here] at himage
          subst himage
          exact .inl (.inl ⟨rfl, rfl, hart.imp_right Option.some.inj⟩)
        | cons next rest =>
          rw [art?_below] at himage
          exact .inl (.inr ⟨next :: rest, List.cons_ne_nil _ _, by simp, himage, hart⟩)
      · rw [art?_beside hn] at himage
        rw [below?_beside hn] at hart
        exact .inr ⟨first :: rest, hne, rfl, himage, hart⟩

/-- **The images of a tree** are its paths that have art or are leaves. -/
theorem mem_images_iff {image : Option Asset} (ht : t.Unique) : (path, image) ∈ t.images ↔
    path ≠ [] ∧ image = t.art? path ∧ (image.isSome = true ∨ t.below? path = some empty) := by
  rw [images, mem_imagesBelow_iff ht]
  constructor
  · rintro ⟨rest, hne, rfl, himage, hart⟩
    exact ⟨hne, himage, hart⟩
  · rintro ⟨hne, himage, hart⟩
    exact ⟨path, hne, rfl, himage, hart⟩

/-! ### Runs of additions -/

/-- The tree that grows by adding paths with their art, one after the other. -/
def ofAdditions (added : List (List String × Asset)) : SpriteTree :=
  added.foldl (fun t e => t.insert e.2 e.1) empty

/-- The path was added, and this is the art it was given last. -/
def LastGiven (added : List (List String × Asset)) (path : List String) (asset : Asset) : Prop :=
  ∃ before after, added = before ++ (path, asset) :: after ∧ path ∉ after.map (·.1)

variable {added : List (List String × Asset)}

theorem ofAdditions_concat (added : List (List String × Asset)) (e : List String × Asset) :
    ofAdditions (added ++ [e]) = (ofAdditions added).insert e.2 e.1 := by
  simp [ofAdditions]

theorem unique_ofAdditions (added : List (List String × Asset)) : (ofAdditions added).Unique := by
  induction added using List.reverseRecOn with
  | nil => exact trivial
  | append_singleton added e ih =>
    rw [ofAdditions_concat]
    exact unique_insert e.2 e.1 ih

/-- A path leads somewhere if a path that was added runs along it. -/
theorem isSome_below?_ofAdditions (h : path ≠ []) :
    ((ofAdditions added).below? path).isSome = true ↔ ∃ e ∈ added, path <+: e.1 := by
  induction added using List.reverseRecOn with
  | nil =>
    simp [ofAdditions, below?_empty h]
  | append_singleton added e ih =>
    rw [ofAdditions_concat, isSome_below?_insert, ih]
    simp only [List.mem_append, List.mem_singleton, or_and_right, exists_or, exists_eq_left]

theorem lastGiven_concat {e : List String × Asset} : LastGiven (added ++ [e]) path asset ↔
    e = (path, asset) ∨ e.1 ≠ path ∧ LastGiven added path asset := by
  constructor
  · rintro ⟨before, after, hadded, hafter⟩
    rcases List.eq_nil_or_concat after with rfl | ⟨after, last, rfl⟩
    · exact .inl (List.append_inj_right' hadded rfl |> List.singleton_inj.1)
    · rw [List.concat_eq_append, ← List.cons_append, ← List.append_assoc] at hadded
      obtain ⟨rfl, hlast⟩ := List.append_inj' hadded rfl
      obtain rfl : e = last := List.singleton_inj.1 hlast
      rw [List.concat_eq_append, List.map_append, List.mem_append, not_or] at hafter
      exact .inr ⟨fun heq => hafter.2 (by simp [heq]), before, after, rfl, hafter.1⟩
  · rintro (rfl | ⟨hne, before, after, rfl, hafter⟩)
    · exact ⟨added, [], rfl, List.not_mem_nil⟩
    · refine ⟨before, after ++ [e], by simp, ?_⟩
      rw [List.map_append, List.mem_append, not_or]
      exact ⟨hafter, by simpa using hne.symm⟩

/-- A path has the art that it was given last. -/
theorem art?_ofAdditions (h : path ≠ []) :
    (ofAdditions added).art? path = some asset ↔ LastGiven added path asset := by
  induction added using List.reverseRecOn with
  | nil =>
    simp [ofAdditions, art?_empty, LastGiven]
  | append_singleton added e ih =>
    rcases e with ⟨last, given⟩
    rw [ofAdditions_concat, lastGiven_concat]
    dsimp only
    by_cases hlast : last = path
    · subst hlast
      simp [art?_insert _ h]
    · rw [← ih]
      cases last with
      | nil => simp [insert_nil, h.symm]
      | cons first rest =>
        rw [art?_insert _ (List.cons_ne_nil first rest), if_neg (Ne.symm hlast)]
        simp [hlast]

theorem exists_lastGiven_iff : (∃ asset, LastGiven added path asset) ↔
    path ∈ added.map (·.1) := by
  induction added using List.reverseRecOn with
  | nil => simp [LastGiven]
  | append_singleton added e ih =>
    rcases e with ⟨last, given⟩
    simp only [lastGiven_concat, Prod.mk.injEq, exists_or, exists_and_left, exists_eq', and_true,
      ih, List.map_append, List.mem_append, List.map_cons, List.map_nil, List.mem_singleton]
    by_cases hlast : last = path
    · simp [hlast]
    · simp [hlast, Ne.symm hlast]

/-- A path is complete if it was added and none that goes on from it was. -/
theorem isComplete_ofAdditions : (ofAdditions added).isComplete path = true ↔
    path ≠ [] ∧ path ∈ added.map (·.1) ∧
      ∀ longer ∈ added.map (·.1), path <+: longer → longer = path := by
  rw [isComplete_iff_maximal]
  refine and_congr_right fun hne => ?_
  have hnone : ∀ name, (ofAdditions added).below? (path ++ [name]) = none ↔
      ∀ e ∈ added, ¬ path ++ [name] <+: e.1 := by
    intro name
    rw [← Option.not_isSome_iff_eq_none, isSome_below?_ofAdditions (by simp)]
    simp only [not_exists, not_and]
  simp only [hnone, isSome_below?_ofAdditions hne]
  constructor
  · rintro ⟨⟨e, he, hfront⟩, hlast⟩
    have heq : ∀ e ∈ added, path <+: e.1 → e.1 = path := by
      rintro e he ⟨rest, hrest⟩
      cases rest with
      | nil => simpa using hrest.symm
      | cons name rest => exact absurd ⟨rest, by simpa using hrest⟩ (hlast name e he)
    refine ⟨List.mem_map.2 ⟨e, he, heq e he hfront⟩, fun longer hlonger => ?_⟩
    obtain ⟨e, he, rfl⟩ := List.mem_map.1 hlonger
    exact heq e he
  · rintro ⟨hmem, hlast⟩
    obtain ⟨e, he, rfl⟩ := List.mem_map.1 hmem
    refine ⟨⟨e, he, List.prefix_rfl⟩, fun name e' he' hfront => ?_⟩
    have hlonger : e'.1 = e.1 :=
      hlast e'.1 (List.mem_map_of_mem he') ((List.prefix_append _ _).trans hfront)
    have hlength := hfront.length_le
    rw [hlonger, List.length_append, List.length_singleton] at hlength
    omega

/-- The images are the paths that were added, with the art they were given last. -/
theorem mem_images_ofAdditions {image : Option Asset} :
    (path, image) ∈ (ofAdditions added).images ↔
      path ≠ [] ∧ ∃ asset, image = some asset ∧ LastGiven added path asset := by
  rw [mem_images_iff (unique_ofAdditions added)]
  refine and_congr_right fun hne => ?_
  constructor
  · rintro ⟨rfl, hart⟩
    -- A leaf was added, so it has art too.
    have hgiven : ∃ asset, (ofAdditions added).art? path = some asset := by
      rcases hart with hart | hleaf
      · exact Option.isSome_iff_exists.1 hart
      · have hmem := (isComplete_ofAdditions.1 (isComplete_iff.2 ⟨hne, hleaf⟩)).2.1
        obtain ⟨asset, hasset⟩ := exists_lastGiven_iff.2 hmem
        exact ⟨asset, (art?_ofAdditions hne).2 hasset⟩
    obtain ⟨asset, hasset⟩ := hgiven
    exact ⟨asset, hasset, (art?_ofAdditions hne).1 hasset⟩
  · rintro ⟨asset, rfl, hgiven⟩
    exact ⟨((art?_ofAdditions hne).2 hgiven).symm, .inl rfl⟩

theorem mem_paths_ofAdditions : path ∈ (ofAdditions added).images.map (·.1) ↔
    path ≠ [] ∧ path ∈ added.map (·.1) := by
  rw [← exists_lastGiven_iff]
  constructor
  · intro h
    obtain ⟨⟨path, image⟩, hmem, rfl⟩ := List.mem_map.1 h
    obtain ⟨hne, asset, -, hgiven⟩ := mem_images_ofAdditions.1 hmem
    exact ⟨hne, asset, hgiven⟩
  · rintro ⟨hne, asset, hgiven⟩
    have hmem := mem_images_ofAdditions.2 ⟨hne, asset, rfl, hgiven⟩
    exact List.mem_map.2 ⟨(path, some asset), hmem, rfl⟩

/-- The tree holds what was added and nothing else. No level has a name twice. The images are the
paths that were added, each once and with the art it was given last; the empty path is not added.
A path is complete if it was added and no longer path that starts with it was. -/
structure MapOf (added : List (List String × Asset)) (t : SpriteTree) : Prop where
  names : t.Unique
  once : (t.images.map (·.1)).Nodup
  images : ∀ path image, (path, image) ∈ t.images ↔
    path ≠ [] ∧ ∃ asset, image = some asset ∧ LastGiven added path asset
  paths : ∀ path, path ∈ t.images.map (·.1) ↔ path ≠ [] ∧ path ∈ added.map (·.1)
  complete : ∀ path, t.isComplete path = true ↔ path ≠ [] ∧ path ∈ added.map (·.1) ∧
    ∀ longer ∈ added.map (·.1), path <+: longer → longer = path
  unmoved : ∀ asset, t.insert asset [] = t

/-- **A sprite tree is a map of what was added**, in whatever order that was. -/
theorem ofAdditions_mapOf (added : List (List String × Asset)) :
    MapOf added (ofAdditions added) where
  names := unique_ofAdditions added
  once := nodup_images (unique_ofAdditions added)
  images _ _ := mem_images_ofAdditions
  paths _ := mem_paths_ofAdditions
  complete _ := isComplete_ofAdditions
  unmoved _ := insert_nil _

end Manuscript.SpriteTree
