/-
# Complete states have images

A path through a sprite tree is complete if it leads to a leaf. Tags that lead
somewhere lead to a complete path, since the levels below the last tag fall back to
their first names; and every complete path is among the images of the tree. In a
tree that was built by adding paths no level has a name twice, so no two of its
images have the same path.

Key definitions: `SpriteTree.Unique`.
Key theorems: `SpriteTree.isComplete_of_resolve?`, `SpriteTree.mem_images_of_isComplete`,
`SpriteTree.unique_insert`, `SpriteTree.nodup_images`.
-/
import Mathlib.Data.List.Nodup
import Manuscript.Program.Sprite

namespace Manuscript.SpriteTree

/-! ### Paths to leaves -/

theorem below?_append : ∀ (front back : List String) (t : SpriteTree),
    t.below? (front ++ back) = (t.below? front).bind (below? back)
  | [], _, _ => rfl
  | name :: front, back, t => by
    rw [List.cons_append, below?, below?]
    cases t.child? name with
    | none => rfl
    | some children => exact below?_append front back children

/-- First names lead to a leaf. -/
theorem below?_defaultPath : ∀ t : SpriteTree, t.below? t.defaultPath = some empty
  | empty => rfl
  | node name _ children _ => by
    rw [defaultPath, below?, child?, if_pos rfl]
    exact below?_defaultPath children

theorem mem_names_iff {name : String} : ∀ {t : SpriteTree},
    name ∈ t.names ↔ (t.child? name).isSome = true
  | empty => by simp [names, child?]
  | node n a children siblings => by
    rw [names, List.mem_cons, child?, mem_names_iff]
    by_cases hn : n = name
    · simp [hn]
    · simp [hn, Ne.symm hn]

/-- A name is offered below a path if the path goes on with it. -/
theorem offers_iff {t : SpriteTree} {name : String} {path : List String} :
    t.offers name path = true ↔ (t.below? (path ++ [name])).isSome = true := by
  rw [offers, below?_append]
  cases t.below? path with
  | none => simp
  | some level =>
    have hnext : level.below? [name] = level.child? name := by
      rw [below?]
      cases level.child? name <;> rfl
    simp [mem_names_iff, hnext]

theorem isComplete_iff {t : SpriteTree} {path : List String} :
    t.isComplete path = true ↔ path ≠ [] ∧ t.below? path = some empty := by
  simp [isComplete]

/-- A tag that leads somewhere leads to a leaf. -/
theorem isComplete_of_applyTag? {t : SpriteTree} {current path : List String} {tag : String}
    (h : t.applyTag? current tag = some path) : t.isComplete path = true := by
  obtain ⟨depth, hfind, rfl⟩ := Option.map_eq_some_iff.1 h
  have hoffers : t.offers tag (current.take depth) = true := by
    simpa using List.find?_some hfind
  obtain ⟨children, hbelow⟩ := Option.isSome_iff_exists.1 (offers_iff.1 hoffers)
  rw [descend, hbelow]
  dsimp only
  rw [isComplete_iff, below?_append, hbelow]
  exact ⟨by simp, below?_defaultPath children⟩

/-- Tags that lead somewhere lead to a leaf. -/
theorem isComplete_of_resolve? {t : SpriteTree} {current path tags : List String}
    (htags : tags ≠ []) (h : t.resolve? current tags = some path) : t.isComplete path = true := by
  unfold resolve? at h
  generalize t.startPath current = start at h
  induction tags generalizing start with
  | nil => exact absurd rfl htags
  | cons tag tags ih =>
    rw [List.foldlM_cons] at h
    obtain ⟨between, hbetween, hrest⟩ := Option.bind_eq_some_iff.1 h
    cases tags with
    | nil =>
      obtain rfl : between = path := by simpa using hrest
      exact isComplete_of_applyTag? hbetween
    | cons next tags => exact ih (List.cons_ne_nil _ _) between hrest

/-! ### Images -/

theorem mem_imagesBelow {t : SpriteTree} : ∀ (above : List String) {path : List String}, path ≠ [] →
    t.below? path = some empty → above ++ path ∈ (t.imagesBelow above).map (·.1) := by
  induction t with
  | empty =>
    intro above path hne hbelow
    cases path with
    | nil => exact absurd rfl hne
    | cons name path => simp [below?, child?] at hbelow
  | node name asset children siblings ihc ihs =>
    intro above path hne hbelow
    simp only [imagesBelow, List.map_append, List.mem_append]
    cases path with
    | nil => exact absurd rfl hne
    | cons first rest =>
      rw [below?, child?] at hbelow
      by_cases hn : name = first
      · subst hn
        rw [if_pos rfl, Option.bind_some] at hbelow
        cases rest with
        | nil =>
          obtain rfl : children = empty := Option.some.inj hbelow
          simp [isEmpty]
        | cons next rest =>
          have hdeeper := ihc (above ++ [name]) (List.cons_ne_nil next rest) hbelow
          rw [List.append_assoc] at hdeeper
          exact .inl (.inr hdeeper)
      · rw [if_neg hn] at hbelow
        exact .inr (ihs above (List.cons_ne_nil first rest) hbelow)

/-- **A complete state has an image.** -/
theorem mem_images_of_isComplete {t : SpriteTree} {path : List String}
    (h : t.isComplete path = true) : path ∈ t.images.map (·.1) := by
  obtain ⟨hne, hbelow⟩ := isComplete_iff.1 h
  exact mem_imagesBelow [] hne hbelow

/-! ### Names of a level -/

/-- No level of the tree has a name twice. -/
def Unique : SpriteTree → Prop
  | empty => True
  | node name _ children siblings => name ∉ siblings.names ∧ children.Unique ∧ siblings.Unique

theorem names_chain {asset : Asset} {name : String} {path : List String} :
    (chain asset (name :: path)).names = [name] := by
  cases path <;> rfl

theorem unique_chain (asset : Asset) : ∀ path : List String, (chain asset path).Unique
  | [] => trivial
  | [name] => ⟨by simp [names], trivial, trivial⟩
  | name :: next :: path => ⟨by simp [names], unique_chain asset (next :: path), trivial⟩

section Insert

variable {asset : Asset} {name n : String} {path : List String} {a : Option Asset}
  {children siblings : SpriteTree}

theorem insert_beside (h : n ≠ name) : (node n a children siblings).insert asset (name :: path) =
    node n a children (siblings.insert asset (name :: path)) := by
  rw [insert.eq_def]
  exact if_neg h

theorem insert_here : (node n a children siblings).insert asset [n] =
    node n (some asset) children siblings := by
  rw [insert.eq_def]
  exact if_pos rfl

theorem insert_below {next : String} :
    (node n a children siblings).insert asset (n :: next :: path) =
      node n a (children.insert asset (next :: path)) siblings := by
  rw [insert.eq_def]
  exact if_pos rfl

end Insert

/-- Adding a path adds no name but its first to the level. -/
theorem mem_names_insert {asset : Asset} {name : String} {path : List String} {other : String}
    {t : SpriteTree} (h : other ∈ (t.insert asset (name :: path)).names) :
    other = name ∨ other ∈ t.names := by
  induction t with
  | empty =>
    rw [insert, names_chain] at h
    exact .inl (List.mem_singleton.1 h)
  | node n a children siblings _ ih =>
    by_cases hn : n = name
    · subst hn
      cases path with
      | nil =>
        rw [insert_here] at h
        exact .inr h
      | cons next path =>
        rw [insert_below] at h
        exact .inr h
    · rw [insert_beside hn] at h
      rcases List.mem_cons.1 h with rfl | h
      · exact .inr List.mem_cons_self
      · exact (ih h).imp_right (List.mem_cons_of_mem _)

/-- **Adding a path keeps the names of a level different.** -/
theorem unique_insert (asset : Asset) {t : SpriteTree} : ∀ (path : List String), t.Unique →
    (t.insert asset path).Unique := by
  induction t with
  | empty =>
    intro path _
    rw [insert]
    exact unique_chain asset path
  | node n a children siblings ihc ihs =>
    rintro path ⟨hname, hchildren, hsiblings⟩
    cases path with
    | nil => exact ⟨hname, hchildren, hsiblings⟩
    | cons name path =>
      by_cases hn : n = name
      · subst hn
        cases path with
        | nil =>
          rw [insert_here]
          exact ⟨hname, hchildren, hsiblings⟩
        | cons next path =>
          rw [insert_below]
          exact ⟨hname, ihc (next :: path) hchildren, hsiblings⟩
      · rw [insert_beside hn]
        refine ⟨fun hmem => ?_, hchildren, ihs (name :: path) hsiblings⟩
        rcases mem_names_insert hmem with heq | hmem
        · exact hn heq
        · exact hname hmem

/-- An image below a path goes on by a name of the level. -/
theorem exists_of_mem_imagesBelow {t : SpriteTree} : ∀ {above path : List String},
    path ∈ (t.imagesBelow above).map (·.1) → ∃ name ∈ t.names, ∃ rest, path = above ++ name :: rest := by
  induction t with
  | empty => simp [imagesBelow]
  | node name asset children siblings ihc ihs =>
    intro above path h
    simp only [imagesBelow, List.map_append, List.mem_append] at h
    rcases h with (h | h) | h
    · split at h
      · obtain rfl : path = above ++ [name] := by simpa using h
        exact ⟨name, List.mem_cons_self, [], rfl⟩
      · simp at h
    · obtain ⟨next, -, rest, rfl⟩ := ihc h
      exact ⟨name, List.mem_cons_self, next :: rest, by simp⟩
    · obtain ⟨next, hnext, rest, rfl⟩ := ihs h
      exact ⟨next, List.mem_cons_of_mem _ hnext, rest, rfl⟩

theorem nodup_imagesBelow {t : SpriteTree} : ∀ (above : List String), t.Unique →
    ((t.imagesBelow above).map (·.1)).Nodup := by
  induction t with
  | empty => simp [imagesBelow]
  | node name asset children siblings ihc ihs =>
    rintro above ⟨hname, hchildren, hsiblings⟩
    have hown : ∀ path ∈ ((if asset.isSome || children.isEmpty then [(above ++ [name], asset)] else
        []) : List (List String × Option Asset)).map (·.1), path = above ++ [name] := by
      split <;> simp
    have hownNodup : (((if asset.isSome || children.isEmpty then [(above ++ [name], asset)] else
        []) : List (List String × Option Asset)).map (·.1)).Nodup := by
      split <;> simp
    simp only [imagesBelow, List.map_append]
    refine List.nodup_append.2 ⟨List.nodup_append.2 ⟨hownNodup, ihc _ hchildren, ?_⟩,
      ihs _ hsiblings, ?_⟩
    · -- What is below a name is longer than the path to it.
      rintro path hpath other hother rfl
      obtain ⟨next, -, rest, hlong⟩ := exists_of_mem_imagesBelow hother
      have hlength := congrArg List.length ((hown _ hpath).symm.trans hlong)
      simp at hlength
    · -- What is beside a name goes on by another name.
      rintro path hpath other hother rfl
      obtain ⟨next, hnext, rest, hbeside⟩ := exists_of_mem_imagesBelow hother
      have hfirst : ∃ rest, path = above ++ name :: rest := by
        rcases List.mem_append.1 hpath with hpath | hpath
        · exact ⟨[], hown _ hpath⟩
        · obtain ⟨deeper, -, rest, hdeeper⟩ := exists_of_mem_imagesBelow hpath
          exact ⟨deeper :: rest, by rw [hdeeper, List.append_assoc]; rfl⟩
      obtain ⟨rest', hrest'⟩ := hfirst
      rw [hbeside, List.append_right_inj] at hrest'
      exact hname ((List.cons.inj hrest').1 ▸ hnext)

/-- **No two images of a tree have the same path.** -/
theorem nodup_images {t : SpriteTree} (h : t.Unique) : (t.images.map (·.1)).Nodup :=
  nodup_imagesBelow [] h

end Manuscript.SpriteTree
