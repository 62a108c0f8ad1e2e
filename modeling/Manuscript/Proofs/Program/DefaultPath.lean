/-
# The default state never jumps

The default state of a character is reached by taking the first name at every level. It
is the first complete state in the order of the images. A path that is added goes behind
the names of its levels, so it never comes before a name that is there, and the only way
to change the default is to go on below it: if the path added starts with the default
path it becomes the default, and else the default stays (`defaultPath_insert`). The
default of a tree that has grown in any order therefore starts with the path that was
added first.

Key definitions: `SpriteTree.Steady`.
Key theorems: `SpriteTree.defaultPath_insert`, `SpriteTree.find?_isComplete_images`,
`SpriteTree.ofAdditions_steady`.
-/
import Manuscript.Proofs.Program.Additions

namespace Manuscript.SpriteTree

variable {asset : Asset} {path : List String} {t : SpriteTree}
  {added : List (List String × Asset)}

theorem defaultPath_ne_nil (h : t ≠ empty) : t.defaultPath ≠ [] := by
  cases t with
  | empty => exact absurd rfl h
  | node n a children siblings => exact List.cons_ne_nil _ _

/-- First names lead to a complete path. -/
theorem isComplete_defaultPath (h : t ≠ empty) : t.isComplete t.defaultPath = true :=
  isComplete_iff.2 ⟨defaultPath_ne_nil h, below?_defaultPath t⟩

/-- Looked up from the root, every name of the default path is the first of its level. -/
theorem head?_names_of_defaultPath : ∀ (t : SpriteTree) {front back : List String} {name : String},
    t.defaultPath = front ++ name :: back →
      ∃ level, t.below? front = some level ∧ level.names.head? = some name
  | empty, [], _, _, h => by cases h
  | empty, _ :: _, _, _, h => by cases h
  | node n a children siblings, [], back, name, h => by
    obtain ⟨rfl, -⟩ := List.cons.inj h
    exact ⟨node n a children siblings, rfl, rfl⟩
  | node n a children siblings, first :: front, back, name, h => by
    obtain ⟨rfl, hrest⟩ := List.cons.inj h
    rw [below?_here]
    exact head?_names_of_defaultPath children hrest

/-! ### The order of the images -/

/-- Of the images below a path, the first that leads to a leaf is the default. Which paths are
complete is asked of the whole tree, of which `t` is the level below `above`. -/
theorem find?_imagesBelow {complete : List String → Bool} :
    ∀ (t : SpriteTree) {above : List String},
    (∀ rest, rest ≠ [] → (complete (above ++ rest) = true ↔ t.below? rest = some empty)) →
      t ≠ empty → ((t.imagesBelow above).map (·.1)).find? complete = some (above ++ t.defaultPath)
  | empty, _, _, hne => absurd rfl hne
  | node n a children siblings, above, hcomplete, _ => by
    have hown : complete (above ++ [n]) = true ↔ children = empty := by
      rw [hcomplete [n] (List.cons_ne_nil _ _), below?_here]
      exact Option.some_inj
    rw [imagesBelow, List.map_append, List.map_append, List.find?_append, List.find?_append,
      defaultPath]
    by_cases hleaf : children = empty
    · subst hleaf
      simp [isEmpty, defaultPath, hown.2 rfl]
    · -- The name itself is passed over, whether or not it has art.
      have hskip : ((if a.isSome || children.isEmpty then [(above ++ [n], a)] else []).map
          (·.1)).find? complete = none := by
        split <;> simp [hleaf, hown]
      have hbelow : ∀ rest, rest ≠ [] →
          (complete (above ++ [n] ++ rest) = true ↔ children.below? rest = some empty) := by
        intro rest hne
        rw [List.append_assoc, List.singleton_append, hcomplete _ (List.cons_ne_nil _ _),
          below?_here]
      rw [hskip, find?_imagesBelow children hbelow hleaf]
      simp

/-- **The default is the first complete path among the images.** -/
theorem find?_isComplete_images (h : t ≠ empty) :
    (t.images.map (·.1)).find? t.isComplete = some t.defaultPath := by
  rw [images, find?_imagesBelow t (fun rest hne => ?_) h, List.nil_append]
  rw [List.nil_append, isComplete_iff]
  exact and_iff_right hne

/-! ### Adding paths -/

theorem defaultPath_chain (asset : Asset) : ∀ path : List String,
    (chain asset path).defaultPath = path
  | [] => rfl
  | [_] => rfl
  | name :: next :: path => by rw [chain, defaultPath, defaultPath_chain asset (next :: path)]

/-- **A path that is added becomes the default if it goes on from the default**, and else the
default stays. -/
theorem defaultPath_insert : ∀ (t : SpriteTree) (path : List String),
    (t.insert asset path).defaultPath = if t.defaultPath <+: path then path else t.defaultPath
  | empty, path => by
    rw [insert, defaultPath_chain, defaultPath, if_pos List.nil_prefix]
  | node n a children siblings, [] => by
    rw [insert_nil, defaultPath, if_neg (by simp)]
  | node n a children siblings, name :: path => by
    by_cases hn : n = name
    · subst hn
      cases path with
      | nil =>
        rw [insert_here, defaultPath, defaultPath]
        by_cases hleaf : children.defaultPath = []
        · simp [hleaf]
        · simp [List.cons_prefix_cons, hleaf]
      | cons next path =>
        rw [insert_below, defaultPath, defaultPath, defaultPath_insert children (next :: path)]
        by_cases hfront : children.defaultPath <+: next :: path
        · simp [List.cons_prefix_cons, hfront]
        · simp [List.cons_prefix_cons, hfront]
    · rw [insert_beside hn, defaultPath, defaultPath, if_neg]
      rw [List.cons_prefix_cons]
      exact fun h => hn h.1

/-- In the words of a tree that has a default: only a path that is longer changes it. -/
theorem defaultPath_insert_strict (t : SpriteTree) (path : List String) :
    (t.insert asset path).defaultPath =
      if t.defaultPath <+: path ∧ path ≠ t.defaultPath then path else t.defaultPath := by
  rw [defaultPath_insert]
  by_cases heq : path = t.defaultPath
  · simp [heq]
  · simp [heq]

theorem isPrefix_defaultPath_insert (t : SpriteTree) (path : List String) :
    t.defaultPath <+: (t.insert asset path).defaultPath := by
  rw [defaultPath_insert]
  split
  · assumption
  · exact List.prefix_rfl

/-- However a tree goes on to grow, its default starts with the one it had. -/
theorem isPrefix_defaultPath_foldl : ∀ (added : List (List String × Asset)) (t : SpriteTree),
    t.defaultPath <+: (added.foldl (fun t e => t.insert e.2 e.1) t).defaultPath
  | [], _ => List.prefix_rfl
  | e :: added, t => (isPrefix_defaultPath_insert t e.1).trans (isPrefix_defaultPath_foldl added _)

/-- The default starts with the first path that was added; the empty path is not added. -/
theorem isPrefix_defaultPath_ofAdditions
    (h : (added.map (·.1)).find? (fun path => !path.isEmpty) = some path) :
    path <+: (ofAdditions added).defaultPath := by
  induction added with
  | nil => cases h
  | cons e added ih =>
    rcases e with ⟨first, asset⟩
    rw [ofAdditions, List.foldl_cons]
    cases first with
    | nil => exact ih h
    | cons name rest =>
      obtain rfl : name :: rest = path := by simpa using h
      have hfirst : (empty.insert asset (name :: rest)).defaultPath = name :: rest :=
        defaultPath_chain asset _
      have hgrows := isPrefix_defaultPath_foldl added (empty.insert asset (name :: rest))
      rwa [hfirst] at hgrows

/-- The default of a tree is found where it is expected, and it moves only by going on below
itself. -/
structure Steady (added : List (List String × Asset)) (t : SpriteTree) : Prop where
  /-- A tree that holds nothing has no default. -/
  nothing : t = empty → t.defaultPath = []
  complete : t ≠ empty → t.isComplete t.defaultPath = true
  /-- Every name of the default is the first of the level that is found for the names before it. -/
  descends : ∀ front name back, t.defaultPath = front ++ name :: back →
    ∃ level, t.below? front = some level ∧ level.names.head? = some name
  first : t ≠ empty → (t.images.map (·.1)).find? t.isComplete = some t.defaultPath
  moves : t ≠ empty → ∀ asset path, (t.insert asset path).defaultPath =
    if t.defaultPath <+: path ∧ path ≠ t.defaultPath then path else t.defaultPath
  /-- The default starts with the first path that was added. -/
  starts : ∀ path, (added.map (·.1)).find? (fun path => !path.isEmpty) = some path →
    path <+: t.defaultPath

/-- **The default state never jumps**, in whatever order paths are added. -/
theorem ofAdditions_steady (added : List (List String × Asset)) :
    Steady added (ofAdditions added) where
  nothing h := by rw [h, defaultPath]
  complete := isComplete_defaultPath
  descends _ _ _ := head?_names_of_defaultPath _
  first := find?_isComplete_images
  moves _ _ path := defaultPath_insert_strict _ path
  starts _ := isPrefix_defaultPath_ofAdditions

end Manuscript.SpriteTree
