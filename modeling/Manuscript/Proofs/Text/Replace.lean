/-
# Replacing piece by piece, and all at once

A text can be replaced in another one only where it stands whole. If it holds no character
of some class, it lies between two characters of that class, so to replace it is to replace
it in each piece of the text on its own (`Text.piecewise_replaceEach`). That also holds of
several replacements, whether they are made one after the other or all at once.

A function that goes over the pieces in this way keeps the characters of the class and can
only add to them. So if of two such functions one adds at least as many in every piece, they
give the same text exactly if they give the same for every piece
(`Text.Piecewise.eq_iff`): what one piece is too long by, another cannot make up for.

Key definitions: `Text.replaceEach`, `Text.Piecewise`.
Key theorems: `Text.replaceEach_of_absent`, `Text.piecewise_replaceEach`,
`Text.Piecewise.countP_le`, `Text.Piecewise.eq_iff`.
-/
import Mathlib.Data.List.Infix
import Manuscript.Proofs.Identifier

namespace Manuscript.Text

/-! ### All at once -/

/-- Replaces the first text of every pair by the second one from left to right, after leaving out
`skip` characters that belong to a replaced piece. -/
def replaceEachFrom (pairs : List (List Char × List Char)) : Nat → List Char → List Char
  | _, [] => []
  | skip + 1, _ :: cs => replaceEachFrom pairs skip cs
  | 0, c :: cs =>
    match pairs.find? fun r => r.1.isPrefixOf (c :: cs) with
    | some r => r.2 ++ replaceEachFrom pairs (r.1.length - 1) cs
    | none => c :: replaceEachFrom pairs 0 cs

/-- Replaces the first text of every pair by the second one, all at once: what the replacements
bring in is not looked at. -/
def replaceEach (pairs : List (List Char × List Char)) (cs : List Char) : List Char :=
  replaceEachFrom pairs 0 cs

variable {pairs : List (List Char × List Char)}

theorem replaceEachFrom_of_find? {r : List Char × List Char} {c : Char} {cs : List Char}
    (h : pairs.find? (fun r => r.1.isPrefixOf (c :: cs)) = some r) :
    replaceEachFrom pairs 0 (c :: cs) = r.2 ++ replaceEachFrom pairs (r.1.length - 1) cs := by
  rw [replaceEachFrom, h]

theorem replaceEachFrom_of_find?_none {c : Char} {cs : List Char}
    (h : pairs.find? (fun r => r.1.isPrefixOf (c :: cs)) = none) :
    replaceEachFrom pairs 0 (c :: cs) = c :: replaceEachFrom pairs 0 cs := by
  rw [replaceEachFrom, h]

theorem replaceFrom_eq (old new : List Char) : ∀ (skip : Nat) (cs : List Char),
    replaceFrom old new skip cs = replaceEachFrom [(old, new)] skip cs
  | skip, [] => by rw [replaceFrom, replaceEachFrom]
  | skip + 1, c :: cs => by rw [replaceFrom, replaceEachFrom, replaceFrom_eq old new skip cs]
  | 0, c :: cs => by
    rw [replaceFrom]
    by_cases h : old.isPrefixOf (c :: cs) = true
    · rw [if_pos h, replaceEachFrom_of_find? (r := (old, new)) (by simp [h]),
        replaceFrom_eq old new _ cs]
    · rw [if_neg h, replaceEachFrom_of_find?_none (by simp [h]), replaceFrom_eq old new 0 cs]

/-- What is left out to the end of the text leaves nothing. -/
theorem replaceEachFrom_of_length_le : ∀ {skip : Nat} {cs : List Char}, cs.length ≤ skip →
    replaceEachFrom pairs skip cs = []
  | _, [], _ => by rw [replaceEachFrom]
  | 0, _ :: _, h => by simp at h
  | skip + 1, c :: cs, h => by
    rw [replaceEachFrom]
    exact replaceEachFrom_of_length_le (by simpa using h)

/-- A text in which none of the others stands is left as it is. -/
theorem replaceEach_of_absent : ∀ {cs : List Char}, (∀ r ∈ pairs, ¬ r.1 <:+: cs) →
    replaceEach pairs cs = cs
  | [], _ => by rw [replaceEach, replaceEachFrom]
  | c :: cs, h => by
    have hnone : pairs.find? (fun r => r.1.isPrefixOf (c :: cs)) = none :=
      List.find?_eq_none.2 fun r hr hp => h r hr (List.isPrefixOf_iff_prefix.1 hp).isInfix
    have ih : replaceEach pairs cs = cs :=
      replaceEach_of_absent fun r hr hin => h r hr (List.infix_cons hin)
    rw [replaceEach, replaceEachFrom_of_find?_none hnone]
    exact congrArg (c :: ·) ih

/-! ### Piece by piece -/

/-- The function goes over the pieces of a text between the characters of a class one by one. -/
def Piecewise (p : Char → Bool) (F : List Char → List Char) : Prop :=
  ∀ x g y, p g = true → F (x ++ g :: y) = F x ++ g :: F y

variable {p : Char → Bool} {F G : List Char → List Char}

theorem isPrefixOf_append_cons {g : Char} (y : List Char) : ∀ {old : List Char} (x : List Char),
    g ∉ old → old.isPrefixOf (x ++ g :: y) = old.isPrefixOf x
  | [], _, _ => by simp
  | a :: old, [], hg => by
    have hne : a ≠ g := fun h => hg (h ▸ List.mem_cons_self)
    simp [List.isPrefixOf, hne]
  | a :: old, b :: x, hg => by
    have ih := isPrefixOf_append_cons y x fun h => hg (List.mem_cons_of_mem a h)
    simp [List.isPrefixOf, ih]

theorem not_mem_of_forall {cs : List Char} (h : ∀ c ∈ cs, p c = false) {g : Char}
    (hg : p g = true) : g ∉ cs := fun hmem => by simp [h g hmem] at hg

theorem replaceEachFrom_append_cons {g : Char} (y : List Char)
    (h : ∀ r ∈ pairs, r.1 ≠ [] ∧ g ∉ r.1) : ∀ (skip : Nat) (x : List Char), skip ≤ x.length →
      replaceEachFrom pairs skip (x ++ g :: y) =
        replaceEachFrom pairs skip x ++ g :: replaceEachFrom pairs 0 y
  | 0, [], _ => by
    have hnone : pairs.find? (fun r => r.1.isPrefixOf (g :: y)) = none := by
      refine List.find?_eq_none.2 fun r hr hp => ?_
      obtain ⟨hne, hg⟩ := h r hr
      have hnil : r.1.isPrefixOf [] = true := (isPrefixOf_append_cons y [] hg).symm.trans hp
      exact hne (List.prefix_nil.1 (List.isPrefixOf_iff_prefix.1 hnil))
    rw [List.nil_append, replaceEachFrom_of_find?_none hnone, replaceEachFrom, List.nil_append]
  | skip + 1, [], hskip => by simp at hskip
  | skip + 1, c :: x, hskip => by
    rw [List.cons_append, replaceEachFrom, replaceEachFrom,
      replaceEachFrom_append_cons y h skip x (by simpa using hskip)]
  | 0, c :: x, _ => by
    -- what stands here stands in the piece already
    have hfind : pairs.find? (fun r => r.1.isPrefixOf (c :: x ++ g :: y)) =
        pairs.find? fun r => r.1.isPrefixOf (c :: x) := by
      rw [← List.head?_filter, ← List.head?_filter,
        List.filter_congr fun r hr => isPrefixOf_append_cons y (c :: x) (h r hr).2]
    rw [List.cons_append] at hfind ⊢
    cases hr : pairs.find? fun r => r.1.isPrefixOf (c :: x) with
    | none =>
      rw [replaceEachFrom_of_find?_none (hfind.trans hr), replaceEachFrom_of_find?_none hr,
        replaceEachFrom_append_cons y h 0 x (Nat.zero_le _), List.cons_append]
    | some r =>
      have hprefixed : r.1 <+: c :: x := by simpa using List.find?_some hr
      have hlength : r.1.length ≤ x.length + 1 := hprefixed.length_le
      rw [replaceEachFrom_of_find? (hfind.trans hr), replaceEachFrom_of_find? hr,
        replaceEachFrom_append_cons y h _ x (by omega), List.append_assoc]

/-- **Texts without a character of the class are replaced piece by piece.** -/
theorem piecewise_replaceEach (h : ∀ r ∈ pairs, r.1 ≠ [] ∧ ∀ c ∈ r.1, p c = false) :
    Piecewise p (replaceEach pairs) := fun x _ y hg =>
  replaceEachFrom_append_cons y (fun r hr => ⟨(h r hr).1, not_mem_of_forall (h r hr).2 hg⟩) 0 x
    (Nat.zero_le _)

theorem Piecewise.comp (hF : Piecewise p F) (hG : Piecewise p G) : Piecewise p fun cs => F (G cs) :=
  fun x g y hg => by
    dsimp only
    rw [hG x g y hg, hF _ g _ hg]

/-- A text is a piece, or a piece with a character of the class and a text behind it. -/
theorem pieces_induction {motive : List Char → Prop}
    (piece : ∀ w, (∀ c ∈ w, p c = false) → motive w)
    (more : ∀ w g rest, (∀ c ∈ w, p c = false) → p g = true → motive rest →
      motive (w ++ g :: rest)) (cs : List Char) : motive cs := by
  -- over what is left of the text, with the piece that was begun
  suffices h : ∀ (cs w : List Char), (∀ c ∈ w, p c = false) → motive (w ++ cs) from
    h cs [] (List.forall_mem_nil _)
  intro cs
  induction cs with
  | nil => exact fun w hw => by simpa using piece w hw
  | cons c cs ih =>
    intro w hw
    cases hc : p c with
    | true => exact more w c cs hw hc (ih [] (List.forall_mem_nil _))
    | false =>
      have hwc : ∀ d ∈ w ++ [c], p d = false :=
        List.forall_mem_append.2 ⟨hw, List.forall_mem_singleton.2 hc⟩
      simpa using ih (w ++ [c]) hwc

theorem infix_of_mem_splitBy (cs : List Char) : ∀ w ∈ splitBy p cs, w <:+: cs := by
  induction cs using pieces_induction (p := p) with
  | piece w hw =>
    rw [splitBy_of_forall hw]
    exact List.forall_mem_singleton.2 List.infix_rfl
  | more w g rest hw hg ih =>
    rw [splitBy_append_cons hg rest hw]
    refine List.forall_mem_cons.2 ⟨(List.prefix_append w _).isInfix, fun v hv => ?_⟩
    exact (ih v hv).trans ((List.suffix_cons g rest).trans (List.suffix_append w _)).isInfix

/-- What holds no character of the class stands in one piece. -/
theorem exists_piece_holding {u : List Char} (hu : ∀ c ∈ u, p c = false) (cs : List Char) :
    u <:+: cs → ∃ w ∈ splitBy p cs, u <:+: w := by
  induction cs using pieces_induction (p := p) with
  | piece w hw =>
    rw [splitBy_of_forall hw]
    exact fun h => ⟨w, List.mem_singleton_self w, h⟩
  | more w g rest hw hg ih =>
    intro h
    have hnot : g ∉ u := not_mem_of_forall hu hg
    have hcases : u <:+: w ∨ u <:+: rest := by
      rcases List.infix_append_iff.1 h with h | h | ⟨l, r, rfl, hl, hr⟩
      · exact .inl h
      · rcases List.infix_cons_iff.1 h with h | h
        · cases u with
          | nil => exact .inl List.nil_infix
          | cons a u => exact absurd (List.cons_prefix_cons.1 h).1 fun hag => hnot (by simp [hag])
        · exact .inr h
      · cases r with
        | nil => exact .inl (by simpa using hl.isInfix)
        | cons a r => exact absurd (List.cons_prefix_cons.1 hr).1 fun hag => hnot (by simp [hag])
    rw [splitBy_append_cons hg rest hw]
    rcases hcases with h | h
    · exact ⟨w, List.mem_cons_self, h⟩
    · obtain ⟨v, hv, huv⟩ := ih h
      exact ⟨v, List.mem_cons_of_mem w hv, huv⟩

theorem Piecewise.eq_of_pieces (hF : Piecewise p F) (hG : Piecewise p G) (cs : List Char) :
    (∀ w ∈ splitBy p cs, F w = G w) → F cs = G cs := by
  induction cs using pieces_induction (p := p) with
  | piece w hw =>
    rw [splitBy_of_forall hw]
    exact List.forall_mem_singleton.1
  | more w g rest hw hg ih =>
    rw [splitBy_append_cons hg rest hw]
    intro h
    obtain ⟨hhead, htail⟩ := List.forall_mem_cons.1 h
    rw [hF w g rest hg, hG w g rest hg, hhead, ih htail]

/-- The characters of the class are kept. -/
theorem Piecewise.countP_le (hF : Piecewise p F) (cs : List Char) :
    cs.countP p ≤ (F cs).countP p := by
  induction cs using pieces_induction (p := p) with
  | piece w hw =>
    rw [List.countP_eq_zero.2 (by simpa using hw)]
    exact Nat.zero_le _
  | more w g rest hw hg ih =>
    rw [hF w g rest hg, List.countP_append, List.countP_append, List.countP_cons_of_pos hg,
      List.countP_cons_of_pos hg, List.countP_eq_zero.2 (by simpa using hw)]
    omega

theorem Piecewise.countP_le_countP (hF : Piecewise p F) (hG : Piecewise p G) (cs : List Char) :
    (∀ w ∈ splitBy p cs, (G w).countP p ≤ (F w).countP p) →
      (G cs).countP p ≤ (F cs).countP p := by
  induction cs using pieces_induction (p := p) with
  | piece w hw =>
    rw [splitBy_of_forall hw]
    exact List.forall_mem_singleton.1
  | more w g rest hw hg ih =>
    rw [splitBy_append_cons hg rest hw]
    intro h
    obtain ⟨hhead, htail⟩ := List.forall_mem_cons.1 h
    have ih := ih htail
    rw [hF w g rest hg, hG w g rest hg, List.countP_append, List.countP_append,
      List.countP_cons_of_pos hg, List.countP_cons_of_pos hg]
    omega

/-- Two texts part at the same place if as many characters of the class stand before it. -/
theorem append_cons_inj {g : Char} (hg : p g = true) {y z : List Char} :
    ∀ {x w : List Char}, x.countP p = w.countP p → x ++ g :: y = w ++ g :: z → x = w ∧ y = z
  | [], [], _, h => ⟨rfl, (List.cons.inj h).2⟩
  | [], b :: w, hcount, h => by
    obtain ⟨rfl, -⟩ := List.cons.inj h
    simp [hg] at hcount
  | a :: x, [], hcount, h => by
    obtain ⟨rfl, -⟩ := List.cons.inj h
    simp [hg] at hcount
  | a :: x, b :: w, hcount, h => by
    obtain ⟨rfl, htail⟩ := List.cons.inj h
    rw [List.countP_cons, List.countP_cons, Nat.add_right_cancel_iff] at hcount
    obtain ⟨rfl, rfl⟩ := append_cons_inj hg hcount htail
    exact ⟨rfl, rfl⟩

/-- **The texts are the same exactly if the pieces are**, for two functions one of which gives in
every piece at least as many characters of the class as the other. -/
theorem Piecewise.eq_iff (hF : Piecewise p F) (hG : Piecewise p G) {cs : List Char}
    (hle : ∀ w ∈ splitBy p cs, (G w).countP p ≤ (F w).countP p) :
    F cs = G cs ↔ ∀ w ∈ splitBy p cs, F w = G w := by
  refine ⟨?_, hF.eq_of_pieces hG cs⟩
  induction cs using pieces_induction (p := p) with
  | piece w hw =>
    rw [splitBy_of_forall hw]
    exact fun h => List.forall_mem_singleton.2 h
  | more w g rest hw hg ih =>
    intro h
    rw [splitBy_append_cons hg rest hw] at hle ⊢
    obtain ⟨hhead, htail⟩ := List.forall_mem_cons.1 hle
    have hrest := hF.countP_le_countP hG rest htail
    rw [hF w g rest hg, hG w g rest hg] at h
    -- neither the piece nor the rest can have more than the other allows
    have hcount : (F w).countP p = (G w).countP p := by
      have htotal := congrArg (List.countP p) h
      rw [List.countP_append, List.countP_append, List.countP_cons_of_pos hg,
        List.countP_cons_of_pos hg] at htotal
      omega
    obtain ⟨hw', hrest'⟩ := append_cons_inj hg hcount h
    exact List.forall_mem_cons.2 ⟨hw', ih htail hrest'⟩

end Manuscript.Text
