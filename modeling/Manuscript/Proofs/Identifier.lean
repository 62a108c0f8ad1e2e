/-
# Identifiers differ and can be told apart

An identifier holds identifier characters only, so neither the full stop that joins
a label to its function nor the space that joins the tags of an image can stand in
one: what was joined can be read back (`Text.join_injective`).

A namer hands out identifiers that differ from each other and from all that were
set aside. The candidates for a name are all different, so among one more of them
than there are identifiers in use there is a free one (`Namer.pick_spec`).

Key definitions: `Identifier.Plain`.
Key theorems: `Identifier.plain_sanitize`, `Identifier.candidate_injective`,
`Namer.pick_spec`, `Namer.nodup_claimAll`, `Text.join_injective`.
-/
import Mathlib.Data.List.Nodup
import Manuscript.Identifier
import Manuscript.Proofs.Text.Lower
import Manuscript.Text.Split

namespace Manuscript

/-! ### What was joined can be read back -/

namespace Text

theorem splitBy_of_forall {p : Char → Bool} : ∀ {cs : List Char}, (∀ c ∈ cs, p c = false) →
    splitBy p cs = [cs]
  | [], _ => rfl
  | c :: cs, h => by
    have hc : p c = false := h c List.mem_cons_self
    have ih := splitBy_of_forall fun d hd => h d (List.mem_cons_of_mem c hd)
    simp [splitBy, hc, ih]

theorem splitBy_append_cons {p : Char → Bool} {sep : Char} (hsep : p sep = true) (rest : List Char) :
    ∀ {cs : List Char}, (∀ c ∈ cs, p c = false) →
      splitBy p (cs ++ sep :: rest) = cs :: splitBy p rest
  | [], _ => by simp [splitBy, hsep]
  | c :: cs, h => by
    have hc : p c = false := h c List.mem_cons_self
    have ih := splitBy_append_cons hsep rest fun d hd => h d (List.mem_cons_of_mem c hd)
    rw [List.cons_append, splitBy, if_neg (by simp [hc]), ih]

theorem splitBy_ne_nil (p : Char → Bool) (cs : List Char) : splitBy p cs ≠ [] := by
  cases cs with
  | nil => simp [splitBy]
  | cons c cs =>
    rw [splitBy]
    split
    · simp
    · split <;> simp

/-- A character that separates nothing goes to the first piece. -/
theorem exists_splitBy_cons {p : Char → Bool} {c : Char} (hc : p c = false) (cs : List Char) :
    ∃ piece rest, splitBy p cs = piece :: rest ∧ splitBy p (c :: cs) = (c :: piece) :: rest := by
  obtain ⟨piece, rest, hsplit⟩ := List.exists_cons_of_ne_nil (splitBy_ne_nil p cs)
  refine ⟨piece, rest, hsplit, ?_⟩
  rw [splitBy, if_neg (by simp [hc]), hsplit]

/-- No piece holds a separator. -/
theorem not_separates_of_mem_splitBy {p : Char → Bool} : ∀ {cs w : List Char}, w ∈ splitBy p cs →
    ∀ c ∈ w, p c = false
  | [], w, hw, c, hc => by
    rw [List.mem_singleton.1 hw] at hc
    cases hc
  | d :: cs, w, hw, c, hc => by
    cases hd : p d with
    | true =>
      rw [splitBy, if_pos hd] at hw
      rcases List.mem_cons.1 hw with rfl | hw
      · cases hc
      · exact not_separates_of_mem_splitBy hw c hc
    | false =>
      obtain ⟨piece, rest, hsplit, hcons⟩ := exists_splitBy_cons hd cs
      have ih : ∀ v ∈ piece :: rest, ∀ c ∈ v, p c = false := fun v hv =>
        not_separates_of_mem_splitBy (hsplit ▸ hv)
      rw [hcons] at hw
      rcases List.mem_cons.1 hw with rfl | hw
      · rcases List.mem_cons.1 hc with rfl | hc
        · exact hd
        · exact ih piece List.mem_cons_self c hc
      · exact ih w (List.mem_cons_of_mem piece hw) c hc

/-- Splitting at the separator takes joined texts apart again. -/
theorem splitBy_join {sep : Char} : ∀ {ss : List String}, ss ≠ [] → (∀ s ∈ ss, sep ∉ s.toList) →
    splitBy (· == sep) (join (String.singleton sep) ss).toList = ss.map String.toList
  | [s], _, h => by
    have hs : ∀ c ∈ s.toList, (c == sep) = false := fun c hc => by
      simpa using fun he : c = sep => h s List.mem_cons_self (he ▸ hc)
    simpa [join] using splitBy_of_forall hs
  | s :: t :: rest, _, h => by
    have hs : ∀ c ∈ s.toList, (c == sep) = false := fun c hc => by
      simpa using fun he : c = sep => h s List.mem_cons_self (he ▸ hc)
    have ih := splitBy_join (List.cons_ne_nil t rest) fun u hu => h u (List.mem_cons_of_mem s hu)
    have happend : (join (String.singleton sep) (s :: t :: rest)).toList =
        s.toList ++ sep :: (join (String.singleton sep) (t :: rest)).toList := by
      simp [join]
    rw [happend, splitBy_append_cons (by simp) _ hs, ih]
    rfl

/-- **Joining is injective** on texts that do not hold the separator. -/
theorem join_injective {sep : Char} {ss ts : List String} (hss : ss ≠ []) (hts : ts ≠ [])
    (hs : ∀ s ∈ ss, sep ∉ s.toList) (ht : ∀ t ∈ ts, sep ∉ t.toList)
    (h : join (String.singleton sep) ss = join (String.singleton sep) ts) : ss = ts := by
  have hmap : ss.map String.toList = ts.map String.toList := by
    rw [← splitBy_join hss hs, h, splitBy_join hts ht]
  exact List.map_injective_iff.2 (fun _ _ => String.toList_inj.1) hmap

end Text

/-! ### Identifier characters -/

namespace Identifier

open Text (isIdentContinue)

/-- The text holds identifier characters only. -/
def Plain (cs : List Char) : Prop := ∀ c ∈ cs, isIdentContinue c = true

theorem Plain.append {cs ds : List Char} (hc : Plain cs) (hd : Plain ds) : Plain (cs ++ ds) :=
  List.forall_mem_append.2 ⟨hc, hd⟩

theorem Plain.not_mem {cs : List Char} (h : Plain cs) {c : Char} (hc : isIdentContinue c = false) :
    c ∉ cs := fun hmem => by simp [h c hmem] at hc

theorem isIdentContinue_underscore : isIdentContinue '_' = true := by decide +kernel

theorem isIdentContinue_stop : isIdentContinue '.' = false := by decide +kernel

theorem isIdentContinue_space : isIdentContinue ' ' = false := by decide +kernel

theorem isIdentContinue_of_isDigit {c : Char} (h : c.isDigit = true) : isIdentContinue c = true := by
  have hdigits : (0x30, 0x39) ∈ Text.identFollowRanges := List.mem_cons_self
  have hrange : 0x30 ≤ c.toNat ∧ c.toNat ≤ 0x39 := by
    simpa [Char.isDigit, UInt32.le_iff_toNat_le] using h
  rw [isIdentContinue, Bool.or_eq_true]
  exact .inr (Text.inRanges_iff.2 ⟨_, hdigits, hrange⟩)

theorem plain_write {out : List Char} (h : Plain out) (c : Char) : Plain (write out c) := by
  unfold write
  split
  · rename_i hc
    exact h.append fun x hx => Text.isIdentContinue_of_mem_lower hc hx
  · split
    · exact h
    · exact h.append (by simpa [Plain] using isIdentContinue_underscore)

theorem plain_foldl_write : ∀ (cs : List Char) {out : List Char}, Plain out →
    Plain (cs.foldl write out)
  | [], _, h => h
  | c :: cs, _, h => plain_foldl_write cs (plain_write h c)

theorem plain_trimUnderscores {cs : List Char} (h : Plain cs) : Plain (trimUnderscores cs) := by
  intro c hc
  have hc := (List.dropWhile_suffix _).subset (List.mem_reverse.1 hc)
  exact h c ((List.dropWhile_suffix _).subset (List.mem_reverse.1 hc))

theorem plain_fixStart {cs : List Char} (h : Plain cs) : Plain (fixStart cs) := by
  unfold fixStart
  split
  · have hid : ['i', 'd'].all isIdentContinue = true := by decide +kernel
    exact List.all_eq_true.1 hid
  · split
    · exact h
    · have hn : ['n', '_'].all isIdentContinue = true := by decide +kernel
      exact Plain.append (List.all_eq_true.1 hn) h

/-- The identifier of a name holds identifier characters only. -/
theorem plain_sanitize (name : String) : Plain (sanitize name).toList := by
  have hfixed : Plain (fixStart (trimUnderscores ((Text.trim name.toList).foldl write []))) :=
    plain_fixStart (plain_trimUnderscores (plain_foldl_write _ (by simp [Plain])))
  unfold sanitize avoidReserved
  split
  · rw [String.toList_append, String.toList_ofList]
    exact hfixed.append (by simpa [Plain] using isIdentContinue_underscore)
  · rw [String.toList_ofList]
    exact hfixed

/-! ### Candidates -/

theorem plain_candidate {base : String} (h : Plain base.toList) : ∀ k, Plain (candidate base k).toList
  | 0 => h
  | k + 1 => by
    have hdigits : Plain (toString (k + 2)).toList := fun c hc => by
      rw [Nat.toString_eq_repr, Nat.toList_repr] at hc
      exact isIdentContinue_of_isDigit (Nat.isDigit_of_mem_toDigits (by omega) (by omega) hc)
    rw [candidate, String.toList_append, String.toList_append]
    exact (h.append (by simpa [Plain] using isIdentContinue_underscore)).append hdigits

/-- The candidates for a base are all different. -/
theorem candidate_injective (base : String) : Function.Injective (candidate base) := by
  have hne : ∀ k, candidate base (k + 1) ≠ base := fun k h => by
    have hlength := congrArg (fun s : String => s.toList.length) h
    simp [candidate] at hlength
  intro j k h
  cases j with
  | zero =>
    cases k with
    | zero => rfl
    | succ k => exact absurd h.symm (hne k)
  | succ j =>
    cases k with
    | zero => exact absurd h (hne j)
    | succ k =>
      have hdigits : toString (j + 2) = toString (k + 2) := (String.append_right_inj _).1 h
      have hread : ∀ n : Nat, Nat.ofDigitChars 10 (toString n).toList 0 = n := fun n => by
        rw [Nat.toString_eq_repr, Nat.toList_repr, Nat.ofDigitChars_toDigits (by omega) (by omega)]
      have := hread (j + 2)
      rw [hdigits, hread] at this
      omega

end Identifier

/-! ### Namers -/

namespace Namer

open Identifier (candidate Plain)

/-- A free candidate is picked: not all of one more candidates than identifiers in use can be
in use. -/
theorem exists_free (n : Namer) (base : String) :
    ∃ k ∈ List.range (n.used.length + 1), candidate base k ∉ n.used := by
  by_contra hnone
  have hall : ∀ k ∈ List.range (n.used.length + 1), candidate base k ∈ n.used := by
    simpa using hnone
  have hnodup : ((List.range (n.used.length + 1)).map (candidate base)).Nodup :=
    List.nodup_range.map (Identifier.candidate_injective base)
  have hsub : (List.range (n.used.length + 1)).map (candidate base) ⊆ n.used := by
    intro s hs
    obtain ⟨k, hk, rfl⟩ := List.mem_map.1 hs
    exact hall k hk
  have hle := hnodup.length_le_of_subset hsub
  rw [List.length_map, List.length_range] at hle
  omega

/-- **The first free candidate is picked**, after no more tries than there are identifiers in
use. -/
theorem pick_spec (n : Namer) (base : String) : ∃ k ≤ n.used.length,
    n.pick base = candidate base k ∧ candidate base k ∉ n.used ∧
      ∀ j < k, candidate base j ∈ n.used := by
  obtain ⟨k, hk, hfree⟩ := n.exists_free base
  unfold pick
  cases h : (List.range (n.used.length + 1)).find? fun k => !n.used.contains (candidate base k) with
  | none =>
    have := List.find?_eq_none.1 h k hk
    simp [hfree] at this
  | some j =>
    obtain ⟨hj, hlt, hbefore⟩ := List.find?_range_eq_some.1 h
    exact ⟨j, Nat.le_of_lt_succ (List.mem_range.1 hlt), rfl, by simpa using hj,
      by simpa using hbefore⟩

/-- **A namer hands out what is free.** -/
theorem claim_not_mem (n : Namer) (name : String) : (n.claim name).1 ∉ n.used := by
  obtain ⟨k, -, hpick, hfree, -⟩ := n.pick_spec (Identifier.sanitize name)
  rw [claim]
  exact hpick ▸ hfree

theorem plain_claim (n : Namer) (name : String) : Plain (n.claim name).1.toList := by
  obtain ⟨k, -, hpick, -⟩ := n.pick_spec (Identifier.sanitize name)
  rw [claim]
  exact hpick ▸ Identifier.plain_candidate (Identifier.plain_sanitize name) k

@[simp] theorem used_claim (n : Namer) (name : String) :
    (n.claim name).2.used = (n.claim name).1 :: n.used := rfl

theorem claimAll_cons (n : Namer) (name : String) (rest : List String) :
    (n.claimAll (name :: rest)).1 = (n.claim name).1 :: ((n.claim name).2.claimAll rest).1 := rfl

theorem plain_claimAll : ∀ (n : Namer) (names : List String),
    ∀ ident ∈ (n.claimAll names).1, Plain ident.toList
  | _, [] => by simp [claimAll]
  | n, name :: rest => by
    rw [claimAll_cons]
    exact List.forall_mem_cons.2 ⟨n.plain_claim name, plain_claimAll _ rest⟩

/-- **Identifiers that are handed out differ** from each other and from those in use. -/
theorem nodup_claimAll : ∀ (n : Namer) (names : List String),
    (n.claimAll names).1.Nodup ∧ ∀ ident ∈ (n.claimAll names).1, ident ∉ n.used
  | _, [] => by simp [claimAll]
  | n, name :: rest => by
    obtain ⟨hnodup, hfree⟩ := nodup_claimAll (n.claim name).2 rest
    have hfresh := n.claim_not_mem name
    rw [claimAll_cons]
    refine ⟨List.nodup_cons.2 ⟨fun hmem => ?_, hnodup⟩, List.forall_mem_cons.2 ⟨hfresh, ?_⟩⟩
    · exact hfree _ hmem (by simp)
    · intro ident hident hused
      exact hfree ident hident (by simp [hused])

end Namer
end Manuscript
