/-
# Lower case keeps identifier characters

The small letters of an identifier character may stand in an identifier too. It is
a fact about two tables, the runs of the case mapping and the ranges of identifier
characters, and it is checked run by run: the small letters of a run lie in one
range, or the run has no identifier character, or its letters are looked at one by
one.

Key definitions: `Text.CaseRun.target`, `Text.CaseRun.keepsIdent`.
Key theorems: `Text.isIdentContinue_of_mem_lower`.
-/
import Mathlib.Tactic.Common
import Manuscript.Text.IdentChar
import Manuscript.Text.Lowercase

namespace Manuscript.Text

/-- One of the ranges holds all code points from `first` to `last`. -/
def rangeHolds (ranges : List (Nat × Nat)) (first last : Nat) : Bool :=
  ranges.any fun r => Nat.ble r.1 first && Nat.ble last r.2

/-- No range holds a code point from `first` to `last`. -/
def rangesAvoid (ranges : List (Nat × Nat)) (first last : Nat) : Bool :=
  ranges.all fun r => Nat.blt last r.1 || Nat.blt r.2 first

theorem rangeHolds_of_le {ranges : List (Nat × Nat)} {first last n : Nat}
    (h : rangeHolds ranges first last = true) (hfirst : first ≤ n) (hlast : n ≤ last) :
    rangeHolds ranges n n = true := by
  obtain ⟨r, hr, hin⟩ := List.any_eq_true.1 h
  simp only [Bool.and_eq_true, Nat.ble_eq] at hin
  refine List.any_eq_true.2 ⟨r, hr, ?_⟩
  simp only [Bool.and_eq_true, Nat.ble_eq]
  omega

theorem inRanges_iff {ranges : List (Nat × Nat)} {c : Char} :
    inRanges ranges c = true ↔ ∃ r ∈ ranges, r.1 ≤ c.toNat ∧ c.toNat ≤ r.2 := by
  simp [inRanges]

/-- The ranges of characters that start identifiers hold scalar values only. -/
theorem identStartRanges_valid : ∀ r ∈ identStartRanges,
    (Nat.blt r.2 0xd800 || Nat.blt 0xdfff r.1 && Nat.blt r.2 0x110000) = true := by
  decide +kernel

theorem isIdentStart_ofNat {n : Nat} (h : rangeHolds identStartRanges n n = true) :
    isIdentStart (Char.ofNat n) = true := by
  obtain ⟨r, hr, hin⟩ := List.any_eq_true.1 h
  have hvalid := identStartRanges_valid r hr
  simp only [Bool.and_eq_true, Bool.or_eq_true, Nat.ble_eq, Nat.blt_eq] at hin hvalid
  have hn : n.isValidChar := by
    unfold Nat.isValidChar
    omega
  have htoNat : (Char.ofNat n).toNat = n := by
    rw [Char.ofNat, dif_pos hn]
    rfl
  rw [isIdentStart, inRanges_iff]
  exact ⟨r, hr, by omega, by omega⟩

namespace CaseRun

/-- The code point that a run gives to `n`. -/
def target (r : CaseRun) (n : Nat) : Nat := ((n : Int) + r.delta).toNat

/-- The small letters of the identifier characters of a run may start an identifier. -/
def keepsIdent (r : CaseRun) : Bool :=
  rangeHolds identStartRanges (r.target r.first) (r.target r.last)
    || rangesAvoid (identStartRanges ++ identFollowRanges) r.first r.last
    || (List.range ((r.last - r.first) / r.step + 1)).all fun k =>
        rangeHolds identStartRanges (r.target (r.first + k * r.step))
          (r.target (r.first + k * r.step))

theorem covers_iff {r : CaseRun} {n : Nat} :
    r.covers n = true ↔ r.first ≤ n ∧ n ≤ r.last ∧ (n - r.first) % r.step = 0 := by
  simp [covers, and_assoc]

/-- A run that keeps identifiers gives each identifier character that it covers a small letter
that may start an identifier. -/
theorem isIdentStart_target {r : CaseRun} (hr : r.keepsIdent = true) {c : Char}
    (hc : isIdentContinue c = true) (hcovers : r.covers c.toNat = true) :
    isIdentStart (Char.ofNat (r.target c.toNat)) = true := by
  obtain ⟨hfirst, hlast, hstep⟩ := covers_iff.1 hcovers
  apply isIdentStart_ofNat
  unfold keepsIdent at hr
  rw [Bool.or_eq_true, Bool.or_eq_true] at hr
  obtain (hholds | havoid) | heach := hr
  · exact rangeHolds_of_le hholds (by unfold target; omega) (by unfold target; omega)
  · -- the character itself lies in a range that the run avoids
    have hmem : inRanges (identStartRanges ++ identFollowRanges) c = true := by
      simpa [isIdentContinue, isIdentStart, inRanges] using hc
    obtain ⟨s, hs, hlow, hhigh⟩ := inRanges_iff.1 hmem
    have hs := List.all_eq_true.1 havoid s hs
    simp only [Bool.or_eq_true, Nat.blt_eq] at hs
    omega
  · have hn : r.first + (c.toNat - r.first) / r.step * r.step = c.toNat := by
      have hmul := Nat.div_mul_cancel (Nat.dvd_of_mod_eq_zero hstep)
      omega
    have hk : (c.toNat - r.first) / r.step < (r.last - r.first) / r.step + 1 :=
      Nat.lt_succ_of_le (Nat.div_le_div_right (by omega))
    simpa only [hn] using List.all_eq_true.1 heach _ (List.mem_range.2 hk)

theorem keepsIdent_caseRuns : ∀ r ∈ caseRuns, r.keepsIdent = true := by decide +kernel

end CaseRun

/-- **Lower case keeps identifier characters.** -/
theorem isIdentContinue_of_mem_lower {c x : Char} (hc : isIdentContinue c = true)
    (hx : x ∈ lower c) : isIdentContinue x = true := by
  unfold lower at hx
  split at hx
  · -- the dotted capital I has two small characters
    have hboth : ['i', '\u0307'].all isIdentContinue = true := by decide +kernel
    exact List.all_eq_true.1 hboth x hx
  · split at hx
    · rename_i r hr
      rw [List.mem_singleton.1 hx]
      have hkeeps := CaseRun.keepsIdent_caseRuns r (List.mem_of_find?_eq_some hr)
      have hcovers : r.covers c.toNat = true := by
        simpa using List.find?_some hr
      exact isIdentContinue_of_isIdentStart (CaseRun.isIdentStart_target hkeeps hc hcovers)
    · rw [List.mem_singleton.1 hx]
      exact hc

end Manuscript.Text
