import CodeCensus.Text.Fold
import Mathlib.Data.List.Forall2

/-!
# Letters in any case

The characters that stand for the same letter under simple case folding: a capital and its small letter,
and the Kelvin sign for the letter K.  Folding a character gives the small letter exactly for these
(`mem_letterCases_iff`).
-/

namespace CodeCensus.Text

/-- A capital letter and all characters that are the same letter under simple case folding: its small
letter, and for two letters a character outside ASCII. -/
def letterCases (letter : Char) : List Char :=
  [letter, letter.toLower] ++
    if letter = 'K' then ['\u212A'] else if letter = 'S' then ['\u017F'] else []

/-- A word is spelled with these capital letters, in any case. -/
def Spells (letters word : List Char) : Prop :=
  List.Forall₂ (fun letter c => c ∈ letterCases letter) letters word

section Letters

variable {letter : Char}

theorem toLower_val (low : 'A' ≤ letter) (high : letter ≤ 'Z') : letter.toLower.val = letter.val + 32 := by
  have hlow : letter.val ≥ 'A'.val := low
  have hhigh : letter.val ≤ 'Z'.val := high
  unfold Char.toLower
  rw [dif_pos ⟨hlow, hhigh⟩]
  rfl

/-- The characters with the small letter of a capital. -/
theorem toLower_eq_iff (low : 'A' ≤ letter) (high : letter ≤ 'Z') (c : Char) :
    c.toLower = letter.toLower ↔ c = letter ∨ c = letter.toLower := by
  have hlow : 65 ≤ letter.val := low
  have hhigh : letter.val ≤ 90 := high
  rw [Char.ext_iff, Char.ext_iff, Char.ext_iff, toLower_val low high]
  rw [UInt32.le_iff_toNat_le] at hlow hhigh
  by_cases capital : 'A' ≤ c ∧ c ≤ 'Z'
  · obtain ⟨hfrom, hto⟩ := capital
    rw [toLower_val hfrom hto]
    change 65 ≤ c.val at hfrom
    change c.val ≤ 90 at hto
    rw [UInt32.le_iff_toNat_le] at hfrom hto
    rw [← UInt32.toNat_inj, ← UInt32.toNat_inj, ← UInt32.toNat_inj, UInt32.toNat_add, UInt32.toNat_add]
    simp only [UInt32.reduceToNat] at hlow hhigh hfrom hto ⊢
    omega
  · have hkept : c.toLower = c := dif_neg capital
    change ¬ (65 ≤ c.val ∧ c.val ≤ 90) at capital
    rw [UInt32.le_iff_toNat_le, UInt32.le_iff_toNat_le] at capital
    rw [hkept, ← UInt32.toNat_inj, ← UInt32.toNat_inj, UInt32.toNat_add]
    simp only [UInt32.reduceToNat] at hlow hhigh capital ⊢
    omega

/-- No small letter is the Kelvin sign. -/
theorem kelvin_ne_toLower (low : 'A' ≤ letter) (high : letter ≤ 'Z') : '\u212A' ≠ letter.toLower := by
  have hlow : 65 ≤ letter.val := low
  have hhigh : letter.val ≤ 90 := high
  rw [UInt32.le_iff_toNat_le] at hlow hhigh
  intro same
  rw [Char.ext_iff, toLower_val low high, ← UInt32.toNat_inj, UInt32.toNat_add] at same
  change 8490 = _ at same
  simp only [UInt32.reduceToNat] at hlow hhigh same
  omega

/-- Folding tells the letters apart; only the long s would need a rule of its own. -/
theorem mem_letterCases_iff (low : 'A' ≤ letter) (high : letter ≤ 'Z') (notS : letter ≠ 'S') (c : Char) :
    c ∈ letterCases letter ↔ letter.toLower = foldChar c := by
  have hmem : c ∈ letterCases letter ↔
      (c = letter ∨ c = letter.toLower) ∨ (letter = 'K' ∧ c = '\u212A') := by
    by_cases hk : letter = 'K' <;> simp [letterCases, hk, notS, or_assoc]
  rw [hmem]
  by_cases kelvin : c = '\u212A'
  · subst kelvin
    have hcapital : '\u212A' ≠ letter := fun same => absurd (same ▸ high) (by decide)
    have hsmall : letter ≠ 'k' := fun same => absurd (same ▸ high) (by decide)
    have hletter : letter.toLower = 'k' ↔ letter = 'K' ∨ letter = 'k' :=
      @toLower_eq_iff 'K' (by decide) (by decide) letter
    have hfold : foldChar '\u212A' = 'k' := by decide
    rw [hfold, hletter]
    simp only [hcapital, kelvin_ne_toLower low high, hsmall, or_false, false_or, and_true]
  · have hfold : foldChar c = c.toLower := by
      rw [foldChar, if_neg (by simpa using kelvin)]
    rw [hfold, or_iff_left fun both => kelvin both.2, ← toLower_eq_iff low high, eq_comm]

end Letters

end CodeCensus.Text
