import Mathlib

/-!
# Counting set bits

The number of set bits of a word, and the words with at most two of them.
-/

namespace Bits

variable {w : Nat}

/-- `count_ones`. -/
def countOnes (x : BitVec w) : Nat := Nat.count (fun i => x.getLsbD i) w

theorem countOnes_eq_card (x : BitVec w) : countOnes x = ((Finset.range w).filter fun i => x.getLsbD i).card :=
  Nat.count_eq_card_filter_range _ _

theorem countOnes_xor_comm (x y : BitVec w) : countOnes (x ^^^ y) = countOnes (y ^^^ x) := by rw [BitVec.xor_comm]

@[simp]
theorem countOnes_zero : countOnes 0#w = 0 := by
  rw [countOnes_eq_card]
  simp

theorem getLsbD_one_shiftLeft {i j : Nat} (hi : i < w) : (1#w <<< j).getLsbD i = decide (i = j) := by
  by_cases hij : i = j
  · subst hij
    simp
    omega
  · simp [hij]
    omega

/-- A word is given by its set bits. -/
theorem eq_of_bits {x y : BitVec w} (h : ∀ i < w, x.getLsbD i = true ↔ y.getLsbD i = true) : x = y := by
  apply BitVec.eq_of_getLsbD_eq
  intro i hi
  exact Bool.eq_iff_iff.mpr (h i hi)

/-- A word with at most two set bits is zero, one bit or two bits. -/
theorem eq_of_countOnes_le_two {x : BitVec w} (h : countOnes x ≤ 2) :
    x = 0 ∨ (∃ i < w, x = 1#w <<< i) ∨ ∃ i j, i < j ∧ j < w ∧ x = 1#w <<< i ^^^ 1#w <<< j := by
  rw [countOnes_eq_card] at h
  generalize hbi : (Finset.range w).filter (fun i => x.getLsbD i = true) = bits at h
  have hm : ∀ i < w, x.getLsbD i = true ↔ i ∈ bits := by
    intro i hi
    rw [← hbi]
    simp [hi]
  have hlt : ∀ i ∈ bits, i < w := by
    intro i hi
    rw [← hbi] at hi
    exact Finset.mem_range.mp (Finset.mem_filter.mp hi).1
  have hc : bits.card = 0 ∨ bits.card = 1 ∨ bits.card = 2 := by omega
  rcases hc with hca | hca | hca
  · left
    rw [Finset.card_eq_zero] at hca
    apply eq_of_bits
    intro i hi
    simp [hm i hi, hca]
  · obtain ⟨a, rfl⟩ := Finset.card_eq_one.mp hca
    refine .inr (.inl ⟨a, hlt a (Finset.mem_singleton_self a), eq_of_bits ?_⟩)
    intro i hi
    simp [hm i hi, getLsbD_one_shiftLeft hi]
  · obtain ⟨a, b, hne, rfl⟩ := Finset.card_eq_two.mp hca
    have ha : a < w := hlt a (by simp)
    have hb : b < w := hlt b (by simp)
    -- whichever bit is lower comes first
    have hbo : ∀ i < w, x.getLsbD i = true ↔ (1#w <<< a ^^^ 1#w <<< b).getLsbD i = true := by
      intro i hi
      rw [hm i hi, BitVec.getLsbD_xor, getLsbD_one_shiftLeft hi, getLsbD_one_shiftLeft hi]
      by_cases hia : i = a
      · subst hia
        simp [hne]
      · simp [hia]
    rcases Nat.lt_or_gt_of_ne hne with hlt | hlt
    · exact .inr (.inr ⟨a, b, hlt, hb, eq_of_bits hbo⟩)
    · exact .inr (.inr ⟨b, a, hlt, ha, by rw [BitVec.xor_comm]; exact eq_of_bits hbo⟩)

end Bits
