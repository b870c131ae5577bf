import Mathlib

/-!
# Complete linkage

The complete link of two groups is the least similarity of a member of one with a member of the other. It is found again when two
groups are joined: the link of the union to a third group is the smaller of the two links.
-/

namespace Linkage

open List

variable {ι S : Type*} [LinearOrder S] {sim : ι → ι → S} {A B C : List ι} {u v : S}

/-- `v` is the complete link of `A` and `B`. -/
structure IsLink (sim : ι → ι → S) (A B : List ι) (v : S) : Prop where
  le : ∀ a ∈ A, ∀ b ∈ B, v ≤ sim a b
  attained : ∃ a ∈ A, ∃ b ∈ B, sim a b = v

theorem isLink_singleton (a b : ι) : IsLink sim [a] [b] (sim a b) := by
  constructor
  · intro x hx y hy
    rw [mem_singleton.mp hx, mem_singleton.mp hy]
  · exact ⟨a, mem_singleton_self a, b, mem_singleton_self b, rfl⟩

theorem IsLink.symm (hs : ∀ a b, sim a b = sim b a) (h : IsLink sim A B v) : IsLink sim B A v := by
  obtain ⟨a, ha, b, hb, hv⟩ := h.attained
  refine ⟨?_, b, hb, a, ha, hs b a ▸ hv⟩
  intro y hy x hx
  exact hs x y ▸ h.le x hx y hy

/-- The link depends only on who is in the groups. -/
theorem IsLink.congr_left {A' : List ι} (hA : ∀ a, a ∈ A' ↔ a ∈ A) (h : IsLink sim A B v) : IsLink sim A' B v := by
  obtain ⟨a, ha, b, hb, hv⟩ := h.attained
  refine ⟨?_, a, (hA a).mpr ha, b, hb, hv⟩
  intro x hx
  exact h.le x ((hA x).mp hx)

/-- The link of a joined group is the smaller of the two links. -/
theorem IsLink.append (hA : IsLink sim A C u) (hB : IsLink sim B C v) : IsLink sim (A ++ B) C (min u v) := by
  constructor
  · intro x hx c hc
    rcases mem_append.mp hx with hx | hx
    · exact le_trans (min_le_left u v) (hA.le x hx c hc)
    · exact le_trans (min_le_right u v) (hB.le x hx c hc)
  · rcases min_choice u v with hm | hm
    · obtain ⟨a, ha, c, hc, hu⟩ := hA.attained
      exact ⟨a, mem_append_left B ha, c, hc, hu.trans hm.symm⟩
    · obtain ⟨b, hb, c, hc, hv⟩ := hB.attained
      exact ⟨b, mem_append_right A hb, c, hc, hv.trans hm.symm⟩

/-- All members of a group are similar. -/
def Close (sim : ι → ι → S) (bound : S) (A : List ι) : Prop := ∀ a ∈ A, ∀ b ∈ A, a ≠ b → bound ≤ sim a b

/-- Two groups whose members are similar and whose link is not below the bound are one such group. -/
theorem Close.append {bound : S} (hs : ∀ a b, sim a b = sim b a) (hA : Close sim bound A) (hB : Close sim bound B)
    (hl : IsLink sim A B v) (hv : bound ≤ v) : Close sim bound (A ++ B) := by
  intro x hx y hy hne
  rcases mem_append.mp hx with hx | hx <;> rcases mem_append.mp hy with hy | hy
  · exact hA x hx y hy hne
  · exact le_trans hv (hl.le x hx y hy)
  · rw [hs]
    exact le_trans hv (hl.le y hy x hx)
  · exact hB x hx y hy hne

end Linkage
