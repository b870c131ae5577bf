import Mathlib

/-!
# Counting by groups

A list that is in the order of its groups has each group in one piece, and the piece starts after as many rows as the groups
before it count.
-/

namespace Grouped

open List

variable {α G K : Type*}

/-! ## Conditions that hold from some point on -/

section Pieces

variable {l : List α} {p : α → Bool}

/-- A condition that once it holds keeps holding splits the list in two. -/
theorem filter_of_lasting (h : l.Pairwise fun a b => p a = true → p b = true) :
    l.filter (fun a => !p a) = l.take (l.countP fun a => !p a) ∧ l.filter p = l.drop (l.countP fun a => !p a) := by
  induction l with
  | nil => exact ⟨rfl, rfl⟩
  | cons a l ih =>
    obtain ⟨hf, hr⟩ := pairwise_cons.mp h
    cases hp : p a with
    | true =>
      have ha : ∀ b ∈ a :: l, p b = true := by
        intro b hb
        rcases mem_cons.mp hb with rfl | hb
        · exact hp
        · exact hf b hb hp
      have hn : (a :: l).countP (fun a => !p a) = 0 := by
        rw [countP_eq_zero]
        intro b hb
        simp [ha b hb]
      rw [hn, filter_eq_self.mpr ha, filter_eq_nil_iff.mpr (by simpa using ha)]
      exact ⟨rfl, rfl⟩
    | false =>
      obtain ⟨ht, hd⟩ := ih hr
      rw [filter_cons_of_pos (by simp [hp]), filter_cons_of_neg (by simp [hp]), countP_cons_of_pos (by simp [hp]), ht, hd]
      exact ⟨rfl, rfl⟩

theorem append_of_lasting (h : l.Pairwise fun a b => p a = true → p b = true) : l.filter (fun a => !p a) ++ l.filter p = l := by
  rw [(filter_of_lasting h).1, (filter_of_lasting h).2, take_append_drop]

end Pieces

/-! ## Groups -/

section Groups

variable [LinearOrder K] {key : α → K} {l rows : List α} {k : K}

/-- The rows from a group on. -/
theorem filter_from (h : l.Pairwise fun a b => key a ≤ key b) :
    l.filter (fun a => k ≤ key a) = l.drop (l.countP fun a => key a < k) := by
  have hl : l.Pairwise fun a b => decide (k ≤ key a) = true → decide (k ≤ key b) = true := by
    refine h.imp ?_
    intro a b hle hf
    exact decide_eq_true (le_trans (of_decide_eq_true hf) hle)
  rw [(filter_of_lasting hl).2]
  simp only [← decide_not, not_le]

/-- The rows of a group. -/
theorem filter_group (h : l.Pairwise fun a b => key a ≤ key b) :
    l.filter (fun a => key a = k) = (l.drop (l.countP fun a => key a < k)).take (l.countP fun a => key a = k) := by
  have hut : (l.filter fun a => k ≤ key a).Pairwise fun a b => decide (k < key a) = true → decide (k < key b) = true := by
    refine (h.filter _).imp ?_
    intro a b hle ha
    exact decide_eq_true (lt_of_lt_of_le (of_decide_eq_true ha) hle)
  have hb : ∀ a, (!decide (k < key a) && decide (k ≤ key a)) = decide (key a = k) := by
    intro a
    rw [← decide_not, ← Bool.decide_and, decide_eq_decide, not_lt]
    exact le_antisymm_iff.symm
  have hp := (filter_of_lasting hut).1
  rw [filter_filter, countP_filter] at hp
  simp only [hb] at hp
  rw [hp, filter_from h]

variable [DecidableEq G] {group : α → G} {order : G → K} {groups before after : List G} {g : G}

omit [LinearOrder K] in
/-- The rows in some groups, counted group by group. -/
theorem countP_mem_eq_sum (hn : groups.Nodup) :
    rows.countP (fun a => group a ∈ groups) = (groups.map fun g => rows.countP fun a => group a = g).sum := by
  induction groups with
  | nil => simp
  | cons g groups ih =>
    obtain ⟨hnew, hr⟩ := nodup_cons.mp hn
    rw [map_cons, sum_cons, ← ih hr, countP_eq_countP_filter_add rows _ (fun a => group a = g)]
    rw [countP_filter, countP_filter]
    congr 1
    · apply countP_congr
      intro a _
      simp only [Bool.and_eq_true, decide_eq_true_eq, mem_cons]
      constructor
      · exact fun h => h.2
      · exact fun h => ⟨.inl h, h⟩
    · apply countP_congr
      intro a _
      simp only [Bool.and_eq_true, Bool.not_eq_true', decide_eq_true_eq, decide_eq_false_iff_not, mem_cons]
      constructor
      · rintro ⟨heq | hm, hne⟩
        · exact absurd heq hne
        · exact hm
      · intro hm
        refine ⟨.inr hm, ?_⟩
        rintro rfl
        exact hnew hm

/-- The groups before a group count the rows that come before it. -/
theorem sum_before (has : (before ++ g :: after).Pairwise fun a b => order a < order b)
    (hc : ∀ a ∈ rows, group a ∈ before ++ g :: after) :
    (before.map fun g => rows.countP fun a => group a = g).sum = rows.countP fun a => order (group a) < order g := by
  obtain ⟨hb, hr, hac⟩ := pairwise_append.mp has
  obtain ⟨haf, -⟩ := pairwise_cons.mp hr
  rw [← countP_mem_eq_sum (hb.imp fun hlt heq => absurd hlt (by rw [heq]; exact lt_irrefl _))]
  apply countP_congr
  intro a ha
  rw [decide_eq_true_iff, decide_eq_true_iff]
  constructor
  · exact fun hm => hac _ hm g mem_cons_self
  · intro hlt
    rcases mem_append.mp (hc a ha) with hm | hm
    · exact hm
    · rcases mem_cons.mp hm with heq | hm
      · rw [heq] at hlt
        exact absurd hlt (lt_irrefl _)
      · exact absurd (lt_trans hlt (haf _ hm)) (lt_irrefl _)

end Groups

end Grouped
