import Mathlib

/-!
# Work lists over a finite relation

A relation given as a list of links, and the search that marks everything the links lead to from a list of starting points. Each
element is marked once, when it is first met, so the search ends: every element put on the work list is paid by the links that
lead to it.
-/

namespace Worklist

open List

variable {α : Type} [DecidableEq α] {links : List (α × α)} {a b : α}

/-- Where the links lead from an element, in the order of the links. -/
def targets (links : List (α × α)) (a : α) : List α :=
  (links.filter fun link => link.1 = a).map (·.2)

@[simp]
theorem mem_targets : b ∈ targets links a ↔ (a, b) ∈ links := by
  constructor
  · intro h
    obtain ⟨link, hl, rfl⟩ := mem_map.mp h
    obtain ⟨hm, hf⟩ := mem_filter.mp hl
    rwa [← of_decide_eq_true hf]
  · intro h
    exact mem_map.mpr ⟨(a, b), mem_filter.mpr ⟨h, by simp⟩, rfl⟩

/-- Meet one element: the first time it is marked and put at the end of the work list. -/
def visit (state : List α × List α) (a : α) : List α × List α :=
  if a ∈ state.2 then state else (state.1 ++ [a], state.2 ++ [a])

/-- The number of links to elements not marked yet. -/
def openLinks (links : List (α × α)) (marked : List α) : Nat :=
  (links.filter fun link => link.2 ∉ marked).length

/-- Marking an element some link leads to closes that link. -/
theorem openLinks_append_lt {marked : List α} (hl : (a, b) ∈ links)
    (hopen : b ∉ marked) : openLinks links (marked ++ [b]) < openLinks links marked := by
  induction links with
  | nil => cases hl
  | cons link links ih =>
    have hle : openLinks links (marked ++ [b]) ≤ openLinks links marked := by
      apply List.Sublist.length_le
      apply monotone_filter_right
      intro o ho
      simp only [mem_append, mem_singleton, not_or, decide_eq_true_eq] at ho ⊢
      exact ho.1
    rcases mem_cons.mp hl with rfl | hl
    · have hn : openLinks ((a, b) :: links) marked = openLinks links marked + 1 := by simp [openLinks, hopen]
      have ht : openLinks ((a, b) :: links) (marked ++ [b]) = openLinks links (marked ++ [b]) := by simp [openLinks]
      omega
    · have hlt := ih hl
      unfold openLinks at hlt ⊢
      by_cases hb : link.2 = b
      · simp [hb, hopen]
        simp at hlt
        omega
      · by_cases hm : link.2 ∈ marked
        · simpa [hm, hb] using hlt
        · simpa [hm, hb] using hlt

/-- What a visit leaves to do, counted with the open links, is no more than before. -/
theorem visit_measure (st : List α × List α) (hl : (a, b) ∈ links) :
    (visit st b).1.length + openLinks links (visit st b).2 ≤ st.1.length + openLinks links st.2 := by
  unfold visit
  split
  · exact Nat.le_refl _
  · next hopen =>
    have hlt := openLinks_append_lt hl hopen
    simp only [length_append, length_singleton]
    omega

theorem foldl_visit_measure (bs : List α) (hl : ∀ b ∈ bs, (a, b) ∈ links) (st : List α × List α) :
    (bs.foldl visit st).1.length + openLinks links (bs.foldl visit st).2 ≤ st.1.length + openLinks links st.2 := by
  induction bs generalizing st with
  | nil => exact Nat.le_refl _
  | cons b bs ih =>
    have hh := visit_measure st (hl b mem_cons_self)
    have ht := ih (fun o ho => hl o (mem_cons_of_mem _ ho)) (visit st b)
    exact Nat.le_trans ht hh

/-- Meeting several elements marks those that were not marked, and puts them at the end of the work list. -/
theorem foldl_visit_eq (bs : List α) (st : List α × List α) :
    ∃ fresh, bs.foldl visit st = (st.1 ++ fresh, st.2 ++ fresh) ∧ (∀ b ∈ fresh, b ∈ bs) ∧ ∀ b ∈ bs, b ∈ st.2 ∨ b ∈ fresh := by
  induction bs generalizing st with
  | nil => exact ⟨[], by simp⟩
  | cons b bs ih =>
    obtain ⟨fresh, heq, hs, hco⟩ := ih (visit st b)
    rw [foldl_cons, heq]
    unfold visit at hco ⊢
    by_cases hm : b ∈ st.2
    · rw [if_pos hm] at hco ⊢
      refine ⟨fresh, rfl, fun c hc => mem_cons_of_mem _ (hs c hc), ?_⟩
      rintro c (_ | ⟨_, hc⟩)
      · exact .inl hm
      · exact hco c hc
    · rw [if_neg hm] at hco ⊢
      refine ⟨b :: fresh, by simp, ?_, ?_⟩
      · rintro c (_ | ⟨_, hc⟩)
        · exact mem_cons_self
        · exact mem_cons_of_mem _ (hs c hc)
      · rintro c (_ | ⟨_, hc⟩)
        · exact .inr mem_cons_self
        · rcases hco c hc with hc | hc
          · rcases mem_append.mp hc with hc | hc
            · exact .inl hc
            · exact .inr (mem_singleton.mp hc ▸ mem_cons_self)
          · exact .inr (mem_cons_of_mem _ hc)

/-- Mark everything the links lead to from the work list. -/
def spread (links : List (α × α)) (pending marked : List α) : List α :=
  match pending with
  | [] => marked
  | a :: pending =>
    spread links ((targets links a).foldl visit (pending, marked)).1 ((targets links a).foldl visit (pending, marked)).2
termination_by pending.length + openLinks links marked
decreasing_by
  have hle := foldl_visit_measure (targets links a) (fun b hb => mem_targets.mp hb) (pending, marked)
  simp only [length_cons] at hle ⊢
  omega

section Invariant

variable {P : α → Prop}

/-- A property of the work list and the marked elements. -/
def Marks (P : α → Prop) (state : List α × List α) : Prop := (∀ a ∈ state.1, P a) ∧ ∀ a ∈ state.2, P a

theorem Marks.visit {st : List α × List α} {a : α} (h : Marks P st) (ha : P a) : Marks P (visit st a) := by
  unfold Worklist.visit
  split
  · exact h
  · constructor
    · intro b hb
      rcases mem_append.mp hb with hb | hb
      · exact h.1 b hb
      · rwa [mem_singleton.mp hb]
    · intro b hb
      rcases mem_append.mp hb with hb | hb
      · exact h.2 b hb
      · rwa [mem_singleton.mp hb]

theorem Marks.foldl_visit {st : List α × List α} {bs : List α} (h : Marks P st) (hbs : ∀ b ∈ bs, P b) :
    Marks P (bs.foldl Worklist.visit st) := by
  induction bs generalizing st with
  | nil => exact h
  | cons b bs ih =>
    exact ih (h.visit (hbs b mem_cons_self)) fun o ho => hbs o (mem_cons_of_mem _ ho)

/-- A property that the links hand on holds of everything the search marks. -/
theorem spread_invariant {links : List (α × α)} {pend marked : List α} (hl : ∀ a b, (a, b) ∈ links → P a → P b)
    (h : Marks P (pend, marked)) : ∀ b ∈ spread links pend marked, P b := by
  induction pend, marked using spread.induct links with
  | case1 marked =>
    rw [spread]
    exact h.2
  | case2 marked a pend ih =>
    rw [spread]
    have hr : Marks P (pend, marked) := ⟨fun b hb => h.1 b (mem_cons_of_mem _ hb), h.2⟩
    apply ih
    apply hr.foldl_visit
    intro b hb
    exact hl a b (mem_targets.mp hb) (h.1 a mem_cons_self)

end Invariant

end Worklist
