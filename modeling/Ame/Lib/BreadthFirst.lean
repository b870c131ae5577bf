import Mathlib

/-!
# Breadth-first search

A search with a queue over a relation. Entries carry the depth at which they were put on the queue; an entry no deeper than the
bound is expanded when it is taken. `Layered` says what holds of the entries taken and of those that wait, and `Layered.expand`
that taking one keeps it. As long as everything that waits is at least `n` deep, the search has met whatever a walk of `n` steps
leads to, and at a depth that is no greater.
-/

namespace BreadthFirst

open List

variable {α : Type*} {step : α → α → Prop} {n : Nat} {a b : α}

/-- `Walk step n a b`: `n` steps lead from `a` to `b`. -/
inductive Walk (step : α → α → Prop) : Nat → α → α → Prop where
  | refl (a : α) : Walk step 0 a a
  | tail {n : Nat} {a b c : α} (hwalk : Walk step n a b) (hstep : step b c) : Walk step (n + 1) a c

theorem Walk.reflTransGen (h : Walk step n a b) : Relation.ReflTransGen step a b := by
  induction h with
  | refl => exact .refl
  | tail _ hs ih => exact ih.tail hs

/-- A walk of one relation, seen through a map, as a walk of another. -/
theorem Walk.map {β : Type*} {o : β → β → Prop} {f : α → β} (hst : ∀ a b, step a b → o (f a) (f b))
    (h : Walk step n a b) : Walk o n (f a) (f b) := by
  induction h with
  | refl => exact .refl _
  | tail _ hs ih => exact ih.tail (hst _ _ hs)

/-- The entries taken from the queue, `done`, and those on it, `pending`, of a search that begins at `start`. -/
structure Layered (step : α → α → Prop) (bound : Nat) (start : α → Prop) (done pending : List (α × Nat)) : Prop where
  walks : ∀ entry ∈ done ++ pending, ∃ a, start a ∧ Walk step entry.2 a entry.1
  bounded : ∀ entry ∈ done ++ pending, entry.2 ≤ bound
  starts : ∀ a, start a → (a, 0) ∈ done ++ pending
  sorted : (done ++ pending).Pairwise fun earlier later => earlier.2 ≤ later.2
  close : ∀ first ∈ pending, ∀ second ∈ pending, first.2 ≤ second.2 + 1
  expanded : ∀ entry ∈ done, entry.2 < bound → ∀ b, step entry.1 b → ∃ depth ≤ entry.2 + 1, (b, depth) ∈ done ++ pending

variable {bound : Nat} {start : α → Prop} {done pend : List (α × Nat)}

/-- The search before anything is taken. -/
theorem Layered.initial (starting : List α) (hs : ∀ a, start a ↔ a ∈ starting) :
    Layered step bound start [] (starting.map fun a => (a, 0)) where
  walks := by
    intro e he
    obtain ⟨a, ha, rfl⟩ := mem_map.mp he
    exact ⟨a, (hs a).mpr ha, .refl a⟩
  bounded := by
    intro e he
    obtain ⟨a, ha, rfl⟩ := mem_map.mp he
    exact Nat.zero_le _
  starts := fun a ha => mem_map.mpr ⟨a, (hs a).mp ha, rfl⟩
  sorted := by
    rw [nil_append, pairwise_map]
    exact pairwise_of_forall fun _ _ => Nat.le_refl _
  close := by
    intro first hf second hse
    obtain ⟨a, ha, rfl⟩ := mem_map.mp hf
    exact Nat.zero_le _
  expanded := fun _ he => absurd he (not_mem_nil)

/-- What `n` steps lead to has been met, if everything that waits is at least `n` deep. -/
theorem Layered.met (h : Layered step bound start done pend) (hn : n ≤ bound) (hp : ∀ e ∈ pend, n ≤ e.2)
    (ha : start a) (hw : Walk step n a b) : ∃ depth ≤ n, (b, depth) ∈ done ++ pend := by
  induction hw with
  | refl a => exact ⟨0, Nat.le_refl _, h.starts a ha⟩
  | @tail n a c b _ hs ih =>
    obtain ⟨depth, hd, hm⟩ := ih (by omega) (fun e he => by have := hp e he; omega) ha
    -- What was met in fewer than `n + 1` steps does not wait any more, so it has been expanded.
    have hdo : (c, depth) ∈ done := by
      rcases mem_append.mp hm with hm | hm
      · exact hm
      · have : n + 1 ≤ depth := hp _ hm
        omega
    obtain ⟨next, hne, hb⟩ := h.expanded _ hdo (by omega) b hs
    exact ⟨next, by omega, hb⟩

/-- Nothing that waits is less deep than the first entry. -/
theorem Layered.head_le {head : α × Nat} (h : Layered step bound start done (head :: pend)) :
    ∀ e ∈ head :: pend, head.2 ≤ e.2 := by
  intro e he
  rcases mem_cons.mp he with rfl | he
  · exact Nat.le_refl _
  · exact rel_of_pairwise_cons (pairwise_append.mp h.sorted).2.1 he

/-- Take the first entry; `fresh` is what it leads to and was not met. -/
theorem Layered.expand {depth : Nat} {fresh : List α} (h : Layered step bound start done ((a, depth) :: pend))
    (hst : ∀ b ∈ fresh, depth < bound ∧ step a b)
    (hfr : depth < bound → ∀ b, step a b → b ∈ fresh ∨ ∃ d, (b, d) ∈ done ++ (a, depth) :: pend) :
    Layered step bound start (done ++ [(a, depth)]) (pend ++ fresh.map fun b => (b, depth + 1)) := by
  have hsp : done ++ [(a, depth)] ++ (pend ++ fresh.map fun b => (b, depth + 1)) =
      (done ++ (a, depth) :: pend) ++ fresh.map fun b => (b, depth + 1) := by simp
  have hh : ∀ e ∈ pend, depth ≤ e.2 := fun e he => h.head_le e (mem_cons_of_mem _ he)
  -- Nothing met so far is more than one step deeper than the one taken.
  have hle : ∀ e ∈ done ++ (a, depth) :: pend, e.2 ≤ depth + 1 := by
    intro e he
    rcases mem_append.mp he with he | he
    · have := (pairwise_append.mp h.sorted).2.2 e he _ mem_cons_self
      omega
    · exact h.close _ he _ mem_cons_self
  have hn : ∀ e ∈ fresh.map (fun b => (b, depth + 1)), depth < bound ∧ step a e.1 ∧ e.2 = depth + 1 := by
    intro e he
    obtain ⟨b, hb, rfl⟩ := mem_map.mp he
    exact ⟨(hst b hb).1, (hst b hb).2, rfl⟩
  constructor
  · intro e he
    rw [hsp] at he
    rcases mem_append.mp he with he | he
    · exact h.walks e he
    · obtain ⟨s, hs, hw⟩ := h.walks (a, depth) (by simp)
      rw [(hn e he).2.2]
      exact ⟨s, hs, hw.tail (hn e he).2.1⟩
  · intro e he
    rw [hsp] at he
    rcases mem_append.mp he with he | he
    · exact h.bounded e he
    · have := hn e he
      omega
  · intro b hb
    rw [hsp]
    exact mem_append_left _ (h.starts b hb)
  · rw [hsp, pairwise_append]
    refine ⟨h.sorted, ?_, ?_⟩
    · rw [pairwise_map]
      exact pairwise_of_forall fun _ _ => Nat.le_refl _
    · intro earlier hea later hl
      rw [(hn later hl).2.2]
      exact hle earlier hea
  · intro first hf second hse
    have hse : depth ≤ second.2 := by
      rcases mem_append.mp hse with hse | hse
      · exact hh second hse
      · have := hn second hse
        omega
    rcases mem_append.mp hf with hf | hf
    · have := hle first (by simp [hf])
      omega
    · have := hn first hf
      omega
  · intro e he hbo b hb
    rw [hsp]
    rcases mem_append.mp he with he | he
    · obtain ⟨d, hd, hm⟩ := h.expanded e he hbo b hb
      exact ⟨d, hd, mem_append_left _ hm⟩
    · obtain rfl := mem_singleton.mp he
      rcases hfr hbo b hb with hb | ⟨d, hd⟩
      · exact ⟨depth + 1, Nat.le_refl _, mem_append_right _ (mem_map_of_mem hb)⟩
      · exact ⟨d, hle _ hd, mem_append_left _ hd⟩

/-- When nothing waits, the search has met exactly what walks within the bound lead to. -/
theorem Layered.exact (h : Layered step bound start done []) (b : α) :
    (∃ depth, (b, depth) ∈ done) ↔ ∃ n ≤ bound, ∃ a, start a ∧ Walk step n a b := by
  constructor
  · rintro ⟨depth, hm⟩
    obtain ⟨a, ha, hw⟩ := h.walks (b, depth) (by simpa using hm)
    exact ⟨depth, h.bounded (b, depth) (by simpa using hm), a, ha, hw⟩
  · rintro ⟨n, hn, a, ha, hw⟩
    obtain ⟨depth, -, hm⟩ := h.met hn (by simp) ha hw
    exact ⟨depth, by simpa using hm⟩

end BreadthFirst
