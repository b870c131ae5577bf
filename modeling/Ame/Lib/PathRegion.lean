import Mathlib

/-!
# Regions of a tree of paths

A path is a list over some alphabet, with one letter, the separator, that cuts it into names. A path lies within another when
it is that path or continues it after a separator. A region is what a unit of work speaks about: everything, all that lies
within some roots, or some paths exactly. The main fact is about finite lists of regions: they hold everything within `p`
exactly when one of them already reaches above `p` (`within_subset_iff`). A list of smaller regions never adds up to it, since
`p` has a child whose name is longer than every path the list mentions.
-/

namespace PathRegion

open List

variable {α : Type*} {sep : α} {p q name : List α}

/-- `p` lies within `q`: it is `q`, or it continues `q` after a separator. -/
def Within (sep : α) (p q : List α) : Prop := p = q ∨ q ++ [sep] <+: p

instance [DecidableEq α] (sep : α) (p q : List α) : Decidable (Within sep p q) :=
  inferInstanceAs (Decidable (_ ∨ _))

/-- A path lies within itself. -/
theorem Within.refl (sep : α) (p : List α) : Within sep p p := Or.inl rfl

/-- Lying within is transitive. -/
theorem Within.trans {r : List α} (hpq : Within sep p q) (hqr : Within sep q r) : Within sep p r := by
  rcases hpq with rfl | hpq
  · exact hqr
  · rcases hqr with rfl | hqr
    · exact Or.inr hpq
    · exact Or.inr (hqr.trans ((prefix_append q [sep]).trans hpq))

/-- A child lies within its parent. -/
theorem within_child (sep : α) (p name : List α) : Within sep (p ++ sep :: name) p :=
  Or.inr ⟨name, by simp⟩

/-- The parts above a child are the parts above its parent: a path that holds `p/name`, and is not it, holds `p`. -/
theorem within_of_child_within (hn : sep ∉ name)
    (h : Within sep (p ++ sep :: name) q) (hne : q ≠ p ++ sep :: name) : Within sep p q := by
  rcases h with h | h
  · exact absurd h.symm hne
  · have hp : p ++ [sep] <+: p ++ sep :: name := ⟨name, by simp⟩
    rcases prefix_or_prefix_of_prefix h hp with hqp | ⟨t, ht⟩
    · rcases prefix_concat_iff.mp hqp with heq | hqp
      · exact Or.inl (append_cancel_right heq).symm
      · exact Or.inr hqp
    · -- otherwise `q` followed by the separator ends inside the name, which has no separator
      rw [← ht] at h
      have htn : t <+: name := by simpa using h
      rcases eq_nil_or_concat t with rfl | ⟨t', b, rfl⟩
      · exact Or.inl (by simpa using ht)
      · have hb : b = sep := by simpa [getLast?_cons] using congrArg List.getLast? ht
        exact absurd (htn.subset (by simp [hb])) hn

/-! ## Regions -/

/-- What a unit of work speaks about: everything, all that lies within some roots, or some paths and nothing below them. -/
inductive Region (α : Type*) where
  | all
  | below (roots : List (List α))
  | only (paths : List (List α))

/-- A path belongs to a region. -/
def Region.Mem (sep : α) : Region α → List α → Prop
  | .all, _ => True
  | .below roots, p => ∃ q ∈ roots, Within sep p q
  | .only paths, p => p ∈ paths

/-- A region reaches above `p`: it holds `p` together with everything below it, whatever is there. -/
def Region.Reaches (sep : α) : Region α → List α → Prop
  | .all, _ => True
  | .below roots, p => ∃ q ∈ roots, Within sep p q
  | .only _, _ => False

/-- A bound on the length of the paths a region mentions. -/
def Region.size : Region α → Nat
  | .all => 0
  | .below roots => (roots.map List.length).sum
  | .only paths => (paths.map List.length).sum

/-- A region that reaches above `p` holds every path within `p`. -/
theorem Region.Reaches.mem {r : Region α} {x : List α} (h : r.Reaches sep p) (hx : Within sep x p) : r.Mem sep x := by
  cases r with
  | all => trivial
  | below roots =>
    obtain ⟨q, hq, hpq⟩ := h
    exact ⟨q, hq, hx.trans hpq⟩
  | only paths => exact h.elim

/-- A region that holds a child of `p` longer than every path it mentions reaches above `p`. -/
theorem Region.reaches_of_mem_child {r : Region α} (hn : sep ∉ name)
    (hl : r.size < name.length) (h : r.Mem sep (p ++ sep :: name)) : r.Reaches sep p := by
  have hle : ∀ {l : List (List α)} {q : List α}, q ∈ l → q.length ≤ (l.map List.length).sum :=
    fun hq => le_sum_of_mem (mem_map_of_mem hq)
  cases r with
  | all => trivial
  | below roots =>
    obtain ⟨q, hq, hw⟩ := h
    refine ⟨q, hq, within_of_child_within hn hw ?_⟩
    rintro rfl
    have := hle hq
    simp only [Region.size, length_append, length_cons] at hl this
    omega
  | only paths =>
    have := hle (l := paths) h
    simp only [Region.size, length_append, length_cons] at hl this
    omega

/-- A finite list of regions holds everything within `p` exactly when one of them reaches above `p`. The letter `a` only has
to be other than the separator: the fresh child of `p` is named by repeating it. -/
theorem within_subset_iff {a : α} (ha : sep ≠ a) (rs : List (Region α)) (p : List α) :
    (∀ x, Within sep x p → ∃ r ∈ rs, r.Mem sep x) ↔ ∃ r ∈ rs, r.Reaches sep p := by
  constructor
  · intro h
    let name := List.replicate ((rs.map Region.size).sum + 1) a
    obtain ⟨r, hr, hm⟩ := h (p ++ sep :: name) (within_child sep p name)
    refine ⟨r, hr, Region.reaches_of_mem_child (fun hs => ha (eq_of_mem_replicate hs)) ?_ hm⟩
    have : r.size ≤ (rs.map Region.size).sum := le_sum_of_mem (mem_map_of_mem hr)
    rw [length_replicate]
    omega
  · rintro ⟨r, hr, h⟩ x hx
    exact ⟨r, hr, h.mem hx⟩

end PathRegion
