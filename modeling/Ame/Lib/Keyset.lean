import Mathlib

/-!
# Keyset windows

Rows with distinct keys have one ascending arrangement. What a query reads that filters by a key and sorts by it, in either
direction, is a part of that arrangement: what follows a row or what precedes it.
-/

namespace Keyset

open List

variable {α K : Type*} [LinearOrder K] {key : α → K} {rows l : List α} {a b : α}

/-- The keys of the list ascend. -/
def Ascending (key : α → K) (l : List α) : Prop := l.Pairwise fun a b => key a < key b

theorem Ascending.inj (h : Ascending key l) (ha : a ∈ l) (hb : b ∈ l) (heq : key a = key b) : a = b := by
  have hn : (l.map key).Nodup := pairwise_map.mpr (h.imp fun hlt => ne_of_lt hlt)
  exact inj_on_of_nodup_map hn ha hb heq

/-- A sort by the keys is the ascending arrangement. -/
theorem sort_eq {le : α → α → Prop} [DecidableRel le] (hle : ∀ a b, le a b ↔ key a ≤ key b) (h : Ascending key l)
    (hp : l.Perm rows) : rows.insertionSort le = l := by
  have hs : (rows.insertionSort le).Pairwise le := by
    have : Std.Total le := ⟨fun a b => by rw [hle, hle]; exact le_total _ _⟩
    have : IsTrans α le := ⟨fun a b c hab hbc => (hle a c).mpr (le_trans ((hle a b).mp hab) ((hle b c).mp hbc))⟩
    exact pairwise_insertionSort le rows
  have hsa : (rows.insertionSort le).Perm l := (perm_insertionSort le rows).trans hp.symm
  refine hsa.eq_of_pairwise ?_ hs (h.imp fun hlt => (hle _ _).mpr (le_of_lt hlt))
  intro a b ha hb hab hba
  exact h.inj (hsa.subset ha) hb (le_antisymm ((hle a b).mp hab) ((hle b a).mp hba))

/-- A sort against the keys is the reverse of the ascending arrangement. -/
theorem sort_reverse_eq {le : α → α → Prop} [DecidableRel le] (hle : ∀ a b, le a b ↔ key b ≤ key a) (h : Ascending key l)
    (hp : l.Perm rows) : rows.insertionSort le = l.reverse := by
  have hd : Ascending (fun a => OrderDual.toDual (key a)) l.reverse := pairwise_reverse.mpr h
  exact sort_eq hle hd ((reverse_perm l).trans hp)

/-- A row splits an ascending list into what has a smaller and what has a greater key. -/
theorem Ascending.filter_split {first rest : List α} (h : Ascending key (first ++ a :: rest)) :
    (first ++ a :: rest).filter (fun b => key a < key b) = rest ∧
      (first ++ a :: rest).filter (fun b => key b < key a) = first := by
  obtain ⟨-, hr, hac⟩ := pairwise_append.mp h
  obtain ⟨ha, -⟩ := pairwise_cons.mp hr
  have hbe : ∀ b ∈ first, key b < key a := fun b hb => hac b hb a mem_cons_self
  constructor
  · rw [filter_append, filter_eq_nil_iff.mpr (by simpa using fun b hb => le_of_lt (hbe b hb)),
      filter_cons_of_neg (by simp), filter_eq_self.mpr (by simpa using ha), nil_append]
  · rw [filter_append, filter_eq_self.mpr (by simpa using hbe),
      filter_eq_nil_iff.mpr (by simpa using fun b hb => le_of_lt (ha b hb)), append_nil]

theorem split_at {i : Nat} (hi : l[i]? = some a) : l.take i ++ a :: l.drop (i + 1) = l := by
  obtain ⟨hlt, rfl⟩ := List.getElem?_eq_some_iff.mp hi
  rw [getElem_cons_drop, take_append_drop]

/-- The rows after a row. -/
theorem Ascending.filter_after (h : Ascending key l) {i : Nat} (hi : l[i]? = some a) :
    l.filter (fun b => key a < key b) = l.drop (i + 1) := by
  have hs := split_at hi
  rw [← hs] at h
  have hf := h.filter_split.1
  rwa [hs] at hf

/-- The rows before a row. -/
theorem Ascending.filter_before (h : Ascending key l) {i : Nat} (hi : l[i]? = some a) :
    l.filter (fun b => key b < key a) = l.take i := by
  have hs := split_at hi
  rw [← hs] at h
  have hf := h.filter_split.2
  rwa [hs] at hf

/-- Two neighbouring ranges of keys. -/
theorem Ascending.filter_range (h : Ascending key l) {x y z : K} (hxy : x ≤ y) (hyz : y ≤ z) :
    l.filter (fun b => x ≤ key b ∧ key b < y) ++ l.filter (fun b => y ≤ key b ∧ key b < z) =
      l.filter (fun b => x ≤ key b ∧ key b < z) := by
  induction l with
  | nil => rfl
  | cons a l ih =>
    obtain ⟨hf, hr⟩ := pairwise_cons.mp h
    by_cases hbe : key a < y
    · have ha := lt_of_lt_of_le hbe hyz
      by_cases hfr : x ≤ key a <;> simpa [hbe, ha, hfr, not_le.mpr hbe] using ih hr
    · -- Nothing from here on lies in the first range.
      have hn : (a :: l).filter (fun b => x ≤ key b ∧ key b < y) = [] := by
        refine filter_eq_nil_iff.mpr fun b hb => ?_
        rcases mem_cons.mp hb with rfl | hb
        · simp [hbe]
        · have := le_trans (not_lt.mp hbe) (le_of_lt (hf b hb))
          simp [not_lt.mpr this]
      rw [hn]
      refine filter_congr fun b hb => decide_eq_decide.mpr ?_
      have hle : y ≤ key b := by
        rcases mem_cons.mp hb with rfl | hb
        · exact not_lt.mp hbe
        · exact le_trans (not_lt.mp hbe) (le_of_lt (hf b hb))
      exact and_congr_left fun _ => ⟨fun _ => le_trans hxy hle, fun _ => hle⟩

end Keyset
