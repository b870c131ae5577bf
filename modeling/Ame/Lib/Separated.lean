import Mathlib

/-!
# Texts of parts and separators

A text is written from its parts with a separator between them and read back by splitting at the separator
(`splitOn_intercalate`). The same holds of strings that are joined by a character. An empty part shows in the text as a separator at an end or next to another one.
-/

namespace Separated

open List

variable {α : Type*} {sep : α} {ls : List (List α)} {x : α} {l xs : List α}

/-- What occurs in the text is the separator or occurs in a part. -/
theorem mem_intercalate (h : x ∈ [sep].intercalate ls) : x = sep ∨ ∃ l ∈ ls, x ∈ l := by
  induction ls with
  | nil => simp at h
  | cons l ls ih =>
    cases ls with
    | nil => exact Or.inr ⟨l, by simp, by simpa using h⟩
    | cons l' ls =>
      rw [intercalate_cons_cons, append_assoc, mem_append, mem_append] at h
      rcases h with h | h | h
      · exact Or.inr ⟨l, by simp, h⟩
      · exact Or.inl (by simpa using h)
      · rcases ih h with h | ⟨l'', hl, h⟩
        · exact Or.inl h
        · exact Or.inr ⟨l'', mem_cons_of_mem _ hl, h⟩

/-- The elements of a part occur in the text. -/
theorem mem_intercalate_of_mem (hl : l ∈ ls) (hx : x ∈ l) : x ∈ [sep].intercalate ls := by
  induction ls with
  | nil => simp at hl
  | cons m ls ih =>
    cases ls with
    | nil => simpa [mem_singleton.mp hl] using hx
    | cons m' ls =>
      rw [intercalate_cons_cons, append_assoc, mem_append, mem_append]
      rcases mem_cons.mp hl with rfl | hl
      · exact Or.inl hx
      · exact Or.inr (Or.inr (ih hl))

/-- The separator occurs as soon as there are two parts. -/
theorem sep_mem_intercalate (h : 2 ≤ ls.length) : sep ∈ [sep].intercalate ls := by
  match ls, h with
  | l :: l' :: ls, _ => simp

/-- The text of the first parts, a separator, and the text of the last ones. -/
theorem intercalate_append {ms : List (List α)} (hl : ls ≠ []) (hm : ms ≠ []) :
    [sep].intercalate (ls ++ ms) = [sep].intercalate ls ++ sep :: [sep].intercalate ms := by
  induction ls with
  | nil => exact absurd rfl hl
  | cons l ls ih =>
    cases ls with
    | nil => simp [intercalate_cons_of_ne_nil hm]
    | cons l' ls =>
      have ih' := ih (by simp)
      rw [cons_append] at ih'
      rw [cons_append, cons_append, intercalate_cons_cons, ih']
      simp

/-- Some of the parts, in their order, give a part of the text. -/
theorem intercalate_sublist {ms : List (List α)} (h : ms.Sublist ls) :
    ([sep].intercalate ms).Sublist ([sep].intercalate ls) := by
  induction h with
  | slnil => exact List.Sublist.refl _
  | @cons ms ls l h ih =>
    cases ls with
    | nil => simp [sublist_nil.mp h]
    | cons l' ls =>
      rw [intercalate_cons_cons]
      exact ih.trans (sublist_append_right _ _)
  | @cons_cons ms ls l h ih =>
    match ms, ls, h with
    | [], [], _ => exact List.Sublist.refl _
    | [], l' :: ls, _ => simp
    | m :: ms, l' :: ls, _ =>
      rw [intercalate_cons_cons, intercalate_cons_cons]
      exact ih.append_left _

variable [BEq α] [LawfulBEq α]

/-- No part of a text holds the separator. -/
theorem not_mem_of_mem_splitOn (h : l ∈ xs.splitOn sep) : sep ∉ l := by
  induction xs generalizing l with
  | nil =>
    rw [splitOn_nil, mem_singleton] at h
    simp [h]
  | cons x xs ih =>
    rw [splitOn_cons_eq_if_modifyHead] at h
    obtain ⟨hd, tl, htl⟩ := exists_cons_of_ne_nil (splitOn_ne_nil sep xs)
    rw [htl] at h ih
    by_cases hx : x = sep
    · rw [if_pos (by simp [hx])] at h
      rcases mem_cons.mp h with rfl | h
      · simp
      · exact ih h
    · rw [if_neg (by simp [hx])] at h
      rcases mem_cons.mp h with rfl | h
      · simpa [Ne.symm hx] using ih (by simp : hd ∈ hd :: tl)
      · exact ih (mem_cons_of_mem _ h)

/-- The elements of a part are elements of the text. -/
theorem mem_of_mem_splitOn (h : l ∈ xs.splitOn sep) (hx : x ∈ l) : x ∈ xs := by
  have hxs : [sep].intercalate (xs.splitOn sep) = xs := intercalate_splitOn sep
  rw [← hxs]
  exact mem_intercalate_of_mem h hx

/-- A text that starts with the separator has an empty part. -/
theorem nil_mem_splitOn_of_head (h : xs.head? = some sep) : [] ∈ xs.splitOn sep := by
  obtain ⟨ys, rfl⟩ := head?_eq_some_iff.mp h
  simp [splitOn_cons_eq_if_modifyHead]

/-- A text that ends with the separator has an empty part. -/
theorem nil_mem_splitOn_of_getLast (h : xs.getLast? = some sep) : [] ∈ xs.splitOn sep := by
  obtain ⟨ys, rfl⟩ := getLast?_eq_some_iff.mp h
  rw [splitOn_append_cons_self]
  simp

/-- A text with two separators in a row has an empty part. -/
theorem nil_mem_splitOn_of_double (h : [sep, sep] <:+: xs) : [] ∈ xs.splitOn sep := by
  obtain ⟨s, t, rfl⟩ := h
  rw [append_assoc, cons_append, cons_append, splitOn_append_cons_self, splitOn_cons_eq_if_modifyHead]
  simp

omit [BEq α] [LawfulBEq α] in
/-- The first separator tells where the first part ends. -/
theorem append_sep_inj {l' r r' : List α} (hl : sep ∉ l) (hl' : sep ∉ l') (h : l ++ sep :: r = l' ++ sep :: r') :
    l = l' ∧ r = r' := by
  induction l generalizing l' with
  | nil =>
    cases l' with
    | nil => simpa using h
    | cons b l' => exact absurd (List.cons.inj h).1 (fun hb => hl' (by simp [hb]))
  | cons a l ih =>
    cases l' with
    | nil => exact absurd (List.cons.inj h).1 (fun ha => hl (by simp [ha]))
    | cons b l' =>
      obtain ⟨rfl, ht⟩ := List.cons.inj h
      obtain ⟨rfl, rfl⟩ := ih (not_mem_of_not_mem_cons hl) (not_mem_of_not_mem_cons hl') ht
      exact ⟨rfl, rfl⟩

end Separated
