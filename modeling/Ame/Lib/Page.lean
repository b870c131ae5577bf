import Mathlib

/-!
# Pages of a keyed table

A table is read page by page in the order of its keys: a page holds the first rows after a key, up to a number of them. A page
that is not full holds all the rows that were left; a full page holds every row up to its last key, if no two rows have one key.
-/

namespace Page

open List

variable {α K : Type*} [LinearOrder K] {key : α → K}

/-- The rows after a key, in the order of their keys, up to `size` of them. -/
def page (key : α → K) (size : Nat) (after : K) (rows : List α) : List α :=
  ((rows.filter fun row => after < key row).insertionSort fun a b => key a ≤ key b).take size

variable {size : Nat} {after : K} {rows : List α} {row : α}

theorem mem_sorted : row ∈ (rows.filter fun row => after < key row).insertionSort (fun a b => key a ≤ key b) ↔
    row ∈ rows ∧ after < key row := by
  rw [(perm_insertionSort _ _).mem_iff, mem_filter, decide_eq_true_eq]

/-- The rows of a page are rows of the table after the key. -/
theorem mem_of_mem_page (h : row ∈ page key size after rows) : row ∈ rows ∧ after < key row :=
  mem_sorted.mp (mem_of_mem_take h)

/-- A page that is not full holds every row that was left. -/
theorem mem_page_of_short (hs : (page key size after rows).length < size) (hr : row ∈ rows) (ha : after < key row) :
    row ∈ page key size after rows := by
  have hal : page key size after rows = (rows.filter fun row => after < key row).insertionSort fun a b => key a ≤ key b := by
    apply take_of_length_le
    by_contra hl
    rw [page, length_take, Nat.min_eq_left (by omega)] at hs
    exact Nat.lt_irrefl _ hs
  rw [hal]
  exact mem_sorted.mpr ⟨hr, ha⟩

/-- A row left out of a page comes after all the rows of it. -/
theorem le_of_not_mem_page (hr : row ∈ rows) (ha : after < key row) (hn : row ∉ page key size after rows) :
    ∀ o ∈ page key size after rows, key o ≤ key row := by
  intro o ho
  have hs := pairwise_insertionSort (fun a b : α => key a ≤ key b) (rows.filter fun row => after < key row)
  have hm := mem_sorted.mpr ⟨hr, ha⟩
  rw [← take_append_drop size ((rows.filter fun row => after < key row).insertionSort fun a b => key a ≤ key b)] at hs hm
  rcases mem_append.mp hm with hm | hm
  · exact absurd hm hn
  · exact (pairwise_append.mp hs).2.2 o ho row hm

/-- A page holds every row up to the key of one of its rows. -/
theorem mem_page_of_le (hk : ∀ a ∈ rows, ∀ b ∈ rows, key a = key b → a = b) (hr : row ∈ rows) (ha : after < key row)
    {last : α} (hl : last ∈ page key size after rows) (hle : key row ≤ key last) : row ∈ page key size after rows := by
  by_contra hn
  have heq := le_antisymm hle (le_of_not_mem_page hr ha hn last hl)
  exact hn (hk row hr last (mem_of_mem_page hl).1 heq ▸ hl)

end Page
