import Mathlib

/-!
# Selecting from a list by a key

The greatest element of a list by a key, the last one if several are greatest, and the least one, the first if several are
least: the conventions of the iterator methods these are named after.
-/

namespace Iter

open List

variable {α β : Type*} [LinearOrder β] {key : α → β} {l : List α} {m : α}

section

variable (key : α → β)

/-- One round of `maxByKey`: a later element wins unless its key is smaller. -/
def keepMax (best y : α) : α := if key best ≤ key y then y else best

/-- The last of the elements with the greatest key. -/
def maxByKey : List α → Option α
  | [] => none
  | x :: xs => some (xs.foldl (keepMax key) x)

/-- One round of `minByKey`: a later element wins only if its key is smaller. -/
def keepMin (best y : α) : α := if key y < key best then y else best

/-- The first of the elements with the least key. -/
def minByKey : List α → Option α
  | [] => none
  | x :: xs => some (xs.foldl (keepMin key) x)

end

/-- A fold that keeps the accumulator or takes the next element returns the start or an element of the list. -/
theorem foldl_mem_cons {α : Type*} {f : α → α → α} (hf : ∀ a b, f a b = a ∨ f a b = b) (xs : List α) (x : α) :
    xs.foldl f x ∈ x :: xs := by
  induction xs generalizing x with
  | nil => simp
  | cons y ys ih =>
    rw [foldl_cons]
    rcases mem_cons.mp (ih (f x y)) with h | h
    · rw [h]
      rcases hf x y with hxy | hxy <;> simp [hxy]
    · simp [h]

theorem keepMax_eq (key : α → β) (a b : α) : keepMax key a b = a ∨ keepMax key a b = b := by
  unfold keepMax; split <;> simp

theorem keepMin_eq (key : α → β) (a b : α) : keepMin key a b = a ∨ keepMin key a b = b := by
  unfold keepMin; split <;> simp

/-- The element `maxByKey` selects is one of the list. -/
theorem maxByKey_mem (h : maxByKey key l = some m) : m ∈ l := by
  cases l with
  | nil => simp [maxByKey] at h
  | cons x xs => exact Option.some.inj h ▸ foldl_mem_cons (keepMax_eq key) xs x

/-- The element `minByKey` selects is one of the list. -/
theorem minByKey_mem (h : minByKey key l = some m) : m ∈ l := by
  cases l with
  | nil => simp [minByKey] at h
  | cons x xs => exact Option.some.inj h ▸ foldl_mem_cons (keepMin_eq key) xs x

/-- A fold whose rounds end at something related to both elements they met ends at something related to all it met. -/
theorem foldl_rel_cons {α : Type*} {r : α → α → Prop} (hr : ∀ a, r a a) (ht : ∀ {a b c}, r a b → r b c → r a c)
    {f : α → α → α} (hf : ∀ a b, r (f a b) a ∧ r (f a b) b) (xs : List α) (x : α) : ∀ y ∈ x :: xs, r (xs.foldl f x) y := by
  induction xs generalizing x with
  | nil =>
    intro y hy
    rw [mem_singleton.mp hy]
    exact hr x
  | cons z zs ih =>
    have hs := ih (f x z) _ mem_cons_self
    intro y hy
    rcases mem_cons.mp hy with rfl | hy
    · exact ht hs (hf y z).1
    · rcases mem_cons.mp hy with rfl | hy
      · exact ht hs (hf x y).2
      · exact ih _ y (mem_cons_of_mem _ hy)

/-- No element has a greater key than the one `maxByKey` selects. -/
theorem le_of_maxByKey (h : maxByKey key l = some m) : ∀ y ∈ l, key y ≤ key m := by
  cases l with
  | nil => simp
  | cons x xs =>
    refine Option.some.inj h ▸ foldl_rel_cons (r := fun a b => key b ≤ key a) (fun _ => le_rfl) (fun h h' => h'.trans h)
      (fun a b => ?_) xs x
    unfold keepMax
    split
    · next hle => exact ⟨hle, le_rfl⟩
    · next hlt => exact ⟨le_rfl, (not_le.mp hlt).le⟩

/-- `maxByKey` selects nothing only from the empty list. -/
theorem maxByKey_eq_none : maxByKey key l = none ↔ l = [] := by
  cases l <;> simp [maxByKey]

/-- `minByKey` selects nothing only from the empty list. -/
theorem minByKey_eq_none : minByKey key l = none ↔ l = [] := by
  cases l <;> simp [minByKey]

/-! ## Removal by exchange -/

open scoped List

/-- `swap_remove`: the last element takes the place of the removed one. -/
def swapRemove {α : Type*} (l : List α) (index : Nat) : List α :=
  match l.getLast? with
  | none => []
  | some last => (l.set index last).dropLast

/-- The removed element and what is left are the elements of the list. -/
theorem perm_cons_swapRemove {α : Type*} {l : List α} {idx : Nat} (h : idx < l.length) :
    (l[idx] :: swapRemove l idx).Perm l := by
  have hne : l ≠ [] := ne_nil_of_length_pos (Nat.zero_lt_of_lt h)
  obtain ⟨front, last, rfl⟩ := eq_nil_or_concat l |>.resolve_left hne
  simp only [concat_eq_append, length_append, length_singleton] at h ⊢
  have hr : swapRemove (front ++ [last]) idx = ((front ++ [last]).set idx last).dropLast := by
    simp [swapRemove]
  rw [hr]
  by_cases hl : idx = front.length
  · subst hl
    simpa using (perm_append_singleton last front).symm
  · have hf : idx < front.length := by omega
    rw [set_append_left _ _ hf, dropLast_concat, getElem_append_left hf]
    calc front[idx] :: front.set idx last
      _ ~ front[idx] :: last :: front.eraseIdx idx := (set_perm_cons_eraseIdx hf last).cons _
      _ ~ last :: front[idx] :: front.eraseIdx idx := List.Perm.swap ..
      _ ~ last :: front := (getElem_cons_eraseIdx_perm hf).cons _
      _ ~ front ++ [last] := (perm_append_singleton last front).symm

/-! ## Lookups -/

/-- A lookup that returns one of the entries, whichever. -/
structure Choice (α : Type*) where
  pick : List α → Option α
  mem_of_pick : ∀ {entries entry}, pick entries = some entry → entry ∈ entries
  eq_nil_of_pick : ∀ {entries}, pick entries = none → entries = []

/-- The lookup that returns the first entry. -/
def Choice.first (α : Type*) : Choice α where
  pick := List.head?
  mem_of_pick := mem_of_head?
  eq_nil_of_pick := head?_eq_none_iff.mp

/-- A lookup by a key without duplicates finds the entry. -/
theorem find?_key_of_mem {α κ : Type} [DecidableEq κ] {key : α → κ} {entries : List α} (hn : (entries.map key).Nodup)
    {e : α} (he : e ∈ entries) : entries.find? (fun o => key o = key e) = some e := by
  cases hf : entries.find? (fun o => key o = key e) with
  | none =>
    have := find?_eq_none.mp hf e he
    simp at this
  | some o =>
    have heq : key o = key e := by simpa using find?_some hf
    rw [inj_on_of_nodup_map hn (mem_of_find?_eq_some hf) he heq]

end Iter
