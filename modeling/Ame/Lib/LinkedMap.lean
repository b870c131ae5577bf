import Ame.Lib.Iter

/-!
# Maps that remember the order of insertion

A map is the list of its entries, the oldest first, with distinct keys. Assigning to a new key appends an entry; the entries that
an operation removes are left out of the list.
-/

/-- The entries of a map, in the order in which their keys were inserted. -/
structure LinkedMap (κ α : Type) where
  entries : List (κ × α)
  distinct : (entries.map Prod.fst).Nodup

namespace LinkedMap

open List

variable {κ α : Type}

/-- The map without entries. -/
def empty : LinkedMap κ α := ⟨[], .nil⟩

/-- The keys, the oldest first. -/
def keys (m : LinkedMap κ α) : List κ := m.entries.map Prod.fst

/-- Keep the entries that pass a test. -/
def filter (p : κ × α → Bool) (m : LinkedMap κ α) : LinkedMap κ α :=
  ⟨m.entries.filter p, m.distinct.sublist (filter_sublist.map _)⟩

/-- Remove the oldest entries while there are more than `limit`. -/
def evictEntries (limit : Nat) : List (κ × α) → List (κ × α)
  | [] => []
  | entry :: rest => if limit < rest.length + 1 then evictEntries limit rest else entry :: rest

/-- An eviction only drops. -/
theorem evictEntries_sublist (limit : Nat) (l : List (κ × α)) : (evictEntries limit l).Sublist l := by
  induction l with
  | nil => exact List.Sublist.refl _
  | cons e rest ih =>
    unfold evictEntries
    split
    · exact ih.cons e
    · exact List.Sublist.refl _

/-- An eviction keeps to the limit. -/
theorem length_evictEntries (limit : Nat) (l : List (κ × α)) : (evictEntries limit l).length ≤ limit := by
  induction l with
  | nil => exact Nat.zero_le _
  | cons e rest ih =>
    unfold evictEntries
    split
    · exact ih
    · next hle => exact Nat.le_of_not_lt hle

/-- The map with at most `limit` entries, the newest ones. -/
def evict (limit : Nat) (m : LinkedMap κ α) : LinkedMap κ α :=
  ⟨evictEntries limit m.entries, m.distinct.sublist ((evictEntries_sublist limit _).map _)⟩

theorem mem_keys {m : LinkedMap κ α} {k : κ} : k ∈ m.keys ↔ ∃ a, (k, a) ∈ m.entries := by
  simp [keys]

theorem length_le_of_subset {m m' : LinkedMap κ α} (h : m'.entries ⊆ m.entries) : m'.entries.length ≤ m.entries.length :=
  (subperm_of_subset (List.Nodup.of_map _ m'.distinct) h).length_le

variable [DecidableEq κ]

/-- The value of a key. -/
def get? (m : LinkedMap κ α) (k : κ) : Option α := (m.entries.find? (·.1 = k)).map Prod.snd

/-- The map without a key. -/
def remove (k : κ) (m : LinkedMap κ α) : LinkedMap κ α := m.filter (·.1 ≠ k)

/-- Remove a key and insert it again, as the newest. -/
def renew (k : κ) (a : α) (m : LinkedMap κ α) : LinkedMap κ α where
  entries := (m.remove k).entries ++ [(k, a)]
  distinct := by
    rw [map_append, nodup_append]
    refine ⟨(m.remove k).distinct, nodup_singleton _, fun x hx y hy => ?_⟩
    obtain ⟨entry, he, rfl⟩ := mem_map.mp hx
    rw [mem_singleton.mp hy]
    exact of_decide_eq_true (mem_filter.mp he).2

theorem get?_eq_some {m : LinkedMap κ α} {k : κ} {a : α} : m.get? k = some a ↔ (k, a) ∈ m.entries := by
  constructor
  · intro h
    obtain ⟨e, he, rfl⟩ := Option.map_eq_some_iff.mp h
    obtain rfl : e.1 = k := by simpa using find?_some he
    exact mem_of_find?_eq_some he
  · intro hm
    rw [get?, Iter.find?_key_of_mem m.distinct hm]
    rfl

theorem get?_eq_none {m : LinkedMap κ α} {k : κ} : m.get? k = none ↔ k ∉ m.keys := by
  rw [mem_keys, ← not_iff_not, not_not, ← ne_eq, Option.ne_none_iff_exists']
  exact exists_congr fun a => get?_eq_some

/-- A renewed key has one entry. -/
theorem mem_renew {m : LinkedMap κ α} {k : κ} {a : α} {e : κ × α} :
    e ∈ (m.renew k a).entries ↔ e = (k, a) ∨ e ∈ m.entries ∧ e.1 ≠ k := by
  simp [renew, remove, filter, or_comm]

end LinkedMap
