import Mathlib

/-!
# Parts of a list by position

A record whose fields stand at fixed positions. `drop_eq_append_iff` takes the record apart field by field: what is left from some
position on begins with a part exactly if the slice there is that part.
-/

namespace Slices

open List

variable {α : Type*}

/-- The `n` elements from a position on. -/
def slice (l : List α) (position n : Nat) : List α := (l.drop position).take n

theorem length_slice {l : List α} {pos n : Nat} (h : pos + n ≤ l.length) : (slice l pos n).length = n := by
  rw [slice, length_take, length_drop]
  omega

/-- From a position on the list is a part and then the rest. -/
theorem drop_eq_append_iff {l p rest : List α} {pos n : Nat} (next : Nat) (hn : p.length = n) (hne : pos + n = next)
    (hp : pos ≤ l.length) : l.drop pos = p ++ rest ↔ next ≤ l.length ∧ slice l pos n = p ∧ l.drop next = rest := by
  subst hn hne
  constructor
  · intro h
    have hl := congrArg List.length h
    rw [length_drop, length_append] at hl
    refine ⟨by omega, ?_, ?_⟩
    · rw [slice, h, take_left]
    · rw [← drop_drop, h, drop_left]
  · rintro ⟨-, hs, hr⟩
    rw [← take_append_drop p.length (l.drop pos), drop_drop, hr]
    exact congrArg (· ++ rest) hs

end Slices
