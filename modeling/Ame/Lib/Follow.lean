import Mathlib

/-!
# Following cursors

A reader that gets a list in pages: each call returns some items and, unless it is done, the cursor of the next call. If a call
at a position returns the items from there up to its limit, then the pages put together are the list, whatever the limits.
-/

namespace Follow

open List

variable {α κ ε : Type*}

/-- Follow the cursors, a call for each limit, until there is no cursor: the items, and the cursor that is left. -/
def follow (load : Nat → κ → Except ε (List α × Option κ)) (join : List α → List α → List α) :
    List Nat → κ → Except ε (List α × Option κ)
  | [], cursor => .ok ([], some cursor)
  | limit :: limits, cursor =>
    match load limit cursor with
    | .error error => .error error
    | .ok (items, none) => .ok (items, none)
    | .ok (items, some next) =>
      match follow load join limits next with
      | .error error => .error error
      | .ok (rest, last) => .ok (join items rest, last)

variable {load : Nat → κ → Except ε (List α × Option κ)} {valid : Nat → Prop}
  {At : Nat → κ → Prop} {listing : List α} {pos : Nat} {cursor : κ} {limits : List Nat}

/-- Pages read forwards make up what follows the position. -/
theorem follow_forward (hlo : ∀ limit pos cursor, valid limit → At pos cursor →
      ∃ next, load limit cursor = .ok ((listing.drop pos).take limit, next) ∧
        (next = none ↔ listing.length ≤ pos + limit) ∧ ∀ foll ∈ next, At (pos + limit) foll)
    (hv : ∀ limit ∈ limits, valid limit) (hne : limits ≠ []) (hat : At pos cursor) :
    ∃ last, follow load (· ++ ·) limits cursor = .ok ((listing.drop pos).take limits.sum, last) ∧
      (last = none ↔ listing.length ≤ pos + limits.sum) := by
  induction limits generalizing pos cursor with
  | nil => exact absurd rfl hne
  | cons limit limits ih =>
    obtain ⟨next, hp, hd, hn⟩ := hlo limit pos cursor (hv limit mem_cons_self) hat
    rw [follow, hp, sum_cons]
    cases next with
    | none =>
      have hlen := hd.mp rfl
      refine ⟨none, ?_, ?_⟩
      · rw [take_of_length_le (by rw [length_drop]; omega), take_of_length_le (by rw [length_drop]; omega)]
      · simp only [true_iff]
        omega
    | some foll =>
      dsimp only
      have hm : ¬listing.length ≤ pos + limit := fun hle => Option.some_ne_none _ (hd.mpr hle)
      cases hl : limits with
      | nil =>
        refine ⟨some foll, ?_, ?_⟩
        · simp [follow]
        · simp only [reduceCtorEq, sum_nil, Nat.add_zero, false_iff]
          exact hm
      | cons second rest =>
        obtain ⟨last, hr, hla⟩ := ih (fun o ho => hv o (mem_cons_of_mem _ ho)) (by rw [hl]; exact cons_ne_nil _ _) (hn foll rfl)
        rw [← hl, hr]
        refine ⟨last, ?_, ?_⟩
        · rw [take_add, drop_drop]
        · rw [hla, Nat.add_assoc]

/-- Two parts of a list that follow each other. -/
theorem drop_take_append {first second stop : Nat} (hf : first ≤ second) (hs : second ≤ stop) :
    (listing.take second).drop first ++ (listing.take stop).drop second = (listing.take stop).drop first := by
  have hsu : stop - first = second - first + (stop - second) := by omega
  rw [drop_take, drop_take, drop_take, hsu, take_add, drop_drop, Nat.add_sub_cancel' hf]

/-- Pages read backwards make up what precedes the position. -/
theorem follow_backward (hlo : ∀ limit pos cursor, valid limit → At pos cursor →
      ∃ next, load limit cursor = .ok ((listing.take pos).drop (pos - limit), next) ∧
        (next = none ↔ pos ≤ limit) ∧ ∀ preceding ∈ next, At (pos - limit) preceding)
    (hv : ∀ limit ∈ limits, valid limit) (hne : limits ≠ []) (hat : At pos cursor) :
    ∃ last, follow load (fun items rest => rest ++ items) limits cursor =
        .ok ((listing.take pos).drop (pos - limits.sum), last) ∧
      (last = none ↔ pos ≤ limits.sum) := by
  induction limits generalizing pos cursor with
  | nil => exact absurd rfl hne
  | cons limit limits ih =>
    obtain ⟨next, hp, hd, hn⟩ := hlo limit pos cursor (hv limit mem_cons_self) hat
    rw [follow, hp, sum_cons]
    cases next with
    | none =>
      have ha := hd.mp rfl
      refine ⟨none, ?_, ?_⟩
      · rw [Nat.sub_eq_zero_of_le ha, Nat.sub_eq_zero_of_le (by omega)]
      · simp only [true_iff]
        omega
    | some preceding =>
      dsimp only
      have hm : ¬pos ≤ limit := fun hle => Option.some_ne_none _ (hd.mpr hle)
      cases hl : limits with
      | nil =>
        refine ⟨some preceding, ?_, ?_⟩
        · simp [follow]
        · simp only [reduceCtorEq, sum_nil, Nat.add_zero, false_iff]
          exact hm
      | cons second rest =>
        obtain ⟨last, hr, hla⟩ := ih (fun o ho => hv o (mem_cons_of_mem _ ho))
          (by rw [hl]; exact cons_ne_nil _ _) (hn preceding rfl)
        rw [← hl, hr]
        refine ⟨last, ?_, ?_⟩
        · dsimp only
          rw [← Nat.sub_sub, drop_take_append (Nat.sub_le _ _) (Nat.sub_le _ _)]
        · rw [hla]
          omega

end Follow
