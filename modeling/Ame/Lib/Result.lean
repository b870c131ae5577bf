import Mathlib

/-!
# Computations that may fail

How a computation that stops at its first error succeeds: each part succeeds in turn.
-/

namespace Result

open List Except

variable {ε α β : Type} {x : Except ε α} {f : α → Except ε β} {b : β} {c : Prop} {e : ε} {σ : Type} {l : List α} {bs : List β}

/-- From a successful bind, its first part and what follows. -/
theorem bind_ok (h : (x >>= f) = .ok b) : ∃ a, x = .ok a ∧ f a = .ok b := by
  cases x with
  | error e => cases h
  | ok a => exact ⟨a, rfl, h⟩

/-- A mapped computation succeeds when the computation does. -/
theorem map_ok {f : α → β} (h : x.map f = .ok b) : ∃ a, x = .ok a ∧ f a = b := by
  cases x with
  | error e => cases h
  | ok a => exact ⟨a, rfl, ok.inj h⟩

/-- Renaming the error does not change when a computation succeeds. -/
theorem mapError_ok {ε' : Type} {f : ε → ε'} {a : α} : x.mapError f = .ok a ↔ x = .ok a := by
  cases x with
  | error e => exact ⟨fun h => (by cases h), fun h => (by cases h)⟩
  | ok b => exact ⟨fun h => congrArg _ (Except.ok.inj h), fun h => congrArg _ (Except.ok.inj h)⟩

/-- A check and what follows it succeed when both do. -/
theorem bind_unit_ok {x : Except ε Unit} {f : Unit → Except ε β} : (x >>= f) = .ok b ↔ x = .ok () ∧ f () = .ok b := by
  cases x with
  | error e => exact ⟨fun h => (by cases h), fun h => (by cases h.1)⟩
  | ok u => exact ⟨fun h => ⟨rfl, h⟩, fun h => h.2⟩

/-- A check written as an early error passes when its condition does not hold. -/
theorem ite_throw_ok [Decidable c] {x : Except ε β} : (if c then throw e else x) = .ok b ↔ ¬c ∧ x = .ok b := by
  split
  · next h => exact ⟨fun h => (by cases h), fun hn => absurd h hn.1⟩
  · next h => exact ⟨fun hx => ⟨h, hx⟩, fun hx => hx.2⟩

/-- The same check with a continuation after the error. -/
theorem ite_throw_bind_ok [Decidable c] {f : Unit → Except ε β} {x : Except ε β} :
    (if c then throw e >>= f else x) = .ok b ↔ ¬c ∧ x = .ok b := by
  split
  · next h => exact ⟨fun h => (by cases h), fun hn => absurd h hn.1⟩
  · next h => exact ⟨fun hx => ⟨h, hx⟩, fun hx => hx.2⟩

/-- What every round of a loop keeps, the loop keeps. -/
theorem foldlM_invariant {f : σ → α → Except ε σ} {P : σ → Prop} {s t : σ}
    (hst : ∀ a ∈ l, ∀ s t, P s → f s a = .ok t → P t) (h : l.foldlM f s = .ok t) (hs : P s) : P t := by
  induction l generalizing s with
  | nil => exact ok.inj h ▸ hs
  | cons a l ih =>
    obtain ⟨u, hu, ht⟩ := bind_ok h
    exact ih (fun b hb => hst b (mem_cons_of_mem _ hb)) ht (hst a mem_cons_self s u hs hu)

/-- The same for what is said about the rounds done so far. -/
theorem foldlM_history {f : σ → α → Except ε σ} {P : List α → σ → Prop} {s t : σ}
    (hst : ∀ done a s t, P done s → f s a = .ok t → P (done ++ [a]) t) (h : l.foldlM f s = .ok t) (hs : P [] s) : P l t := by
  induction l using List.reverseRecOn generalizing t with
  | nil => exact ok.inj h ▸ hs
  | append_singleton l a ih =>
    rw [foldlM_append] at h
    obtain ⟨u, hu, ht⟩ := bind_ok h
    exact hst l a u t (ih hu) (by simpa using ht)

/-- A loop of checks passes exactly when each of them does. -/
theorem forM_ok_iff {f : α → Except ε Unit} : l.forM f = .ok () ↔ ∀ x ∈ l, f x = .ok () := by
  induction l with
  | nil => exact ⟨fun _ => by simp, fun _ => rfl⟩
  | cons a l ih => rw [forM_eq_forM, forM_cons, bind_unit_ok, forall_mem_cons, ← ih]; rfl

/-- A loop of checks that keeps the keys it has seen and tells each check whether the key is a repeated one. -/
def visitDistinct {κ : Type} [DecidableEq κ] (key : α → κ) (check : Bool → α → Except ε Unit) : List κ → List α → Except ε Unit
  | _, [] => .ok ()
  | seen, x :: rest => do
    check (seen.contains (key x)) x
    visitDistinct key check (key x :: seen) rest

/-- If a repeated key is refused, the loop passes exactly when each check does and no key is repeated. -/
theorem visitDistinct_ok_iff {κ : Type} [DecidableEq κ] {key : α → κ} {check : Bool → α → Except ε Unit}
    (hr : ∀ x, check true x ≠ .ok ()) {seen : List κ} :
    visitDistinct key check seen l = .ok () ↔
      (∀ x ∈ l, check false x = .ok ()) ∧ (l.map key).Nodup ∧ ∀ x ∈ l, key x ∉ seen := by
  induction l generalizing seen with
  | nil => simp [visitDistinct]
  | cons x rest ih =>
    rw [visitDistinct, bind_unit_ok, ih, map_cons, nodup_cons, forall_mem_cons, forall_mem_cons]
    by_cases hs : key x ∈ seen
    · have hc : seen.contains (key x) = true := contains_iff_mem.mpr hs
      rw [hc]
      exact ⟨fun h => absurd h.1 (hr x), fun h => absurd hs h.2.2.1⟩
    · have hc : seen.contains (key x) = false := by simpa using hs
      rw [hc]
      constructor
      · rintro ⟨hx, hre, hn, hk⟩
        refine ⟨⟨hx, hre⟩, ⟨?_, hn⟩, hs, ?_⟩
        · intro hm
          obtain ⟨y, hy, hke⟩ := mem_map.mp hm
          exact hk y hy (hke ▸ mem_cons_self)
        · intro y hy hm
          exact hk y hy (mem_cons_of_mem _ hm)
      · rintro ⟨⟨hx, hre⟩, ⟨hf, hn⟩, -, hk⟩
        refine ⟨hx, hre, hn, ?_⟩
        intro y hy hm
        rcases mem_cons.mp hm with hke | hm
        · exact hf (hke ▸ mem_map_of_mem hy)
        · exact hk y hy hm

/-- A loop that builds a list succeeds with the results of its rounds. -/
theorem mapM_ok_iff : l.mapM f = .ok bs ↔ List.Forall₂ (fun a b => f a = .ok b) l bs := by
  induction l generalizing bs with
  | nil =>
    rw [List.forall₂_nil_left_iff]
    exact ⟨fun h => (ok.inj h).symm, fun h => h ▸ rfl⟩
  | cons a l ih =>
    rw [mapM_cons, List.forall₂_cons_left_iff]
    constructor
    · intro h
      obtain ⟨b, hb, h⟩ := bind_ok h
      obtain ⟨bs', hbs, h⟩ := bind_ok h
      exact ⟨b, bs', hb, ih.mp hbs, (ok.inj h).symm⟩
    · rintro ⟨b, bs', hb, hbs, rfl⟩
      rw [hb, ih.mpr hbs]
      rfl

/-- Of two lists related place by place, what an element of the second is related to. -/
theorem forall₂_exists_left {R : α → β → Prop} (h : List.Forall₂ R l bs) (hb : b ∈ bs) : ∃ a ∈ l, R a b := by
  induction h with
  | nil => cases hb
  | @cons a c l bs hac _ ih =>
    rcases mem_cons.mp hb with rfl | hb
    · exact ⟨a, mem_cons_self, hac⟩
    · obtain ⟨a', hm, hr⟩ := ih hb
      exact ⟨a', mem_cons_of_mem _ hm, hr⟩

/-- The results of the loop, place by place. -/
theorem mapM_getElem? (h : l.mapM f = .ok bs) {i : Nat} : bs[i]? = some b ↔ ∃ a, l[i]? = some a ∧ f a = .ok b := by
  have hr := mapM_ok_iff.mp h
  clear h
  induction hr generalizing i with
  | nil => simp
  | @cons a c l bs ha _ ih =>
    cases i with
    | zero =>
      simp only [getElem?_cons_zero, Option.some.injEq, exists_eq_left', ha, ok.injEq]
    | succ i => simpa only [getElem?_cons_succ] using ih

/-- The results of the loop. -/
theorem mem_mapM_iff (h : l.mapM f = .ok bs) : b ∈ bs ↔ ∃ a ∈ l, f a = .ok b := by
  simp only [mem_iff_getElem?, mapM_getElem? h]
  constructor
  · rintro ⟨i, a, hi, ha⟩
    exact ⟨a, ⟨i, hi⟩, ha⟩
  · rintro ⟨a, ⟨i, hi⟩, ha⟩
    exact ⟨i, a, hi, ha⟩

/-- What holds of some result of the loop, in terms of the element it comes from. -/
theorem mapM_exists_iff (h : l.mapM f = .ok bs) {P : β → Prop} {Q : α → Prop}
    (hpq : ∀ a ∈ l, ∀ b, f a = .ok b → (P b ↔ Q a)) : (∃ b ∈ bs, P b) ↔ ∃ a ∈ l, Q a := by
  have hr := mapM_ok_iff.mp h
  clear h
  induction hr with
  | nil => simp
  | cons hab _ ih =>
    have hh := hpq _ (by simp) _ hab
    have ht := ih fun a ha => hpq a (mem_cons_of_mem _ ha)
    simp [hh, ht]

end Result
