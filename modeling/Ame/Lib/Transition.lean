import Mathlib

/-!
# Runs of a labelled transition system

A run is a list of labels that leads from one state to another, one step a label. What holds at the start and is kept by every
step holds after every run.
-/

namespace Transition

variable {σ ℓ : Type*} {step : σ → ℓ → σ → Prop} {s t : σ} {labels : List ℓ}

/-- `Run step s labels t`: the labels lead from `s` to `t`, in this order. -/
inductive Run (step : σ → ℓ → σ → Prop) (s : σ) : List ℓ → σ → Prop where
  | nil : Run step s [] s
  | snoc {labels : List ℓ} {t u : σ} {l : ℓ} (hrun : Run step s labels t) (hstep : step t l u) : Run step s (labels ++ [l]) u

theorem Run.append {u : σ} {more : List ℓ} (h : Run step s labels t) (h' : Run step t more u) :
    Run step s (labels ++ more) u := by
  induction h' with
  | nil => rwa [List.append_nil]
  | snoc _ hs ih => exact List.append_assoc labels _ _ ▸ ih.snoc hs

/-- The invariant rule, for a property of the labels so far and of the state. -/
theorem Run.invariant {I : List ℓ → σ → Prop} (h : Run step s labels t) (h0 : I [] s)
    (hst : ∀ ls t l u, I ls t → step t l u → I (ls ++ [l]) u) : I labels t := by
  induction h with
  | nil => exact h0
  | snoc _ hs ih => exact hst _ _ _ _ ih hs

/-- The invariant rule, for a property of the state alone. -/
theorem Run.state_invariant {I : σ → Prop} (h : Run step s labels t) (h0 : I s) (hs : ∀ t l u, I t → step t l u → I u) : I t :=
  h.invariant (I := fun _ u => I u) h0 (fun _ t l u => hs t l u)

/-- The labels that a step function can take, one after the other, are a run. -/
theorem Run.of_foldlM {f : σ → ℓ → Option σ} (h : labels.foldlM f s = some t) :
    Run (fun s l t => f s l = some t) s labels t := by
  induction labels using List.reverseRecOn generalizing t with
  | nil => exact Option.some.inj h ▸ Run.nil
  | append_singleton labels l ih =>
    rw [List.foldlM_append] at h
    obtain ⟨u, hu, ht⟩ := Option.bind_eq_some_iff.mp h
    exact (ih hu).snoc (by simpa using ht)

end Transition
