import Ame.Lib.Result

/-!
# Computations that keep a log

A computation on a state that holds a log, which may fail. `Logs` says what a computation has appended to the log when it ends,
together with its result, and the rules say it of composed computations.
-/

namespace Logged

open List Result

variable {σ ε τ α β γ : Type} {log : σ → List τ}

/-- If the computation ends, it has appended a list to the log that `Q` holds of, together with the result. -/
def Logs (log : σ → List τ) (m : StateT σ (Except ε) α) (Q : α → List τ → Prop) : Prop :=
  ∀ s a t, m s = .ok (a, t) → ∃ added, log t = log s ++ added ∧ Q a added

variable {m : StateT σ (Except ε) α} {f : α → StateT σ (Except ε) β} {Q R : α → List τ → Prop} {S : β → List τ → Prop}

theorem Logs.mono (h : Logs log m Q) (hqr : ∀ a added, Q a added → R a added) : Logs log m R := by
  intro s a t hm
  obtain ⟨added, hl, hq⟩ := h s a t hm
  exact ⟨added, hl, hqr a added hq⟩

theorem Logs.pure {a : α} (h : Q a []) : Logs log (Pure.pure a : StateT σ (Except ε) α) Q := by
  intro s b t hm
  cases hm
  exact ⟨[], (append_nil _).symm, h⟩

theorem Logs.throw {e : ε} : Logs log (MonadExcept.throw e : StateT σ (Except ε) α) Q := by
  intro s a t hm
  cases hm

/-- A computation that does not write to the log. -/
theorem Logs.silent (h : ∀ s a t, m s = .ok (a, t) → log t = log s) : Logs log m fun _ added => added = [] := by
  intro s a t hm
  exact ⟨[], by rw [h s a t hm, append_nil], rfl⟩

/-- One computation after another: the second appends to what the first has appended. -/
theorem Logs.bind (h : Logs log m Q) (hf : ∀ a added, Q a added → Logs log (f a) fun b more => S b (added ++ more)) :
    Logs log (m >>= f) S := by
  intro s b t hm
  obtain ⟨⟨a, u⟩, ha, hb⟩ := bind_ok hm
  obtain ⟨added, had, hq⟩ := h s a u ha
  obtain ⟨more, hmo, hs⟩ := hf a added hq u b t hb
  exact ⟨added ++ more, by rw [hmo, had, append_assoc], hs⟩

/-- After a computation that does not write to the log. -/
theorem Logs.after (h : Logs log m fun _ added => added = []) (hf : ∀ a, Logs log (f a) S) : Logs log (m >>= f) S :=
  h.bind fun a added ha => (hf a).mono fun b more hs => by rwa [ha]

/-- A loop appends what its rounds append, one after the other. -/
theorem Logs.forM {round : γ → StateT σ (Except ε) Unit} {part : γ → List τ} (items : List γ)
    (h : ∀ item ∈ items, Logs log (round item) fun _ added => added = part item) :
    Logs log (items.forM round) fun _ added => added = items.flatMap part := by
  induction items with
  | nil => exact Logs.pure rfl
  | cons item items ih =>
    refine (h item mem_cons_self).bind fun _ added ha => ?_
    refine (ih fun o ho => h o (mem_cons_of_mem _ ho)).mono fun _ more hm => ?_
    rw [ha, hm, flatMap_cons]

end Logged
