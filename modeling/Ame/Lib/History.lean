import Ame.Lib.Result
import Ame.Lib.Transition
import Mathlib

/-!
# What a loop has seen

A loop over a list meets each element with the elements before it, its history. Whatever it emits at an element is then a
relation of the history, the element and the output.
-/

namespace History

open List Result Transition

/-- A loop that may fail is a run of its rounds. -/
theorem run_of_foldlM {ε σ α : Type} {f : σ → α → Except ε σ} {l : List α} {s t : σ} (h : l.foldlM f s = .ok t) :
    Run (fun s a t => f s a = .ok t) s l t := by
  induction l using List.reverseRecOn generalizing t with
  | nil => exact Except.ok.inj h ▸ Run.nil
  | append_singleton l a ih =>
    rw [foldlM_append] at h
    obtain ⟨u, hu, ht⟩ := bind_ok h
    exact (ih hu).snoc (by simpa using ht)

variable {α β : Type*} {emits : List α → α → β → Prop}

/-- The ways to pick an element of a list that ends in `x`: `x` itself, or one before it. -/
theorem append_singleton_eq_iff {l a b : List α} {x y : α} :
    l ++ [x] = a ++ y :: b ↔ (b = [] ∧ a = l ∧ y = x) ∨ ∃ c, b = c ++ [x] ∧ l = a ++ y :: c := by
  constructor
  · intro h
    rcases eq_nil_or_concat b with rfl | ⟨c, z, rfl⟩
    · obtain ⟨hl, hx⟩ := append_singleton_inj.mp h
      exact .inl ⟨rfl, hl.symm, hx.symm⟩
    · rw [concat_eq_append, ← cons_append, ← append_assoc] at h
      obtain ⟨hl, rfl⟩ := append_singleton_inj.mp h
      exact .inr ⟨c, concat_eq_append, hl⟩
  · rintro (⟨rfl, rfl, rfl⟩ | ⟨c, rfl, rfl⟩) <;> simp

/-- `Emitted emits l out`: a loop over `l` that emits at most one output a round has emitted `out`. -/
inductive Emitted (emits : List α → α → β → Prop) : List α → List β → Prop where
  | nil : Emitted emits [] []
  | emit {l : List α} {out : List β} {x : α} {b : β} (h : Emitted emits l out) (hb : ∀ c, emits l x c ↔ c = b) :
      Emitted emits (l ++ [x]) (out ++ [b])
  | skip {l : List α} {out : List β} {x : α} (h : Emitted emits l out) (hb : ∀ b, ¬emits l x b) : Emitted emits (l ++ [x]) out

/-- What has been emitted was emitted at some element. -/
theorem Emitted.mem_iff {l : List α} {out : List β} (h : Emitted emits l out) (b : β) :
    b ∈ out ↔ ∃ p x q, l = p ++ x :: q ∧ emits p x b := by
  induction h with
  | nil => simp
  | @emit l out x c _ hb ih =>
    rw [mem_append, mem_singleton, ih]
    constructor
    · rintro (⟨p, y, q, rfl, hy⟩ | rfl)
      · exact ⟨p, y, q ++ [x], by simp, hy⟩
      · exact ⟨l, x, [], rfl, (hb b).mpr rfl⟩
    · rintro ⟨p, y, q, hl, hy⟩
      rcases append_singleton_eq_iff.mp hl with ⟨-, rfl, rfl⟩ | ⟨q, -, rfl⟩
      · exact .inr ((hb b).mp hy)
      · exact .inl ⟨p, y, q, rfl, hy⟩
  | @skip l out x _ hb ih =>
    rw [ih]
    constructor
    · rintro ⟨p, y, q, rfl, hy⟩
      exact ⟨p, y, q ++ [x], by simp, hy⟩
    · rintro ⟨p, y, q, hl, hy⟩
      rcases append_singleton_eq_iff.mp hl with ⟨-, rfl, rfl⟩ | ⟨q, -, rfl⟩
      · exact absurd hy (hb b)
      · exact ⟨p, y, q, rfl, hy⟩

/-- No output twice: no two elements emit the same. -/
theorem Emitted.nodup_iff {l : List α} {out : List β} (h : Emitted emits l out) :
    out.Nodup ↔ ∀ p x q y r b, l = p ++ x :: q ++ y :: r → emits p x b → ¬emits (p ++ x :: q) y b := by
  induction h with
  | nil => simp
  | @emit l out z c hl hb ih =>
    rw [nodup_append, ih]
    constructor
    · rintro ⟨ho, -, hdi⟩ p x q y r b heq hx hy
      rcases append_singleton_eq_iff.mp heq with ⟨-, rfl, rfl⟩ | ⟨r, -, rfl⟩
      · exact hdi b ((hl.mem_iff b).mpr ⟨p, x, q, rfl, hx⟩) c (by simp) ((hb b).mp hy)
      · exact ho p x q y r b rfl hx hy
    · intro ha
      refine ⟨fun p x q y r b heq => ha p x q y (r ++ [z]) b (by simp [heq]), by simp, ?_⟩
      rintro b hm d hd rfl
      obtain ⟨p, x, q, rfl, hx⟩ := (hl.mem_iff b).mp hm
      exact ha p x q z [] b rfl hx ((hb b).mpr (mem_singleton.mp hd))
  | @skip l out z hl hb ih =>
    rw [ih]
    constructor
    · intro ho p x q y r b heq hx hy
      rcases append_singleton_eq_iff.mp heq with ⟨-, rfl, rfl⟩ | ⟨r, -, rfl⟩
      · exact hb b hy
      · exact ho p x q y r b rfl hx hy
    · exact fun ha p x q y r b heq => ha p x q y (r ++ [z]) b (by simp [heq])

end History
