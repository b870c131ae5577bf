import Mathlib

/-!
# Leader and runner-up

A scan that keeps the best score over a baseline, the element that has it, and the best of the other scores. The element leads by
whatever its score is above the baseline and above every other score.
-/

namespace Lead

open List

variable {ι S : Type*} [LinearOrder S]

/-- The state of the scan. -/
structure Scan (ι S : Type*) where
  best : S
  second : S
  leading : Option ι

/-- One element: it leads only if it is better than all before it. -/
def meet (score : ι → S) (scan : Scan ι S) (x : ι) : Scan ι S :=
  if scan.best < score x then ⟨score x, scan.best, some x⟩ else { scan with second := max scan.second (score x) }

/-- The scan of a list. -/
def scan (baseline : S) (score : ι → S) (l : List ι) : Scan ι S := l.foldl (meet score) ⟨baseline, baseline, none⟩

/-- What has been scanned: nothing is above the baseline, or one element is, nothing is above it, and the second score is the best
of the baseline and the scores of the others. -/
inductive Scanned (baseline : S) (score : ι → S) (l : List ι) : Scan ι S → Prop where
  | none (h : ∀ x ∈ l, score x ≤ baseline) : Scanned baseline score l ⟨baseline, baseline, none⟩
  | some {x : ι} {second : S} (hx : x ∈ l) (habove : baseline < score x) (hbaseline : baseline ≤ second)
      (hbest : second ≤ score x) (hothers : ∀ y ∈ l, y ≠ x → score y ≤ second)
      (hattained : second = baseline ∨ ∃ y ∈ l, y ≠ x ∧ score y = second) :
      Scanned baseline score l ⟨score x, second, some x⟩

theorem Scanned.meet {baseline : S} {score : ι → S} {l : List ι} {s : Scan ι S} {x : ι} (h : Scanned baseline score l s)
    (hx : x ∉ l) : Scanned baseline score (l ++ [x]) (meet score s x) := by
  cases h with
  | none hbe =>
    unfold Lead.meet
    split
    · next hlt =>
      refine .some (by simp) hlt le_rfl hlt.le ?_ (.inl rfl)
      intro y hy hne
      rcases mem_append.mp hy with hy | hy
      · exact hbe y hy
      · exact absurd (mem_singleton.mp hy) hne
    · next hle =>
      rw [max_eq_left (not_lt.mp hle)]
      refine .none ?_
      intro y hy
      rcases mem_append.mp hy with hy | hy
      · exact hbe y hy
      · rw [mem_singleton.mp hy]
        exact not_lt.mp hle
  | @some z second hz ha hb hbes ho hat =>
    unfold Lead.meet
    split
    · next hlt =>
      refine .some (by simp) (ha.trans hlt) ha.le hlt.le ?_ (.inr ⟨z, by simp [hz], ?_, rfl⟩)
      · intro y hy hne
        rcases mem_append.mp hy with hy | hy
        · by_cases hyz : y = z
          · rw [hyz]
          · exact (ho y hy hyz).trans hbes
        · exact absurd (mem_singleton.mp hy) hne
      · rintro rfl
        exact hx hz
    · next hle =>
      have hxz : x ≠ z := by
        rintro rfl
        exact hx hz
      refine .some (by simp [hz]) ha (hb.trans (le_max_left _ _)) (max_le hbes (not_lt.mp hle)) ?_ ?_
      · intro y hy hne
        rcases mem_append.mp hy with hy | hy
        · exact (ho y hy hne).trans (le_max_left _ _)
        · rw [mem_singleton.mp hy]
          exact le_max_right _ _
      · rcases max_choice second (score x) with hm | hm
        · rw [hm]
          rcases hat with heq | ⟨y, hy, hne, heq⟩
          · exact .inl heq
          · exact .inr ⟨y, by simp [hy], hne, heq⟩
        · exact .inr ⟨x, by simp, hxz, hm.symm⟩

/-- The scan of a list without repetitions. -/
theorem scanned_scan (baseline : S) (score : ι → S) {l : List ι} (hl : l.Nodup) :
    Scanned baseline score l (scan baseline score l) := by
  induction l using List.reverseRecOn with
  | nil => exact .none (by simp)
  | append_singleton l x ih =>
    obtain ⟨hn, -, hd⟩ := nodup_append.mp hl
    rw [scan, foldl_append]
    exact (ih hn).meet fun hm => hd x hm x (mem_singleton_self x) rfl

end Lead
