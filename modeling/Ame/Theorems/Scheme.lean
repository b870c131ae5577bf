import Ame.Discovery.Scheme
import Ame.Lib.Result
import Mathlib

/-!
# Category scheme selection rejects no viable proposal for lack of members

A sample supports a proposal when the proposal leads by the required margins, and it leads by no less when other proposals are
removed. So the support of a proposal is greatest when it is alone, which is what the selection looks at before it says that a
proposal has too few members.
-/

namespace Ame

open List Result

section

variable {count : Nat} {active active' : Finset (Fin count)} {sample : ScoredSample count}
  {criteria : CategoryAdmissionCriteria} {samples : List (ScoredSample count)} {index idx : Fin count}
  {disposition : CategorySchemeDisposition} {indices : List (Fin count)}

/-! ## Support -/

/-- A proposal leads a rival score by the required margin. -/
def Ahead (criteria : CategoryAdmissionCriteria) (score rival : ℚ) : Prop :=
  0 < score - rival ∧ criteria.minimumSeparation ≤ score - rival

/-- A sample supports a proposal: it is eligible, improves on the baseline, and leads the baseline and every other active
proposal. -/
structure Supports (criteria : CategoryAdmissionCriteria) (active : Finset (Fin count)) (sample : ScoredSample count)
    (index : Fin count) : Prop where
  mem : index ∈ active
  eligible : sample.eligible index = true
  improvement : criteria.minimumImprovement ≤ sample.proposed index - sample.baseline
  aheadBaseline : Ahead criteria (sample.proposed index) sample.baseline
  aheadOthers : ∀ other ∈ active, other ≠ index → Ahead criteria (sample.proposed index) (sample.proposed other)

theorem nodup_ascending (active : Finset (Fin count)) : (ascending active).Nodup :=
  (nodup_finRange count).filter _

/-- What the scan of a sample answers. -/
theorem supportingCandidate_iff : (∃ separation, supportingCandidate active sample criteria = some (idx, separation)) ↔
      Supports criteria active sample idx := by
  have hs := Lead.scanned_scan sample.baseline sample.proposed (nodup_ascending active)
  unfold supportingCandidate
  generalize Lead.scan sample.baseline sample.proposed (ascending active) = scan at hs
  cases hs with
  | none hb =>
    constructor
    · rintro ⟨separation, h⟩
      cases h
    · intro h
      have hle := hb idx (mem_ascending.mpr h.mem)
      have hlt := h.aheadBaseline.1
      linarith
  | @some leader second hl hab hba hbe hot hat =>
    dsimp only
    constructor
    · rintro ⟨separation, h⟩
      split at h
      · next hm =>
        cases h
        obtain ⟨he, -, hi, hp, hse⟩ := hm
        refine ⟨mem_ascending.mp hl, he, hi, ⟨by linarith, by linarith⟩, ?_⟩
        intro o ho hne
        have hle := hot o (mem_ascending.mpr ho) hne
        exact ⟨by linarith, by linarith⟩
      · cases h
    · intro h
      -- the supported proposal is the one the scan found
      have heq : leader = idx := by
        by_contra hne
        have ha := (h.aheadOthers leader (mem_ascending.mp hl) hne).1
        have hle := (hot idx (mem_ascending.mpr h.mem) (Ne.symm hne)).trans hbe
        linarith
      subst heq
      have ha : Ahead criteria (sample.proposed leader) second := by
        rcases hat with rfl | ⟨o, ho, hne, rfl⟩
        · exact h.aheadBaseline
        · exact h.aheadOthers o (mem_ascending.mp ho) hne
      exact ⟨_, if_pos ⟨h.eligible, h.aheadBaseline.1, h.improvement, ha⟩⟩

/-- A sample that supports a proposal supports it when other proposals are removed. -/
theorem Supports.mono (h : Supports criteria active sample idx) (hs : active' ⊆ active) (hi : idx ∈ active') :
    Supports criteria active' sample idx :=
  ⟨hi, h.eligible, h.improvement, h.aheadBaseline, fun o ho => h.aheadOthers o (hs ho)⟩

open Classical in
/-- The members of a proposal are the samples that support it. -/
theorem schemeSupport_members :
    (schemeSupport active samples criteria idx).members = samples.countP fun sample => Supports criteria active sample idx := by
  induction samples using List.reverseRecOn with
  | nil => rfl
  | append_singleton samples sample ih =>
    rw [schemeSupport, foldl_append, foldl_cons, foldl_nil, ← schemeSupport, countP_append, countP_singleton, ← ih]
    cases hc : supportingCandidate active sample criteria with
    | none =>
      have hn : ¬Supports criteria active sample idx := by
        rw [← supportingCandidate_iff, hc]
        simp
      simp [countSupport, hc, hn]
    | some found =>
      obtain ⟨leader, separation⟩ := found
      have hi : Supports criteria active sample idx ↔ leader = idx := by
        rw [← supportingCandidate_iff, hc]
        simp
      by_cases heq : leader = idx
      · simp [countSupport, hc, hi, heq]
      · simp [countSupport, hc, hi, heq, Function.update_of_ne (Ne.symm heq)]

/-- Removing other proposals never lowers the support of a proposal. -/
theorem schemeSupport_mono (samples : List (ScoredSample count)) (criteria : CategoryAdmissionCriteria) (hs : active' ⊆ active)
    (hi : idx ∈ active') : (schemeSupport active samples criteria idx).members ≤
      (schemeSupport active' samples criteria idx).members := by
  rw [schemeSupport_members, schemeSupport_members]
  apply countP_mono_left
  intro sample _ h
  simp only [decide_eq_true_eq] at h ⊢
  exact h.mono hs hi

/-! ## The rounds -/

variable {lower : String → String} {existing : List CategoryDefinition} {proposed : Fin count → CategoryDefinition}
  {outcomes outs : Fin count → CategorySchemeCandidate}

/-- What holds between the rounds: the active proposals are those still admitted, none has an existing name, and a proposal is
called short of members only if it is so alone. -/
structure Reducing (lowercase : String → String) (existing : List CategoryDefinition)
    (proposed : Fin count → CategoryDefinition) (samples : List (ScoredSample count)) (criteria : CategoryAdmissionCriteria)
    (active : Finset (Fin count)) (outcomes : Fin count → CategorySchemeCandidate) : Prop where
  admitted : ∀ index, (outcomes index).disposition = .admitted ↔ index ∈ active
  names : ∀ index ∈ active, ∀ known ∈ existing, lowercase known.label ≠ lowercase (proposed index).label
  insufficient : ∀ index, (outcomes index).disposition = .insufficientMembers →
    (schemeSupport {index} samples criteria index).members < criteria.minimumMembers

/-- The proposals of an outcome that are admitted. -/
def admittedProposals (outcomes : Fin count → CategorySchemeCandidate) : Finset (Fin count) :=
  Finset.univ.filter fun index => (outcomes index).disposition = .admitted

/-- What the selection has to give: a scheme in which every category has enough members, all names differ, and no more than the
allowed number are added. -/
structure ViableScheme (lowercase : String → String) (existing : List CategoryDefinition)
    (proposed : Fin count → CategoryDefinition) (samples : List (ScoredSample count)) (criteria : CategoryAdmissionCriteria)
    (admitted : Finset (Fin count)) : Prop where
  supported : ∀ index ∈ admitted, criteria.minimumMembers ≤ (schemeSupport admitted samples criteria index).members
  distinct : ∀ index ∈ admitted, ∀ other ∈ admitted, index ≠ other →
    lowercase (proposed index).label ≠ lowercase (proposed other).label
  new : ∀ index ∈ admitted, ∀ known ∈ existing, lowercase known.label ≠ lowercase (proposed index).label
  bounded : admitted.card ≤ criteria.maxProposals

theorem removedDisposition_cases (samples : List (ScoredSample count)) (criteria : CategoryAdmissionCriteria)
    (index : Fin count) (ha : disposition ≠ .admitted) (hi : disposition ≠ .insufficientMembers) :
    removedDisposition samples criteria index disposition ≠ .admitted ∧
    (removedDisposition samples criteria index disposition = .insufficientMembers →
        (schemeSupport {index} samples criteria index).members < criteria.minimumMembers) := by
  unfold removedDisposition
  split
  · next h => exact ⟨nofun, fun _ => h.2⟩
  · exact ⟨ha, fun h => absurd h hi⟩

/-- Why a proposal is removed is neither that it is admitted nor yet that it is short of members. -/
theorem removable_disposition {statistics : Fin count → Support}
    (h : removable lower proposed criteria active statistics = some (indices, disposition)) :
    disposition ≠ .admitted ∧ disposition ≠ .insufficientMembers := by
  unfold removable at h
  dsimp only at h
  split at h
  · cases h
    exact ⟨nofun, nofun⟩
  · split at h
    · cases h
      exact ⟨nofun, nofun⟩
    · split at h
      · cases h
        exact ⟨nofun, nofun⟩
      · cases h

/-- When nothing has to go, the active proposals are a viable scheme. -/
theorem removable_none (hn : ∀ idx ∈ active, ∀ known ∈ existing, lower known.label ≠ lower (proposed idx).label)
    (h : removable lower proposed criteria active (schemeSupport active samples criteria) = none) :
    ViableScheme lower existing proposed samples criteria active := by
  unfold removable at h
  dsimp only at h
  split at h
  · cases h
  · next hw =>
    split at h
    · cases h
    · next hd =>
      split at h
      · cases h
      · next hb =>
        rw [not_not, filter_eq_nil_iff] at hw hd
        refine ⟨?_, ?_, hn, Nat.le_of_not_lt hb⟩
        · intro idx hi
          simpa using hw idx (mem_ascending.mpr hi)
        · intro idx hi o ho hne heq
          apply hd idx (mem_ascending.mpr hi)
          exact any_eq_true.mpr ⟨o, mem_ascending.mpr ho, by simp [hne, heq]⟩

/-- One removal keeps the invariant. -/
theorem Reducing.remove {support : Support} (h : Reducing lower existing proposed samples criteria active outs)
    (ha : disposition ≠ .admitted) (hi : disposition ≠ .insufficientMembers) :
    Reducing lower existing proposed samples criteria (active.erase idx)
      (Function.update outs idx { recordSupport (outs idx) support with
        disposition := removedDisposition samples criteria idx disposition }) := by
  obtain ⟨hr, hs⟩ := removedDisposition_cases samples criteria idx ha hi
  constructor
  · intro o
    by_cases heq : o = idx
    · subst heq
      simp [hr]
    · simp [heq, h.admitted]
  · intro o ho
    exact h.names o (Finset.mem_of_mem_erase ho)
  · intro o ho
    by_cases heq : o = idx
    · subst heq
      rw [Function.update_self] at ho
      exact hs ho
    · rw [Function.update_of_ne heq] at ho
      exact h.insufficient o ho

/-- The last round. -/
theorem reduceScheme_none (h : removable lower proposed criteria active (schemeSupport active samples criteria) = none) :
    reduceScheme lower proposed samples criteria false active outs = .ok fun idx => if idx ∈ active then
        recordSupport (outs idx) (schemeSupport active samples criteria idx) else outs idx := by
  rw [reduceScheme, show checkCancelled false = .ok () from rfl]
  dsimp only [bind, Except.bind]
  split
  · rfl
  · next hs =>
    rw [h] at hs
    cases hs

/-- A round that removes a proposal. -/
theorem reduceScheme_some (h : removable lower proposed criteria active (schemeSupport active samples criteria) =
    some (indices, disposition))
    (hi : weakest indices (schemeSupport active samples criteria) = some idx) :
    reduceScheme lower proposed samples criteria false active outs =
      reduceScheme lower proposed samples criteria false (active.erase idx) (Function.update outs idx
          { recordSupport (outs idx) (schemeSupport active samples criteria idx) with
            disposition := removedDisposition samples criteria idx disposition }) := by
  rw [reduceScheme, show checkCancelled false = .ok () from rfl]
  dsimp only [bind, Except.bind]
  split
  · next hn =>
    rw [h] at hn
    cases hn
  · next hs =>
    rw [h] at hs
    cases hs
    split
    · next hn =>
      rw [hi] at hn
      cases hn
    · next found hf =>
      rw [hi] at hf
      cases hf
      rfl

/-- Of some there is a weakest. -/
theorem weakest_isSome (statistics : Fin count → Support) (h : indices ≠ []) :
    ∃ idx, weakest indices statistics = some idx := by
  obtain ⟨first, rest, rfl⟩ := exists_cons_of_ne_nil h
  exact ⟨_, rfl⟩

/-- What a finished selection says. -/
structure Selected (lowercase : String → String) (existing : List CategoryDefinition)
    (proposed : Fin count → CategoryDefinition) (samples : List (ScoredSample count)) (criteria : CategoryAdmissionCriteria)
    (outcomes : Fin count → CategorySchemeCandidate) : Prop where
  viable : ViableScheme lowercase existing proposed samples criteria (admittedProposals outcomes)
  insufficient : ∀ index, (outcomes index).disposition = .insufficientMembers →
    (schemeSupport {index} samples criteria index).members < criteria.minimumMembers

/-- The rounds end with a viable scheme. -/
theorem reduceScheme_selected (h : Reducing lower existing proposed samples criteria active outs) :
    ∃ res, reduceScheme lower proposed samples criteria false active outs = .ok res ∧
      Selected lower existing proposed samples criteria res := by
  induction hc : active.card using Nat.strong_induction_on generalizing active outs with
  | _ card ih =>
    cases hr : removable lower proposed criteria active (schemeSupport active samples criteria) with
    | none =>
      refine ⟨_, reduceScheme_none hr, ?_⟩
      have hd : ∀ idx, (if idx ∈ active then recordSupport (outs idx)
          (schemeSupport active samples criteria idx) else outs idx).disposition = (outs idx).disposition := by
        intro idx
        split <;> rfl
      have ha : admittedProposals (fun idx => if idx ∈ active then recordSupport (outs idx)
          (schemeSupport active samples criteria idx) else outs idx) = active := by
        ext idx
        simp [admittedProposals, hd, h.admitted]
      refine ⟨?_, ?_⟩
      · rw [ha]
        exact removable_none h.names hr
      · intro idx hi
        exact h.insufficient idx (hd idx ▸ hi)
    | some found =>
      obtain ⟨hne, hac⟩ := removable_active hr
      obtain ⟨ha, hin⟩ := removable_disposition hr
      obtain ⟨idx, hi⟩ := weakest_isSome (schemeSupport active samples criteria) hne
      rw [reduceScheme_some hr hi]
      have hlt := Finset.card_erase_lt_of_mem (hac idx (weakest_mem hi))
      exact ih _ (hc ▸ hlt) (h.remove ha hin) rfl

theorem initialDisposition_admitted {category : CategoryDefinition}
    (h : initialDisposition lower existing category = .admitted) :
    ∀ known ∈ existing, lower known.label ≠ lower category.label := by
  unfold initialDisposition at h
  split at h
  · cases h
  · split at h
    · cases h
    · next hn =>
      intro known hk heq
      exact hn (any_eq_true.mpr ⟨known, hk, by simpa using heq⟩)

theorem initialDisposition_ne (lower : String → String) (existing : List CategoryDefinition)
    (category : CategoryDefinition) : initialDisposition lower existing category ≠ .insufficientMembers := by
  unfold initialDisposition
  split
  · exact nofun
  · split
    · exact nofun
    · exact nofun

end

/-- The selection ends with a viable scheme; removing proposals never lowers the support of another; and a proposal is called
short of members only if it is so in every set of proposals. -/
theorem scheme_selection_viable {count : Nat} (lowercase : String → String) (existing : List CategoryDefinition)
    (proposed : Fin count → CategoryDefinition) (samples : List (ScoredSample count)) (criteria : CategoryAdmissionCriteria) :
    (∃ outcomes, selectScheme lowercase existing proposed samples criteria false = .ok outcomes ∧
      ViableScheme lowercase existing proposed samples criteria (admittedProposals outcomes) ∧
      ∀ index, (outcomes index).disposition = .insufficientMembers → ∀ active : Finset (Fin count), index ∈ active →
        (schemeSupport active samples criteria index).members < criteria.minimumMembers) ∧
    ∀ active active' : Finset (Fin count), active' ⊆ active → ∀ index ∈ active',
      (schemeSupport active samples criteria index).members ≤ (schemeSupport active' samples criteria index).members := by
  refine ⟨?_, fun active active' hsu index hi => schemeSupport_mono samples criteria hsu hi⟩
  have hst : Reducing lowercase existing proposed samples criteria
      (Finset.univ.filter fun index => initialDisposition lowercase existing (proposed index) = .admitted)
      fun index =>
        { categoryId := (proposed index).id
          disposition := initialDisposition lowercase existing (proposed index)
          uniqueMembers := 0
          meanMarginalGain := 0 } := by
    constructor
    · simp
    · intro index hi
      exact initialDisposition_admitted (Finset.mem_filter.mp hi).2
    · intro index hi
      exact absurd hi (initialDisposition_ne lowercase existing (proposed index))
  obtain ⟨outcomes, hr, hs⟩ := reduceScheme_selected hst
  refine ⟨outcomes, hr, hs.viable, ?_⟩
  intro index hi active ha
  have hal := schemeSupport_mono samples criteria (Finset.singleton_subset_iff.mpr ha) (Finset.mem_singleton_self index)
  exact Nat.lt_of_le_of_lt hal (hs.insufficient index hi)

end Ame
