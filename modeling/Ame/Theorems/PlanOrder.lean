import Ame.Theorems.Planning

/-!
# A plan does not depend on the order of arrival

The observations are sorted before they are planned, but the order leaves the root out: an observation of another root may
stand anywhere among those that compare equal. It is only counted, and the observations of the root itself are ordered in one
way.
-/

namespace Ame

open List

variable {context ctx : LibraryChangePlanningContext} {a b : LibraryChangeObservation}
  {observations seen others : List LibraryChangeObservation}

/-! ## The order -/

/-- Origins have distinct ranks. -/
theorem originRank_injective {a b : LibraryChangeOrigin} (h : originRank a = originRank b) : a = b := by
  cases a <;> cases b <;> first | rfl | cases h

theorem LibraryChangeScope.rank_injective {a b : LibraryChangeScope} (h : a.rank = b.rank) : a = b := by
  cases a <;> cases b <;> first | rfl | cases h

theorem LibraryChangeObservationKind.rank_injective {a b : LibraryChangeObservationKind} (h : a.rank = b.rank) : a = b := by
  rcases a with _ | _ | _ | ⟨_ | _⟩ | _ | _ <;> rcases b with _ | _ | _ | ⟨_ | _⟩ | _ | _ <;> first | rfl | cases h

instance : Std.TransCmp observationSortOrder :=
  inferInstanceAs (Std.TransCmp (compareLex (compareOn LibraryChangeObservation.sequence) <|
    compareLex (compareOn LibraryChangeObservation.observedUnixMs) <| compareLex (compareOn fun o => originRank o.origin) <|
    compareLex (compareOn fun o => o.kind.rank) <| compareLex (compareOn fun o => o.scope.rank) <|
    compareLex (compareOn LibraryChangeObservation.relativePath) (compareOn LibraryChangeObservation.previousRelativePath)))

/-- Observations of one root that compare equal are equal. -/
theorem eq_of_observationSortOrder (ha : ctx.owns a = true) (hb : ctx.owns b = true)
    (h : observationSortOrder a b = .eq) : a = b := by
  simp only [observationSortOrder, Ordering.then_eq_eq, Std.LawfulEqOrd.compare_eq_iff_eq] at h
  simp only [LibraryChangePlanningContext.owns, Bool.and_eq_true, beq_iff_eq] at ha hb
  obtain ⟨hs, ho, hor, hk, hsc, hpa, hp⟩ := h
  cases a
  cases b
  simp only [LibraryChangeObservation.mk.injEq]
  exact ⟨ha.1.trans hb.1.symm, ha.2.trans hb.2.symm, hs, ho, LibraryChangeObservationKind.rank_injective hk,
    LibraryChangeScope.rank_injective hsc, hpa, hp, originRank_injective hor⟩

/-- The observations in the order in which they are planned. -/
def inPlanningOrder (observations : List LibraryChangeObservation) : List LibraryChangeObservation :=
  observations.insertionSort fun a b => observationSortOrder a b ≠ .gt

theorem inPlanningOrder_perm (h : seen.Perm others) : (inPlanningOrder seen).Perm (inPlanningOrder others) :=
  (perm_insertionSort _ _).trans (h.trans (perm_insertionSort _ _).symm)

theorem observationSortOrder_swap (a b : LibraryChangeObservation) :
    observationSortOrder b a = (observationSortOrder a b).swap :=
  Std.OrientedCmp.eq_swap

theorem pairwise_inPlanningOrder (observations : List LibraryChangeObservation) :
    (inPlanningOrder observations).Pairwise fun a b => observationSortOrder a b ≠ .gt := by
  have : Std.Total fun a b => observationSortOrder a b ≠ .gt := ⟨fun a b => by
    rw [observationSortOrder_swap a b]
    cases observationSortOrder a b <;> simp⟩
  have : IsTrans _ fun a b => observationSortOrder a b ≠ .gt := ⟨fun a b c hab hbc =>
    Ordering.isLE_iff_ne_gt.mp (Std.TransCmp.isLE_trans (Ordering.isLE_iff_ne_gt.mpr hab) (Ordering.isLE_iff_ne_gt.mpr hbc))⟩
  exact pairwise_insertionSort _ _

/-- The observations of a root are planned in the same order, however they arrive. -/
theorem owned_inPlanningOrder_eq (h : seen.Perm others) :
    (inPlanningOrder seen).filter ctx.owns = (inPlanningOrder others).filter ctx.owns := by
  refine List.Perm.eq_of_pairwise (fun a b ha hb hab hba => ?_) ((pairwise_inPlanningOrder _).filter _)
    ((pairwise_inPlanningOrder _).filter _) ((inPlanningOrder_perm h).filter _)
  refine eq_of_observationSortOrder (mem_filter.mp ha).2 (mem_filter.mp hb).2 ?_
  rw [observationSortOrder_swap a b] at hba
  cases hc : observationSortOrder a b <;> simp [hc] at hab hba ⊢

/-! ## Observations of other roots -/

/-- Some more observations of other roots. -/
def PlanState.skip (n : Nat) (st : PlanState) : PlanState :=
  { st with supersededObservationCount := st.supersededObservationCount + n }

/-- Whatever an observation adds, it adds beside the observations of other roots. -/
theorem planObservation_skip (n : Nat) (st : PlanState) (obs : LibraryChangeObservation) :
    planObservation ctx (st.skip n) obs = (planObservation ctx st obs).skip n := by
  unfold planObservation
  split
  · simp only [PlanState.skip, Nat.add_right_comm]
  · cases hp : observedPaths obs with
    | error issue => rfl
    | ok paths => rfl

/-- The loop plans the observations of the root, and counts the others. -/
theorem foldl_planObservation (observations : List LibraryChangeObservation) (st : PlanState) :
    observations.foldl (planObservation context) st =
      ((observations.filter context.owns).foldl (planObservation context) st).skip
        (observations.countP fun observation => !context.owns observation) := by
  induction observations generalizing st with
  | nil => rfl
  | cons observation rest ih =>
    rw [foldl_cons, ih]
    cases ho : context.owns observation with
    | true => simp [ho]
    | false =>
      have hs : planObservation context st observation = st.skip 1 := by simp [planObservation, ho, PlanState.skip]
      rw [hs, foldl_hom (PlanState.skip 1) fun st observation => planObservation_skip 1 st observation]
      simp [PlanState.skip, ho, Nat.add_assoc, Nat.add_comm 1]

/-- Planning the same observations in another order of arrival gives the same result. -/
theorem plan_arrival_order (context : LibraryChangePlanningContext) (limits : LibraryChangePlanningLimits)
    (observations others : List LibraryChangeObservation) (h : observations.Perm others) :
    planLibraryChanges context observations limits = planLibraryChanges context others limits := by
  have hl (st : PlanState) : (inPlanningOrder observations).foldl (planObservation context) st =
      (inPlanningOrder others).foldl (planObservation context) st := by
    rw [foldl_planObservation, foldl_planObservation (inPlanningOrder others), owned_inPlanningOrder_eq h,
      (inPlanningOrder_perm h).countP_eq]
  simp only [inPlanningOrder] at hl
  simp only [planLibraryChanges, h.length_eq]
  split
  · rfl
  · rw [hl]

/-- An observation of another root that compares equal to one of the root. -/
theorem plan_arrival_order_foreign : planLibraryChanges ⟨"r", ⟨1, by decide⟩, .available, .healthy⟩
        (renamedBelow ++ renamedBelow.map fun observation => { observation with rootId := "other" }) ⟨16, 4⟩ =
      planLibraryChanges ⟨"r", ⟨1, by decide⟩, .available, .healthy⟩
        ((renamedBelow.map fun observation => { observation with rootId := "other" }) ++ renamedBelow) ⟨16, 4⟩ :=
  plan_arrival_order _ _ _ _ perm_append_comm

end Ame
