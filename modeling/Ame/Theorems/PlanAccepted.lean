import Ame.Lib.Separated
import Ame.Theorems.Planning

/-!
# The queue accepts every plan

The planner and the queue each have their own notion of a normal path and of the shape of an intent. What the planner makes
passes the checks of the queue as one batch, whether the plan is exact or one intent over the root.
-/

namespace Ame

open List Result Separated

variable {ctx : LibraryChangePlanningContext} {observation obs : LibraryChangeObservation} {path p : String}
  {intents : List AccumulatedIntent} {accumulated acc : AccumulatedIntent} {n : Nat} {st : PlanState}

/-! ## Paths -/

/-- The segments of a normalized path are some of those of the path with its separators replaced. -/
theorem normalizeRelativePath_segments (h : normalizeRelativePath path = some p) :
    '\x00' ∉ path.toList ∧ ':' ∉ path.toList ∧ ∃ segments : List (List Char),
      segments.Sublist ((path.toList.map fun c => if c = '\\' then '/' else c).splitOn '/') ∧
      p = String.ofList (['/'].intercalate segments) ∧ ∀ segment ∈ segments, String.ofList segment ∉ ["", ".", ".."] := by
  unfold normalizeRelativePath at h
  split at h
  · cases h
  next hn =>
  simp only at h
  split at h
  · cases h
  next hc =>
  split at h
  · cases h
  next hd =>
  simp only [contains, String.toList_ofList, Bool.or_eq_true, not_or, contains_iff_mem, mem_map, not_exists, not_and] at hn hc
  refine ⟨hn, fun hm => hc.2 ':' hm (by decide), _, ?_, (Option.some.inj h).symm, fun segment hm => ?_⟩
  · have hs := (filter_sublist (p := fun segment => segment != "" && segment != ".")
      (l := split '/' (String.ofList (path.toList.map fun c => if c = '\\' then '/' else c)))).map String.toList
    simpa [split, Function.comp_def] using hs
  · obtain ⟨text, ht, rfl⟩ := mem_map.mp hm
    have hk := (mem_filter.mp ht).2
    simp only [Bool.and_eq_true, bne_iff_ne] at hk
    simp only [String.ofList_toList, mem_cons, not_mem_nil, or_false, not_or]
    exact ⟨hk.1, hk.2, fun heq => hd (contains_iff_mem.mpr (heq ▸ ht))⟩

/-- A path that is normalized by the planner is one that the queue takes. -/
theorem validNormalizedPath_of_normalize (h : normalizeRelativePath path = some p) (hne : p ≠ "")
    (hsi : path.utf8ByteSize ≤ maxRelativePathBytes) : validNormalizedPath p = true := by
  obtain ⟨hnu, hco, segments, hsu, rfl, hs⟩ := normalizeRelativePath_segments h
  have hn : segments ≠ [] := by
    rintro rfl
    exact hne rfl
  have hsp : (['/'].intercalate segments).splitOn '/' = segments :=
    splitOn_intercalate '/' (fun l hl => not_mem_of_mem_splitOn (hsu.subset hl)) hn
  have hch {c : Char} (hc : c ∈ ['/'].intercalate segments) : c = '/' ∨ c ∈ path.toList ∧ c ≠ '\\' := by
    rcases mem_intercalate hc with rfl | ⟨l, hl, hc⟩
    · exact .inl rfl
    · obtain ⟨d, hd, rfl⟩ := mem_map.mp (mem_of_mem_splitOn (hsu.subset hl) hc)
      split
      · exact .inl rfl
      · next hd' => exact .inr ⟨hd, hd'⟩
  have hb : (String.ofList (['/'].intercalate segments)).utf8ByteSize ≤ path.utf8ByteSize := by
    have hma (l : List Char) : String.utf8Len (l.map fun c => if c = '\\' then '/' else c) = String.utf8Len l := by
      induction l with
      | nil => rfl
      | cons c l ih =>
        rw [map_cons, String.utf8Len_cons, ih]
        split
        · next hc => rw [hc]; rfl
        · rfl
    have hle : String.utf8Len (['/'].intercalate segments) ≤ _ := String.utf8Len_le_of_sublist (intercalate_sublist hsu)
    rw [intercalate_splitOn, hma] at hle
    rw [String.utf8ByteSize_ofList]
    refine hle.trans (le_of_eq ?_)
    rw [← String.utf8ByteSize_ofList, String.ofList_toList]
  have hno {c : Char} (hsl : c ≠ '/') (hc : c ∈ path.toList → c = '\\') : (['/'].intercalate segments).contains c = false := by
    rw [contains_eq_mem, decide_eq_false_iff_not]
    intro hm
    obtain ⟨hin, hba⟩ := (hch hm).resolve_left hsl
    exact hba (hc hin)
  simp only [validNormalizedPath, contains, startsWith, split, String.toList_ofList, hsp, Bool.and_eq_true,
    Bool.not_eq_true', Bool.or_eq_false_iff, decide_eq_true_eq, all_eq_true, mem_map, forall_exists_index, and_imp,
    forall_apply_eq_imp_iff₂, beq_eq_false_iff_ne]
  refine ⟨⟨⟨⟨by simpa using hne, hb.trans hsi⟩, ⟨hno (by decide) fun h => absurd h hnu, hno (by decide) fun _ => rfl⟩,
    hno (by decide) fun h => absurd h hco⟩, fun hh => ?_⟩, fun segment hm => ?_⟩
  · have hni := nil_mem_splitOn_of_head hh
    rw [hsp] at hni
    exact hs [] hni (by decide)
  · have := hs segment hm
    simp only [mem_cons, not_mem_nil, or_false, not_or] at this
    exact ⟨⟨this.1, this.2.1⟩, this.2.2⟩

/-- The paths of the observation are short enough for the queue. -/
def LibraryChangeObservation.Fits (observation : LibraryChangeObservation) : Prop :=
  observation.relativePath.utf8ByteSize ≤ maxRelativePathBytes ∧
    ∀ previous ∈ observation.previousRelativePath, previous.utf8ByteSize ≤ maxRelativePathBytes

theorem LibraryChangeObservation.Names.valid (h : obs.Names path) (hf : obs.Fits) : validNormalizedPath path = true := by
  obtain ⟨raw, rfl | hr, hn, hne⟩ := h
  · exact validNormalizedPath_of_normalize hn hne hf.1
  · exact validNormalizedPath_of_normalize hn hne (hf.2 raw hr)

/-! ## Gathering -/

/-- What a gathered intent needs to be accepted: the root of the plan, a valid shape, and evidence. -/
structure Acceptable (context : LibraryChangePlanningContext) (n : Nat) (accumulated : AccumulatedIntent) : Prop where
  root : accumulated.intent.rootId = context.rootId ∧ accumulated.intent.rootGeneration = context.rootGeneration
  shape : shapeIsValid accumulated.intent = true
  evidence : ∃ evidenceId ∈ accumulated.evidenceIds, evidenceId < n

/-- The intents of an observation are acceptable. -/
theorem normalizedIntents_acceptable {rel : String} {prevRel : Option String} (hf : obs.Fits)
    (h : observedPaths obs = .ok (rel, prevRel)) :
    ∀ intent ∈ normalizedIntents ctx obs rel prevRel, Acceptable ctx (n + 1) ⟨intent, [n]⟩ := by
  intro intent hm
  refine ⟨?_, ?_, n, mem_singleton_self n, Nat.lt_succ_self n⟩ <;>
    rcases mem_normalizedIntents h hm with rfl | ⟨scope, path, hs, hpa, rfl | ⟨prev, hp, hne, rfl⟩⟩
  · exact ⟨rfl, rfl⟩
  · exact ⟨rfl, rfl⟩
  · exact ⟨rfl, rfl⟩
  · rfl
  · cases scope <;> simp_all [shapeIsValid, newIntent, hpa.valid hf]
  · simp [shapeIsValid, newIntent, hpa.valid hf, hp.valid hf, hs, hne]

theorem mem_insertEvidenceId {evidenceIds : List Nat} {a b : Nat} :
    a ∈ insertEvidenceId evidenceIds b ↔ a = b ∨ a ∈ evidenceIds := by
  unfold insertEvidenceId
  split
  · next h => exact ⟨.inr, fun ha => ha.elim (fun hab => hab ▸ contains_iff_mem.mp h) id⟩
  · exact mem_orderedInsert _

theorem Acceptable.mono {m : Nat} (h : Acceptable ctx n acc) (hle : n ≤ m) : Acceptable ctx m acc :=
  ⟨h.root, h.shape, h.evidence.imp fun _ hid => ⟨hid.1, hid.2.trans_le hle⟩⟩

/-- Merging keeps the gathered intents acceptable. -/
theorem mergeIntent_acceptable {intent : LibraryChangeIntent} {eid : Nat} (h : ∀ a ∈ intents, Acceptable ctx n a)
    (hi : Acceptable ctx n ⟨intent, [eid]⟩) : ∀ a ∈ mergeIntent intents intent eid, Acceptable ctx n a := by
  unfold mergeIntent
  intro a hm
  split at hm
  · obtain ⟨old, hold, rfl⟩ := mem_map.mp hm
    have hk := h old hold
    split
    · exact ⟨hk.root, hk.shape, hk.evidence.imp fun _ hid => ⟨mem_insertEvidenceId.mpr (.inr hid.1), hid.2⟩⟩
    · exact hk
  · rcases (mem_orderedInsert _).mp hm with rfl | hm
    · exact hi
    · exact h a hm

/-- What the loop keeps: acceptable intents, and a range of observations in order. -/
structure AcceptableSoFar (context : LibraryChangePlanningContext) (st : PlanState) : Prop where
  intents : ∀ accumulated ∈ st.intents, Acceptable context st.observationEvidence.length accumulated
  range : ∀ range ∈ st.observationRange, range.firstObservedUnixMs ≤ range.mostRecentObservedUnixMs ∧
    range.firstSequence ≤ range.mostRecentSequence ∧ 0 < range.observationCount

/-- One more observation. -/
theorem AcceptableSoFar.planObservation (h : AcceptableSoFar ctx st) (hf : obs.Fits) :
    AcceptableSoFar ctx (planObservation ctx st obs) := by
  have hr : ∀ range ∈ some (updateObservationRange st.observationRange obs),
      range.firstObservedUnixMs ≤ range.mostRecentObservedUnixMs ∧ range.firstSequence ≤ range.mostRecentSequence ∧
        0 < range.observationCount := by
    intro range hm
    cases hm
    exact ⟨(min_le_right _ _).trans (le_max_right _ _), (min_le_right _ _).trans (le_max_right _ _), Nat.succ_pos _⟩
  unfold Ame.planObservation
  split
  · exact ⟨h.intents, h.range⟩
  split
  · exact ⟨h.intents, hr⟩
  · next rel prevRel hp =>
    refine ⟨?_, hr⟩
    simp only [length_append, length_singleton]
    have hac := @normalizedIntents_acceptable ctx obs st.observationEvidence.length _ _ hf hp
    exact List.foldlRecOn (motive := fun intents => ∀ a ∈ intents, Acceptable ctx _ a) _ _
      (fun a ha => (h.intents a ha).mono (Nat.le_succ _))
      fun intents hi intent hm => mergeIntent_acceptable hi (hac intent hm)

/-! ## Compaction and summary -/

theorem subset_extendEvidenceIds (evidenceIds more : List Nat) : evidenceIds ⊆ extendEvidenceIds evidenceIds more :=
  List.foldlRecOn more insertEvidenceId (fun _ h => h) fun _ hi _ _ _ hm => mem_insertEvidenceId.mpr (.inr (hi hm))

/-- A compacted intent is a gathered one, with more evidence. -/
theorem mem_compactIntents (h : acc ∈ compactIntents intents) :
    ∃ gathered ∈ intents, acc.intent = gathered.intent ∧ gathered.evidenceIds ⊆ acc.evidenceIds := by
  unfold compactIntents at h
  split at h
  · next rootIndex hr =>
    obtain ⟨hlt, -, -⟩ := findIdx?_eq_some_iff_getElem.mp hr
    rw [getElem?_eq_getElem hlt] at h
    simp only [compactToRoot, mem_append, mem_singleton] at h
    have hs := (Iter.perm_cons_swapRemove hlt).subset
    rcases h with h | rfl
    · exact ⟨acc, hs (mem_cons_of_mem _ (mem_filter.mp h).1), rfl, fun _ hid => hid⟩
    · exact ⟨_, getElem_mem hlt, rfl, List.foldlRecOn _ _ (fun _ hid => hid) fun _ hi _ _ _ hid =>
        subset_extendEvidenceIds _ _ (hi hid)⟩
  · obtain ⟨⟨gathered, i⟩, hm, rfl⟩ := mem_map.mp h
    exact ⟨gathered, fst_mem_of_mem_zipIdx (mem_filter.mp hm).1, rfl, List.foldlRecOn _ _ (fun _ hid => hid)
      fun _ hi _ _ _ hid => subset_extendEvidenceIds _ _ (hi hid)⟩

/-- What one intent of a batch needs, with the root of the plan as the root of the batch. -/
structure PassesAlone (context : LibraryChangePlanningContext) (intent : LibraryChangeIntent) : Prop where
  root : intent.rootId = context.rootId ∧ intent.rootGeneration = context.rootGeneration
  count : 0 < intent.coalescedObservationCount
  observed : intent.firstObservedUnixMs ≤ intent.mostRecentObservedUnixMs
  sequence : intent.firstSequence ≤ intent.mostRecentSequence
  shape : shapeIsValid intent = true

/-- The summary of its evidence makes a gathered intent pass. -/
theorem Acceptable.passesAlone {evid : List ObservationEvidence} (h : Acceptable ctx evid.length acc) :
    PassesAlone ctx (applyEvidenceSummary acc.intent acc.evidenceIds evid) := by
  obtain ⟨eid, hme, hlt⟩ := h.evidence
  unfold applyEvidenceSummary
  split
  · next hn =>
    have := filterMap_eq_nil_iff.mp hn eid hme
    simp [getElem?_eq_getElem hlt] at this
  · next first rest _ =>
    have hc : 0 < min acc.evidenceIds.length u32Max :=
      lt_min (length_pos_of_mem hme) (by decide)
    have hmi {α : Type} [LinearOrder α] (f : ObservationEvidence → α) :
        rest.foldl (fun value item => min value (f item)) (f first) ≤ f first :=
      List.foldlRecOn (motive := (· ≤ f first)) rest _ (le_refl _) fun _ hle _ _ => (min_le_left _ _).trans hle
    have hm {α : Type} [LinearOrder α] (f : ObservationEvidence → α) :
        f first ≤ rest.foldl (fun value item => max value (f item)) (f first) :=
      List.foldlRecOn (motive := (f first ≤ ·)) rest _ (le_refl _) fun _ hle _ _ => hle.trans (le_max_left _ _)
    exact ⟨h.root, hc, (hmi _).trans (hm _), (hmi _).trans (hm _), h.shape⟩

/-! ## The batch -/

theorem batchValid_of_passesAlone {batch : List LibraryChangeIntent} (hr : validateRootId ctx.rootId = .ok ())
    (hl : batch.length ≤ maxUnresolvedChanges) (ha : ∀ intent ∈ batch, PassesAlone ctx intent) : BatchValid batch := by
  cases batch with
  | nil => trivial
  | cons first rest =>
    have hf := ha first mem_cons_self
    show validateIntentBatch (first :: rest) first = .ok ()
    unfold validateIntentBatch
    rw [hf.root.1, hr]
    refine ite_throw_bind_ok.mpr ⟨by omega, forM_ok_iff.mpr fun intent hm => ?_⟩
    have hp := ha intent hm
    unfold validateBatchMember
    have hc := hp.count
    rw [if_neg (by simp [hp.root, hf.root]), if_neg (by simp [hp.observed, hp.sequence]; omega),
      validateIntentShape, if_pos hp.shape]

/-- Every plan for a root whose name the queue can store, from paths that it can store, is a batch that the queue accepts. -/
theorem plan_accepted (context : LibraryChangePlanningContext) (limits : LibraryChangePlanningLimits)
    (observations : List LibraryChangeObservation) (hroot : context.rootId.utf8ByteSize ≤ maxRootIdBytes)
    (hfits : ∀ observation ∈ observations, observation.Fits) :
    (∀ result, planLibraryChanges context observations limits = .ok result → BatchValid result.intents) ∧
      (validatePlanningRequest context limits = .ok () →
        ∃ result, planLibraryChanges context observations limits = .ok result) := by
  refine ⟨fun result h => ?_, fun hv => ⟨_, by rw [planLibraryChanges, hv]; rfl⟩⟩
  obtain ⟨hv, h⟩ := bind_unit_ok.mp h
  obtain rfl := Except.ok.inj h
  unfold validatePlanningRequest at hv
  split at hv
  · cases hv
  next hn =>
  split at hv
  · cases hv
  split at hv
  · cases hv
  next hli =>
  generalize he : decide (limits.maxObservations < observations.length) = exceeded
  generalize hb : (if exceeded = true then [] else
    observations.insertionSort fun a b => observationSortOrder a b ≠ .gt) = bounded
  have hg : AcceptableSoFar context (bounded.foldl (planObservation context) (PlanState.initial context exceeded)) := by
    refine List.foldlRecOn _ _ ⟨by simp [PlanState.initial], by simp [PlanState.initial]⟩ fun st h observation hme =>
      h.planObservation (hfits observation ?_)
    rw [← hb] at hme
    split at hme
    · cases hme
    · exact (perm_insertionSort _ _).mem_iff.mp hme
  generalize bounded.foldl (planObservation context) (PlanState.initial context exceeded) = st at hg ⊢
  have hs : validateRootId context.rootId = .ok () := by
    simp only [Bool.or_eq_true, not_or] at hn
    rw [validateRootId, if_neg (by simp [hn, hroot])]
  rcases finishPlan_intents context limits observations.length exceeded st with ⟨origin, hon⟩ | ⟨-, hl, hp⟩
  · rw [hon]
    refine batchValid_of_passesAlone hs (show 1 ≤ maxUnresolvedChanges by decide) fun intent hme => ?_
    rw [mem_singleton.mp hme]
    cases exceeded with
    | true =>
      have : 0 < observations.length := by
        have := of_decide_eq_true he
        omega
      exact ⟨⟨rfl, rfl⟩, lt_min this (by decide), le_refl _, le_refl _, rfl⟩
    | false =>
      cases hr : st.observationRange with
      | none => exact ⟨⟨rfl, rfl⟩, show 0 < min 1 u32Max by decide, le_refl _, le_refl _, rfl⟩
      | some range =>
        obtain ⟨ho, hse, hco⟩ := hg.range range hr
        exact ⟨⟨rfl, rfl⟩, lt_min hco (by decide), ho, hse, rfl⟩
  · refine batchValid_of_passesAlone hs ?_ fun intent hme => ?_
    · have hm : maxPlannedIntents ≤ maxUnresolvedChanges := by decide
      rw [hp.length_eq]
      omega
    · obtain ⟨accumulated, hc, rfl⟩ := mem_map.mp (hp.mem_iff.mp hme)
      obtain ⟨gathered, hin, hsa, hsu⟩ := mem_compactIntents hc
      have hgo := hg.intents gathered hin
      exact Acceptable.passesAlone ⟨hsa ▸ hgo.root, hsa ▸ hgo.shape, hgo.evidence.imp fun _ hid => ⟨hsu hid.1, hid.2⟩⟩

/-- A rename that its directory absorbs. -/
theorem plan_accepted_absorbed :
    ∃ result, planLibraryChanges ⟨"r", ⟨1, by decide⟩, .available, .healthy⟩ renamedBelow ⟨16, 4⟩ = .ok result ∧
      BatchValid result.intents := by
  have hf : ∀ observation ∈ renamedBelow, observation.Fits := by
    intro observation hm
    simp only [renamedBelow, mem_cons, not_mem_nil, or_false] at hm
    rcases hm with rfl | rfl
    · exact ⟨by decide, fun previous hm => by cases hm; decide⟩
    · exact ⟨by decide, fun previous hm => by cases hm⟩
  obtain ⟨ha, hp⟩ := plan_accepted ⟨"r", ⟨1, by decide⟩, .available, .healthy⟩ ⟨16, 4⟩ renamedBelow (by decide) hf
  exact (hp (by decide)).imp fun result h => ⟨h, ha result h⟩

end Ame
