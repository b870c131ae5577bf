import Ame.Incremental.Prepare
import Ame.Lib.Result

/-!
# What a preparation yields

The decision for a file that is there, and the mutations that each branch of `prepare_path_change` builds from it when it
succeeds and reports no issue.
-/

namespace Ame

open Result Option

variable {env : PreparationEnv} {lc : LeasedLibraryChange} {file : DiscoveredFile}
  {prior sel pathPrior identityPrior cand : Option AssetLocationView} {prep : PreparedChange}
  {dec : IncrementalReconciliationDecision} {ctx : PathChangeContext} {lineage : List LibraryChangeCatchUpEvidence}

/-! ## Decisions -/

/-- A comparison never removes nor skips. -/
theorem compareEvidence_outcome (prior cur : ReconciliationFileEvidence) (isSamePath : Bool) :
    (compareEvidence prior cur isSamePath).1 ≠ .removed ∧ (compareEvidence prior cur isSamePath).1 ≠ .skipped := by
  unfold compareEvidence
  dsimp only
  repeat' split
  all_goals simp

/-- The evidence is unusable, or the file is new, or it is compared with the prior evidence. -/
theorem reconcilePresentPath_cases (prior : Option ReconciliationFileEvidence) (cur : ReconciliationFileEvidence) :
    (reconcilePresentPath prior cur).outcome ∈ [IncrementalReconciliationOutcome.terminalIssue, .retryableFailure, .added] ∨
      ∃ p isSamePath, prior = some p ∧ ¬(isSamePath && p.fileIdentity.isSome && cur.fileIdentity.isNone) = true ∧
        (reconcilePresentPath prior cur).outcome = (compareEvidence p cur isSamePath).1 := by
  unfold reconcilePresentPath preservedDecision
  split
  · simp
  · dsimp only
    split
    · simp
    · cases prior with
      | none => simp
      | some p =>
        dsimp only
        split
        · simp
        · split
          · simp
          · split
            · simp
            · exact .inr ⟨p, _, rfl, ‹_›, rfl⟩

/-- The policy keeps an outcome, or calls the file modified. -/
theorem applyEvidencePolicy_outcome (dec : IncrementalReconciliationDecision) (prior : Option AssetLocationView)
    (intent : LibraryChangeIntent) (compatible : Bool) :
    (applyEvidencePolicy dec prior intent compatible).outcome = dec.outcome ∨
      (applyEvidencePolicy dec prior intent compatible).outcome = .modified := by
  have hd : (distrustDirtyPath prior intent dec).outcome = dec.outcome ∨
      (distrustDirtyPath prior intent dec).outcome = .modified := by
    unfold distrustDirtyPath invalidateGeneration
    dsimp only
    split <;> simp
  have hr : (distrustInventoryRename intent (distrustDirtyPath prior intent dec)).outcome =
      (distrustDirtyPath prior intent dec).outcome := by
    unfold distrustInventoryRename invalidateGeneration
    split <;> rfl
  rw [← hr] at hd
  unfold applyEvidencePolicy
  dsimp only
  repeat' split
  all_goals first | exact hd | exact .inr rfl

/-- A file that is there is never removed nor skipped. -/
theorem presentDecision_outcome (env : PreparationEnv) (intent : LibraryChangeIntent) (file : DiscoveredFile)
    (sel : Option AssetLocationView) :
    (presentDecision env intent file sel).outcome ≠ .removed ∧ (presentDecision env intent file sel).outcome ≠ .skipped := by
  rcases applyEvidencePolicy_outcome (reconcilePresentPath (sel.map locationEvidence) (fileEvidence file)) sel intent
    (sel.all (inspectionMetadataIsCompatible · env.source)) with h | h
  · rw [presentDecision, h]
    rcases reconcilePresentPath_cases (sel.map locationEvidence) (fileEvidence file) with h | ⟨p, same, -, -, h⟩
    · simp only [List.mem_cons, List.not_mem_nil, or_false] at h
      rcases h with h | h | h <;> simp [h]
    · rw [h]
      exact compareEvidence_outcome _ _ _
  · rw [presentDecision, h]
    simp

/-- Unchanged evidence agrees in size, time and revision, and in the identity unless the prior evidence has none. -/
theorem compareEvidence_unchanged {prior cur : ReconciliationFileEvidence} {isSamePath : Bool}
    (h : (compareEvidence prior cur isSamePath).1 = .unchanged)
    (hk : ¬(isSamePath && prior.fileIdentity.isSome && cur.fileIdentity.isNone)) :
    isSameState prior cur = true ∧ (prior.fileIdentity = cur.fileIdentity ∨ prior.fileIdentity = none) := by
  unfold compareEvidence at h
  dsimp only at h
  split_ifs at h with h1 h2 h3 h4 h5
  · simp only [hasMatchingIdentity, Bool.and_eq_true, beq_iff_eq] at h2
    exact ⟨h2.2, .inl h2.1.2⟩
  · rw [Bool.and_eq_true] at h5
    refine ⟨h5.2, ?_⟩
    cases hp : prior.fileIdentity with
    | none => exact .inr rfl
    | some i =>
      cases hc : cur.fileIdentity with
      | none => simp [h5.1, hp, hc] at hk
      | some j => simp_all [hasMatchingIdentity]

/-- A file is unchanged only against a location that records its state, or its state without an identity. -/
theorem presentDecision_unchanged (h : (presentDecision env lc.intent file sel).outcome = .unchanged) :
    ∃ prior, sel = some prior ∧ (prior.state = file.state ∨ prior.fileIdentity = none ∧ file.fileIdentity.isSome ∧
        (prior.fileSize, prior.modifiedUnixMs, prior.sourceRevision) =
          (file.fileSize, file.modifiedUnixMs, file.sourceRevision)) := by
  rcases applyEvidencePolicy_outcome (reconcilePresentPath (sel.map locationEvidence) (fileEvidence file)) sel
    lc.intent (sel.all (inspectionMetadataIsCompatible · env.source)) with hp | hp
  · rw [presentDecision, hp] at h
    rcases reconcilePresentPath_cases (sel.map locationEvidence) (fileEvidence file) with hc | ⟨p, same, hs, hk, hc⟩
    · simp [h] at hc
    · obtain ⟨prior, hpr, rfl⟩ := map_eq_some_iff.mp hs
      obtain ⟨hst, hid⟩ := compareEvidence_unchanged (hc ▸ h) hk
      simp only [isSameState, locationEvidence, fileEvidence, Bool.and_eq_true, beq_iff_eq] at hst hid
      obtain ⟨⟨hsi, ht⟩, -, hr⟩ := hst
      refine ⟨prior, hpr, ?_⟩
      simp only [AssetLocationView.state, DiscoveredFile.state, FileState.mk.injEq, hsi, ht, hr]
      cases hf : file.fileIdentity with
      | none => simp_all
      | some i => rcases hid with hid | hid <;> simp [hid, hf]
  · rw [presentDecision, hp] at h
    cases h

/-- The disposition of a decision is the one its outcome asks for, and evidence is retained only from a prior location. -/
def FittingDisposition (hasPrior : Bool) (outcome : IncrementalReconciliationOutcome)
    (disposition : DerivedEvidenceDisposition) : Prop :=
  match outcome with
  | .added | .replaced => disposition = .noReusableEvidence
  | .modified => disposition = .invalidateDerived
  | .renamedOrMoved => disposition = .invalidateDerived ∨ disposition = .retainCompatible ∧ hasPrior = true
  | .unchanged => disposition = .retainCompatible ∧ hasPrior = true
  | _ => True

theorem compareEvidence_fits (prior cur : ReconciliationFileEvidence) (isSamePath : Bool) :
    FittingDisposition true (compareEvidence prior cur isSamePath).1 (compareEvidence prior cur isSamePath).2 := by
  unfold compareEvidence
  dsimp only
  split
  · by_cases hs : isSameState prior cur = true
    · simp [FittingDisposition, hs]
    · simp [FittingDisposition, hs]
  · repeat' split
    all_goals simp [FittingDisposition]

theorem reconcilePresentPath_fits (prior : Option ReconciliationFileEvidence) (cur : ReconciliationFileEvidence) :
    FittingDisposition prior.isSome (reconcilePresentPath prior cur).outcome
      (reconcilePresentPath prior cur).evidenceDisposition := by
  unfold reconcilePresentPath preservedDecision
  split
  · trivial
  · dsimp only
    split
    · trivial
    · cases prior with
      | none => rfl
      | some prior =>
        dsimp only
        split
        · trivial
        · split
          · trivial
          · split
            · trivial
            · exact compareEvidence_fits _ _ _

/-- The policy keeps a decision fitting. -/
theorem applyEvidencePolicy_fits (intent : LibraryChangeIntent)
    (compatible : Bool) (h : FittingDisposition prior.isSome dec.outcome dec.evidenceDisposition) :
    FittingDisposition prior.isSome (applyEvidencePolicy dec prior intent compatible).outcome
      (applyEvidencePolicy dec prior intent compatible).evidenceDisposition := by
  have hd : FittingDisposition prior.isSome (distrustDirtyPath prior intent dec).outcome
      (distrustDirtyPath prior intent dec).evidenceDisposition := by
    unfold distrustDirtyPath invalidateGeneration
    dsimp only
    split
    · rfl
    · exact h
  have hr : FittingDisposition prior.isSome (distrustInventoryRename intent (distrustDirtyPath prior intent dec)).outcome
      (distrustInventoryRename intent (distrustDirtyPath prior intent dec)).evidenceDisposition := by
    unfold distrustInventoryRename invalidateGeneration
    split
    · rename_i hg
      rw [hg.2.2]
      exact Or.inl rfl
    · exact hd
  generalize hde : distrustInventoryRename intent (distrustDirtyPath prior intent dec) = decided at hr
  unfold applyEvidencePolicy
  rw [hde]
  cases prior with
  | none => exact hr
  | some prior =>
    dsimp only
    split
    · exact hr
    · split
      · split
        · exact hr
        · rfl
      · rename_i ho
        rw [ho]
        exact Or.inl rfl
      · exact hr

theorem presentDecision_fits (env : PreparationEnv) (intent : LibraryChangeIntent) (file : DiscoveredFile)
    (sel : Option AssetLocationView) :
    FittingDisposition sel.isSome (presentDecision env intent file sel).outcome
      (presentDecision env intent file sel).evidenceDisposition := by
  have h := reconcilePresentPath_fits (sel.map locationEvidence) (fileEvidence file)
  rw [Option.isSome_map] at h
  exact applyEvidencePolicy_fits intent _ h

/-! ## Mutations -/

/-- The change writes one location for the file, under this identifier, and removes these. -/
def WritesFile (prepared : PreparedChange) (file : DiscoveredFile) (locationId : String) (removals : List String) : Prop :=
  ∃ mutation w, prepared.mutations = [mutation] ∧ mutation.upsertLocation = some w ∧ w.relativePath = file.relativePath ∧
    w.state = file.state ∧ w.locationId = locationId ∧ mutation.removeLocationIds = removals

/-- A location is built for the file as it was found. -/
theorem buildLocation_spec {dec : IncrementalReconciliationDecision} {built : BuiltLocation}
    (h : buildLocation env lc file dec prior = .ok built) :
    built.location.relativePath = file.relativePath ∧ built.location.state = file.state ∧
      built.location.locationId = env.ids.stableLocationId lc.intent.rootId file.relativePath := by
  obtain ⟨facts, -, h⟩ := bind_ok h
  obtain ⟨assetId, -, h⟩ := bind_ok h
  cases h
  exact ⟨rfl, rfl, rfl⟩

/-- Failed media is written only where something is known of it. -/
theorem terminalMediaChange_spec (issue : LibraryChangeFailure) (report : Bool) (rems : List String) :
    prior = none ∧ rems = [] ∧ (terminalMediaChange env lc file prior issue report rems).mutations = [] ∨
      (prior.isSome ∨ rems ≠ []) ∧ WritesFile (terminalMediaChange env lc file prior issue report rems) file
        (env.ids.stableLocationId lc.intent.rootId file.relativePath) rems := by
  by_cases hn : (prior.isNone && rems.isEmpty) = true
  · simp only [Bool.and_eq_true, Option.isNone_iff_eq_none, List.isEmpty_iff] at hn
    exact .inl ⟨hn.1, hn.2, by simp [terminalMediaChange, hn]⟩
  · refine .inr ⟨?_, ?_⟩
    · cases prior <;> simp_all
    · refine ⟨_, _, if_neg hn, rfl, rfl, rfl, rfl, rfl⟩

/-- What the preparation of a file that is there does to the catalog. -/
inductive PresentEffect (env : PreparationEnv) (leased : LeasedLibraryChange) (removals : List String)
    (file : DiscoveredFile) (selected : Option AssetLocationView) (prepared : PreparedChange) : Prop where
  | kept (houtcome : (presentDecision env leased.intent file selected).outcome = .unchanged)
      (hbackfill : identityBackfill (some file) selected = false)
      (hrecheck : selected.any (requiresMetadataRecheck · leased.intent) = false) (hmutations : prepared.mutations = [])
  | rewritten (prior : AssetLocationView) (houtcome : (presentDecision env leased.intent file selected).outcome = .unchanged)
      (hselected : selected = some prior)
      (hwhy : identityBackfill (some file) selected = true ∨ requiresMetadataRecheck prior leased.intent = true)
      (hwrites : WritesFile prepared file prior.locationId [])
  | written (houtcome : (presentDecision env leased.intent file selected).outcome ≠ .unchanged)
      (hwrites : WritesFile prepared file (env.ids.stableLocationId leased.intent.rootId file.relativePath) removals)

/-- The inventory is asked only for a change of one path. -/
theorem inventoryShortcut_single
    (h : inventoryShortcut env lc pathPrior ctx = some prep) : lc.intent.previousRelativePath = none := by
  unfold inventoryShortcut at h
  dsimp only at h
  split at h
  · simp_all
  · cases h

/-- The lineage of a leased change is the stored one. -/
theorem leasedCatchUpLineage_eq (h : leasedCatchUpLineage lc = .ok lineage) : lineage = lc.catchUpLineage := by
  unfold leasedCatchUpLineage at h
  split at h
  · split at h
    · cases h
      rfl
    · cases h
  · split at h
    · simp_all
    · cases h
  · cases h

/-- A location that is not chosen for its identity is the path's own, or the candidate where there is none. -/
theorem selectPrior_cases {loc : AssetLocationView} (h : selectPrior pathPrior identityPrior cand file = some loc) :
    file.fileIdentity.isSome ∧ loc.fileIdentity = file.fileIdentity ∨ pathPrior = some loc ∨
      pathPrior = none ∧ cand = some loc := by
  simp only [selectPrior, orElse_eq_orElse, orElse_eq_or, or_eq_some_iff, filter_eq_some_iff, Bool.and_eq_true, beq_iff_eq] at h
  rcases h with ⟨-, h⟩ | ⟨-, ⟨-, h⟩ | ⟨-, ⟨-, h⟩ | ⟨-, h | ⟨h, h'⟩⟩⟩⟩
  · exact .inl h
  · exact .inl h
  · exact .inl h
  · exact .inr (.inl h)
  · exact .inr (.inr ⟨h, h'⟩)

/-- Where the path's own location is passed over, it is of another file. -/
theorem selectPrior_ne {own : AssetLocationView} (h : selectPrior (some own) identityPrior cand file ≠ some own) :
    own.fileIdentity ≠ file.fileIdentity := by
  intro hid
  apply h
  by_cases hs : file.fileIdentity.isSome
  · simp [selectPrior, Option.filter, hid, hs]
  · cases identityPrior <;> cases cand <;> simp [selectPrior, Option.filter, hs]

end Ame
