import Ame.Catalog.Validation
import Ame.Lemmas.Halves

/-!
# What every preparation yields

Unlike the effect on the catalog, the form of a prepared change does not depend on whether it reports an issue: it completes its
own lease, it has at most two mutations with at most four removals, at most one piece of terminal media evidence, and each of
them passes the checks of the catalog that look at it alone, except that nothing keeps a path from being blank.
-/

namespace Ame

open List Result

/-! ## What the adapters promise -/

/-- An issue that can be stored with a completion. -/
def CleanIssue (issue : LibraryChangeFailure) : Prop := blankOrNul issue.code = false ∧ blankOrNul issue.message = false

/-- An issue that can be stored as terminal media evidence. -/
def BoundedIssue (issue : LibraryChangeFailure) : Prop :=
  blankOrLong issue.code 128 = false ∧ blankOrLong issue.message 4096 = false

/-- A file whose evidence can be stored. -/
structure CleanFile (file : DiscoveredFile) : Prop where
  identity : file.fileIdentity.any invalidFileIdentity = false
  issues : ∀ issue ∈ file.issues, CleanIssue (issueFailure issue)

/-- Why the inspector cannot read the media of a file, if it never will. -/
def terminalFailure (source : PublicationSource) (file : DiscoveredFile) : Option LibraryChangeFailure :=
  match source.inspect file with
  | .error failure => if failure.kind = .terminal then some (issueFailure failure.issue) else none
  | .ok _ => none

/-- What the file system, the inspector and the handoffs promise: texts are not blank and contain no NUL. -/
structure PreparationEnv.Clean (env : PreparationEnv) : Prop where
  engineId : blankOrLong env.source.inspectionEngineId 128 = false
  engineVersion : env.source.inspectionEngineVersion ≠ 0
  found : ∀ path file, (env.source.visit path).found = some file → CleanFile file
  terminalVisit : ∀ path file issue reportIssue, env.source.visit path = .terminalMedia file issue reportIssue →
    CleanIssue (issueFailure issue)
  terminalInspection : ∀ file issue, terminalFailure env.source file = some issue → CleanIssue issue
  inspectionIssues : ∀ file inspection, env.source.inspect file = .ok inspection →
    ∀ issue ∈ inspection.issues, CleanIssue (issueFailure issue)
  handoffs : ∀ evidence identity location, env.handoff evidence identity = some location →
    blankOrNul location.locationId = false

/-- A location with an identifier that can be stored. -/
def CleanLocation (location : AssetLocationView) : Prop := blankOrNul location.locationId = false

/-- Stable identifiers are not blank. -/
theorem stableLocationId_clean (ids : StableIds) (rootId path : String) :
    blankOrNul (ids.stableLocationId rootId path) = false := by
  rw [blankOrNul, StableIds.stableLocationId, ids.notBlank, ids.noZero]
  rfl

theorem Catalog.clean {ids : StableIds} (catalog : Catalog ids) {loc : AssetLocationView}
    (h : loc ∈ catalog.locations) : CleanLocation loc := by
  obtain ⟨rootId, -, hid⟩ := catalog.stable loc h
  rw [CleanLocation, hid]
  exact stableLocationId_clean ids rootId _

/-! ## The form of a prepared change -/

section

variable (leased : LeasedLibraryChange)

/-- What one mutation of a leased change satisfies. -/
structure SoundMutation (maxRemovals : Nat) (mutation : CatalogDeltaMutation) : Prop where
  changeId : mutation.changeId = leased.id
  contract : validEvidenceContract mutation = true
  preview : invalidPreviewExpectation mutation = false
  removalCount : mutation.removeLocationIds.length ≤ maxRemovals
  removals : ∀ id ∈ mutation.removeLocationIds, blankOrNul id = false
  rootId : ∀ location, mutation.upsertLocation = some location → location.rootId = leased.intent.rootId
  locationId : ∀ location, mutation.upsertLocation = some location → CleanLocation location

/-- What terminal media evidence of a leased change satisfies. -/
structure SoundEvidence (path : String) (update : TerminalMediaEvidenceUpdate) : Prop where
  changeId : update.changeId = leased.id
  relativePath : update.evidence.relativePath = path
  engineId : blankOrLong update.evidence.inspectionEngineId 128 = false
  engineVersion : update.evidence.inspectionEngineVersion ≠ 0
  identity : update.evidence.fileIdentity.any invalidFileIdentity = false

/-- What a prepared change satisfies, for the path that its evidence is about. -/
structure SoundChange (path : String) (maxRemovals maxMutations : Nat) (prepared : PreparedChange) : Prop where
  changeId : prepared.completion.changeId = leased.id
  leaseGeneration : prepared.completion.leaseGeneration = leased.leaseGeneration
  issue : ∀ issue, prepared.completion.issue = some issue → CleanIssue issue
  mutationCount : prepared.mutations.length ≤ maxMutations
  mutations : ∀ mutation ∈ prepared.mutations, SoundMutation leased maxRemovals mutation
  evidenceCount : prepared.terminalMediaEvidence.length ≤ 1
  evidence : ∀ update ∈ prepared.terminalMediaEvidence, SoundEvidence leased path update

end

section

variable {env : PreparationEnv} {lc : LeasedLibraryChange} {file : DiscoveredFile} {path : String}
  {prior sel pathPrior identityPrior cand : Option AssetLocationView} {prep : PreparedChange}
  {rems : List String} {issue : LibraryChangeFailure}
  {id relativePath : String} {ctx : PathChangeContext} {maxRemovals : Nat}
  {dec : IncrementalReconciliationDecision} {built : BuiltLocation} {loc : AssetLocationView}
  {decided : DecidedPath} {ids : StableIds} {lineage : List LibraryChangeCatchUpEvidence} {mutation : CatalogDeltaMutation}

/-- Removals that can be stored. -/
def CleanRemovals (removals : List String) : Prop := ∀ id ∈ removals, blankOrNul id = false

/-- Removals stay distinct. -/
theorem CleanRemovals.pushUnique (h : CleanRemovals rems) (hid : blankOrNul id = false) :
    CleanRemovals (pushUnique rems id) := by
  intro o ho
  unfold Ame.pushUnique at ho
  split at ho
  · exact h o ho
  · rcases mem_append.mp ho with hm | hm
    · exact h o hm
    · rwa [mem_singleton.mp hm]

theorem cleanRemovals_single (hid : blankOrNul id = false) : CleanRemovals (pushUnique [] id) := by
  refine CleanRemovals.pushUnique ?_ hid
  intro o ho
  cases ho

theorem length_pushUnique (rems : List String) (id : String) : (pushUnique rems id).length ≤ rems.length + 1 := by
  unfold pushUnique
  split
  · exact Nat.le_succ _
  · rw [length_append, length_singleton]

theorem pushUnique_ne_nil (rems : List String) (id : String) : (pushUnique rems id).isEmpty = false := by
  unfold pushUnique
  split
  · rename_i hc
    cases rems with
    | nil => cases hc
    | cons head tail => rfl
  · simp

/-- Every location of an option can be stored. -/
def AllClean (location : Option AssetLocationView) : Prop := ∀ l, location = some l → CleanLocation l

/-- The root's own location at a path can be stored. -/
theorem ownLocation_clean (env : PreparationEnv) (lc : LeasedLibraryChange) (path : String) :
    AllClean (ownLocation env lc path) := fun _ h => env.catalog.clean (ownLocation_mem h).1

/-- So can the location that the previous path offers. -/
theorem candidateFor_clean (env : PreparationEnv) (lc : LeasedLibraryChange) (path : String) :
    AllClean (candidateFor env lc path) := by
  intro l hl
  unfold candidateFor at hl
  split at hl
  · obtain ⟨prevPath, -, ho⟩ := Option.bind_eq_some_iff.mp hl
    exact ownLocation_clean env lc prevPath l ho
  · cases hl

/-- A half removes at most two locations. -/
theorem halfRemovals_clean (mayRemove : Bool) : CleanRemovals (halfRemovals env lc path mayRemove) ∧
    (halfRemovals env lc path mayRemove).length ≤ 2 := by
  refine ⟨fun id hid => ?_, ?_⟩
  · rcases mem_halfRemovals.mp hid with ⟨own, ho, rfl⟩ | ⟨-, c, hc, rfl⟩
    · exact ownLocation_clean env lc path own ho
    · exact candidateFor_clean env lc path c hc
  · unfold halfRemovals priorRemovals
    have hl := fun rems id => length_pushUnique rems id
    cases ownLocation env lc path <;> cases candidateFor env lc path <;> cases mayRemove <;> simp
    all_goals exact (hl _ _).trans (Nat.succ_le_succ (by first | exact hl _ _ | exact Nat.zero_le _))

/-! ## The parts -/

/-- A change without mutations and evidence. -/
theorem reconciledChange_sound (mutation : Option CatalogDeltaMutation) (revalidation : List RevalidationTarget)
    {issue : Option LibraryChangeFailure} (hi : ∀ i, issue = some i → CleanIssue i)
    (hmu : ∀ m, mutation = some m → SoundMutation lc maxRemovals m) :
    SoundChange lc path maxRemovals 1 (reconciledChange lc issue mutation revalidation) := by
  refine ⟨rfl, rfl, hi, ?_, ?_, Nat.zero_le _, nofun⟩
  · cases mutation <;> simp [reconciledChange]
  · intro m hm
    exact hmu m (Option.mem_toList.mp hm)

/-- A terminal change is sound. -/
theorem terminalMediaChange_sound (he : env.Clean) (hf : CleanFile file) (hi : CleanIssue issue)
    (reportIssue : Bool) (hre : CleanRemovals rems) (hl : rems.length ≤ 2) :
    SoundChange lc file.relativePath 2 1 (terminalMediaChange env lc file prior issue reportIssue rems) := by
  refine ⟨rfl, rfl, ?_, ?_, ?_, Nat.le_refl 1, ?_⟩
  · intro reported hr
    cases reportIssue with
    | true => cases hr; exact hi
    | false => cases hr
  · unfold terminalMediaChange
    dsimp only
    split <;> simp
  · intro m hm
    unfold terminalMediaChange at hm
    dsimp only at hm
    split at hm
    · cases hm
    · rw [mem_singleton] at hm
      subst hm
      refine ⟨rfl, rfl, rfl, hl, hre, ?_, ?_⟩
      · rintro loc ⟨⟩
        rfl
      · rintro loc ⟨⟩
        exact stableLocationId_clean _ _ _
  · intro update hu
    rw [terminalMediaChange, mem_singleton] at hu
    subst hu
    exact ⟨rfl, rfl, he.engineId, he.engineVersion, hf.identity⟩

/-! ## Decisions -/

/-- The codes that a decision gives are texts of the program. -/
def CleanCode (decision : IncrementalReconciliationDecision) : Prop :=
  ∀ code, decision.issueCode = some code → blankOrNul code = false

theorem cleanCode_preservedDecision (out : IncrementalReconciliationOutcome) {code : String}
    (h : blankOrNul code = false) : CleanCode (preservedDecision out code) := by
  rintro o ⟨⟩
  exact h

/-- The code of a decision is not blank. -/
theorem reconcilePresentPath_cleanCode (prior : Option ReconciliationFileEvidence) (cur : ReconciliationFileEvidence) :
    CleanCode (reconcilePresentPath prior cur) := by
  unfold reconcilePresentPath
  split
  · exact cleanCode_preservedDecision _ (by decide)
  · dsimp only
    split
    · exact cleanCode_preservedDecision _ (by decide)
    · cases prior with
      | none =>
        intro code hc
        cases hc
      | some prior =>
        dsimp only
        split
        · exact cleanCode_preservedDecision _ (by decide)
        · split
          · exact cleanCode_preservedDecision _ (by decide)
          · split
            · exact cleanCode_preservedDecision _ (by decide)
            · intro code hc
              cases hc

theorem applyEvidencePolicy_issueCode (dec : IncrementalReconciliationDecision) (intent : LibraryChangeIntent)
    (compatible : Bool) : (applyEvidencePolicy dec prior intent compatible).issueCode = dec.issueCode := by
  have hd : (distrustDirtyPath prior intent dec).issueCode = dec.issueCode := by
    unfold distrustDirtyPath invalidateGeneration
    dsimp only
    split <;> rfl
  have hr : ∀ dirty, (distrustInventoryRename intent dirty).issueCode = dirty.issueCode := by
    intro dirty
    unfold distrustInventoryRename invalidateGeneration
    split <;> rfl
  unfold applyEvidencePolicy
  dsimp only
  repeat' split
  all_goals exact (hr _).trans hd

theorem presentDecision_cleanCode (env : PreparationEnv) (intent : LibraryChangeIntent) (file : DiscoveredFile)
    (sel : Option AssetLocationView) : CleanCode (presentDecision env intent file sel) := by
  intro code hc
  rw [presentDecision, applyEvidencePolicy_issueCode] at hc
  exact reconcilePresentPath_cleanCode _ _ code hc

theorem reconcileMissingPath_cleanCode (prior : Option ReconciliationFileEvidence) (relativePath : String) :
    CleanCode (reconcileMissingPath prior relativePath) := by
  unfold reconcileMissingPath
  split
  · exact cleanCode_preservedDecision _ (by decide)
  · cases prior with
    | none =>
      intro code hc
      cases hc
    | some prior =>
      dsimp only
      split
      · exact cleanCode_preservedDecision _ (by decide)
      · split
        · exact cleanCode_preservedDecision _ (by decide)
        · intro code hc
          cases hc

/-! ## Building a location -/

/-- A location is built for the root of its change. -/
theorem buildLocation_root
    (h : buildLocation env lc file dec prior = .ok built) : built.location.rootId = lc.intent.rootId := by
  unfold buildLocation at h
  obtain ⟨facts, -, h⟩ := bind_ok h
  obtain ⟨assetId, -, h⟩ := bind_ok h
  cases h
  rfl

/-- Issues of a built location are clean. -/
theorem buildLocation_issue (he : env.Clean) (hfil : CleanFile file)
    (h : buildLocation env lc file dec prior = .ok built) : ∀ issue, built.issue = some issue → CleanIssue issue := by
  have hh : ∀ (issues : List ScanIssue) issue, (∀ i ∈ issues, CleanIssue (issueFailure i)) →
      issues.head?.map issueFailure = some issue → CleanIssue issue := by
    intro issues issue ha hm
    obtain ⟨first, hfi, rfl⟩ := Option.map_eq_some_iff.mp hm
    exact ha first (mem_of_mem_head? hfi)
  obtain ⟨facts, hf, h⟩ := bind_ok h
  obtain ⟨assetId, -, h⟩ := bind_ok h
  cases h
  intro issue hi
  unfold mediaFacts at hf
  split at hf
  · cases hf
    exact hh _ issue hfil.issues hi
  · split at hf
    · rename_i inspection hin
      cases hf
      simp only [Option.orElse_eq_orElse, Option.orElse_eq_or, Option.or_eq_some_iff] at hi
      rcases hi with hi | ⟨-, hi⟩
      · exact hh _ issue hfil.issues hi
      · exact hh _ issue (he.inspectionIssues file inspection hin) hi
    · split at hf <;> cases hf

/-- The location whose evidence is kept, so that the file is not inspected. -/
def retainedLocation (env : PreparationEnv) (decision : IncrementalReconciliationDecision)
    (prior : Option AssetLocationView) : Option AssetLocationView :=
  prior.filter fun prior =>
    decision.evidenceDisposition == .retainCompatible && inspectionMetadataIsCompatible prior env.source

/-- The media facts of a file that cannot be read are missing, unless they are retained. -/
theorem mediaFacts_terminal {retained : Option AssetLocationView} :
    mediaFacts env.source file retained = .error (.terminal issue) ↔
      retained = none ∧ terminalFailure env.source file = some issue := by
  unfold mediaFacts terminalFailure
  cases retained with
  | some prior => simp
  | none =>
    cases hi : env.source.inspect file with
    | ok inspection => simp
    | error failure => cases hk : failure.kind <;> simp [hk]

/-- Only the inspector makes a failure terminal. -/
theorem buildLocation_terminal (h : buildLocation env lc file dec prior = .error (.terminal issue)) :
    retainedLocation env dec prior = none ∧ terminalFailure env.source file = some issue := by
  unfold buildLocation at h
  dsimp only at h
  rw [← mediaFacts_terminal]
  cases hf : mediaFacts env.source file (prior.filter fun prior =>
      dec.evidenceDisposition == .retainCompatible && inspectionMetadataIsCompatible prior env.source) with
  | error fail =>
    rw [hf] at h
    cases h
    exact hf
  | ok facts =>
    rw [hf] at h
    change (builtAssetId env lc file dec.outcome prior >>= _) = _ at h
    unfold builtAssetId at h
    repeat' split at h
    all_goals cases h

/-! ## The change of one path -/

theorem retainedPreviewExpectation_valid (h : CleanLocation loc) :
    trimIsEmpty (retainedPreviewExpectation loc).locationId = false := by
  simp only [CleanLocation, blankOrNul, Bool.or_eq_false_iff] at h
  exact h.1

/-- The outcomes of a change that writes a location. -/
def writingOutcomes : List IncrementalReconciliationOutcome := [.added, .modified, .renamedOrMoved, .replaced, .unchanged]

/-- Only a known location can be retained. -/
theorem FittingDisposition.prior_of_retain {hasPrior : Bool} {out : IncrementalReconciliationOutcome}
    (h : FittingDisposition hasPrior out .retainCompatible) (ho : out ∈ writingOutcomes) : hasPrior = true := by
  simp only [writingOutcomes, mem_cons, not_mem_nil, or_false] at ho
  rcases ho with rfl | rfl | rfl | rfl | rfl <;> simp_all [FittingDisposition]

/-- A file that is published is written. -/
theorem writingOutcome_of_publishes (h : publishesFile env lc path file = true) :
    presentOutcome env lc path file ∈ writingOutcomes := by
  unfold publishesFile at h
  split at h <;> simp_all [writingOutcomes]

/-! ## What is loaded -/

theorem loadIncrementalLocation_mem {catalog : Catalog ids} {predicate : AssetLocationView → Bool}
    (h : loadIncrementalLocation catalog predicate = some loc) : loc ∈ catalog.locations :=
  (mem_filter.mp (Iter.minByKey_mem h)).1

/-- What is found by identity is clean. -/
theorem loadIdentityPrior_clean (he : env.Clean)
    (h : loadIdentityPrior env file lineage = .ok identityPrior) : AllClean identityPrior := by
  unfold loadIdentityPrior at h
  split at h
  · cases h
    rintro _ ⟨⟩
  · unfold loadLocationByFileIdentity at h
    split at h
    · cases h
    · split at h
      · rename_i active ha
        cases h
        rintro loc ⟨⟩
        exact env.catalog.clean (loadIncrementalLocation_mem ha)
      · cases h
        intro loc hl
        obtain ⟨evid, -, hh⟩ := exists_of_findSome?_eq_some hl
        exact he.handoffs evid _ loc hh

theorem selectPrior_clean (hp : AllClean pathPrior) (hi : AllClean identityPrior) (hc : AllClean cand) :
    AllClean (selectPrior pathPrior identityPrior cand file) := by
  intro loc h
  simp only [selectPrior, Option.orElse_eq_orElse, Option.orElse_eq_or, Option.or_eq_some_iff, Option.filter_eq_some_iff] at h
  rcases h with ⟨h, -⟩ | ⟨-, ⟨h, -⟩ | ⟨-, ⟨h, -⟩ | ⟨-, h | ⟨-, h⟩⟩⟩⟩
  · exact hp loc h
  · exact hi loc h
  · exact hc loc h
  · exact hp loc h
  · exact hc loc h

/-- The location that a file is compared with can be stored. -/
theorem comparedLocation_clean (he : env.Clean) : AllClean (comparedLocation env lc path file) := by
  refine selectPrior_clean (ownLocation_clean env lc path) ?_ (candidateFor_clean env lc path)
  cases h : loadIdentityPrior env file lc.catchUpLineage with
  | error issue => rintro _ ⟨⟩
  | ok identityPrior => exact loadIdentityPrior_clean he h

/-- A mutation that writes a location passes the checks that look at it alone. -/
theorem publishedMutation_sound (he : env.Clean) (hp : publishesFile env lc path file = true) (hre : CleanRemovals rems)
    (hl : rems.length ≤ 2) (hro : loc.rootId = lc.intent.rootId) (hid : CleanLocation loc) :
    SoundMutation lc 2 (publishedMutation env lc path file rems loc) := by
  have hf : FittingDisposition (comparedLocation env lc path file).isSome (decisionAt env lc path file).outcome
      (decisionAt env lc path file).evidenceDisposition := presentDecision_fits env lc.intent file _
  have ho : (decisionAt env lc path file).outcome ∈ writingOutcomes := writingOutcome_of_publishes hp
  refine ⟨rfl, ?_, ?_, hl, hre, ?_, ?_⟩
  · unfold validEvidenceContract publishedMutation
    simp only [writingOutcomes, mem_cons, not_mem_nil, or_false] at ho
    rcases ho with h | h | h | h | h <;> simp only [FittingDisposition, h] at hf <;> simp [h]
    · exact hf
    · exact hf
    · exact hf.symm.imp_left And.left
    · exact hf
    · exact hf.1
  · unfold invalidPreviewExpectation publishedMutation
    by_cases hr : (decisionAt env lc path file).evidenceDisposition = .retainCompatible
    · rw [hr] at hf
      obtain ⟨prior, hs⟩ := Option.isSome_iff_exists.mp (hf.prior_of_retain ho)
      simp [hr, hs, retainedPreviewExpectation_valid (comparedLocation_clean he prior hs)]
    · simp [hr]
  · rintro o ⟨⟩
    exact hro
  · rintro o ⟨⟩
    exact hid

/-! ## Observations -/

/-- What an observation of a path has found is clean, and is at that path. -/
def CleanObservation (path : String) : InspectedPath → Prop
  | .file file => CleanFile file ∧ file.relativePath = path
  | .terminalMedia file issue _ => CleanFile file ∧ file.relativePath = path ∧ CleanIssue issue
  | _ => True

/-- An observation is clean. -/
theorem inspectPath_clean (he : env.Clean) (path : String) : CleanObservation path (inspectPath env.source path) := by
  unfold inspectPath
  split
  · rename_i file hv
    have hf : (env.source.visit path).found = some file := by rw [hv]; rfl
    exact ⟨he.found path file hf, env.source.found_path path file hf⟩
  · rename_i file issue reportIssue hv
    have hf : (env.source.visit path).found = some file := by rw [hv]; rfl
    exact ⟨he.found path file hf, env.source.found_path path file hf, he.terminalVisit path file issue reportIssue hv⟩
  · trivial
  · trivial
  · split
    · trivial
    · split <;> trivial
  · trivial

/-- The issue of a decision can be stored. -/
theorem decisionIssue_clean (h : CleanCode dec) : ∀ issue, some (decisionIssue dec) = some issue → CleanIssue issue := by
  rintro _ ⟨⟩
  refine ⟨?_, (by decide : blankOrNul "Incremental reconciliation preserved the last trustworthy catalog" = false)⟩
  unfold decisionIssue
  cases hc : dec.issueCode with
  | none => exact (by decide : blankOrNul "incremental_reconciliation_issue" = false)
  | some code => exact h code hc

/-- Every half is sound. -/
theorem HalfForm.sound (he : env.Clean) {mayRemove : Bool} {observed : Option InspectedPath} {half : PreparedChange}
    (h : HalfForm env lc path mayRemove observed half) (ho : ∀ o, observed = some o → CleanObservation path o) :
    SoundChange lc path 2 1 half := by
  have hrems : CleanRemovals (halfRemovals env lc path mayRemove) ∧ _ := halfRemovals_clean mayRemove
  have hnone : CleanRemovals [] ∧ ([] : List String).length ≤ 2 := ⟨fun _ hid => absurd hid (by simp), Nat.zero_le _⟩
  cases h with
  | inventory own entry hown hhalf =>
    unfold metadataInventoryDirtyPathChange at hhalf
    split at hhalf
    · cases hhalf
    · obtain ⟨fileSize, -, rfl⟩ := Option.map_eq_some_iff.mp hhalf
      have hcl := ownLocation_clean env lc path own hown
      have hro := ownLocation_root hown
      refine ⟨rfl, rfl, by rintro _ ⟨⟩, Nat.le_refl 1, fun m hm => ?_, Nat.zero_le _, by rintro _ ⟨⟩⟩
      obtain rfl := mem_singleton.mp hm
      refine ⟨rfl, rfl, rfl, (length_pushUnique [] _).trans (by decide), cleanRemovals_single hcl, ?_, ?_⟩
      · rintro _ ⟨⟩
        exact hro
      · rintro _ ⟨⟩
        exact hcl
  | absentIssue => exact reconciledChange_sound _ _ (decisionIssue_clean (reconcileMissingPath_cleanCode _ _)) (by rintro _ ⟨⟩)
  | fileIssue => exact reconciledChange_sound _ _ (decisionIssue_clean (presentDecision_cleanCode _ _ _ _)) (by rintro _ ⟨⟩)
  | absent => exact reconciledChange_sound _ _ (by rintro _ ⟨⟩) (by rintro _ ⟨⟩)
  | kept => exact reconciledChange_sound _ _ (by rintro _ ⟨⟩) (by rintro _ ⟨⟩)
  | removed own _ hown =>
    refine reconciledChange_sound _ _ (by rintro _ ⟨⟩) ?_
    rintro _ ⟨⟩
    have hcl : CleanRemovals [own.locationId] := cleanRemovals_single (ownLocation_clean env lc path own hown)
    exact ⟨rfl, rfl, rfl, Nat.le_succ 1, hcl, by rintro _ ⟨⟩, by rintro _ ⟨⟩⟩
  | unreadable file issue rems _ hb hre =>
    obtain ⟨hf, rfl⟩ := ho _ rfl
    have hr : CleanRemovals rems ∧ rems.length ≤ 2 := by rcases hre with rfl | rfl <;> assumption
    exact terminalMediaChange_sound he hf (he.terminalInspection _ _ (buildLocation_terminal hb).2) true hr.1 hr.2
  | written file built id rems _ hp hb hpl =>
    obtain ⟨hf, -⟩ := ho _ rfl
    refine reconciledChange_sound _ _ (buildLocation_issue he hf hb) ?_
    rintro _ ⟨⟩
    rcases hpl with ⟨-, rfl, prior, hs, rfl⟩ | ⟨-, rfl, rfl⟩
    · exact publishedMutation_sound he hp hnone.1 hnone.2 (buildLocation_root hb) (comparedLocation_clean he prior hs)
    · refine publishedMutation_sound he hp hrems.1 hrems.2 (buildLocation_root hb) ?_
      rw [CleanLocation, (buildLocation_spec hb).2.2]
      exact stableLocationId_clean _ _ _
  | terminal file issue report =>
    obtain ⟨hf, rfl, hi⟩ := ho _ rfl
    exact terminalMediaChange_sound he hf hi report hrems.1 hrems.2

/-! ## The whole change -/

/-- One more removal. -/
theorem SoundMutation.alsoRemoving (h : SoundMutation lc maxRemovals mutation) (hl : CleanLocation loc) :
    SoundMutation lc (maxRemovals + 1) (mutation.alsoRemoving loc) := by
  unfold CatalogDeltaMutation.alsoRemoving
  split
  · refine ⟨h.changeId, ?_, h.preview, ?_, CleanRemovals.pushUnique h.removals hl, h.rootId, h.locationId⟩
    · have hc := h.contract
      unfold validEvidenceContract at hc ⊢
      split at hc <;> simp_all
    · exact (length_pushUnique _ _).trans (Nat.succ_le_succ h.removalCount)
  · exact ⟨h.changeId, h.contract, h.preview, h.removalCount.trans (Nat.le_succ _), h.removals, h.rootId, h.locationId⟩

theorem SoundMutation.mono {m n : Nat} (h : SoundMutation lc m mutation) (hmn : m ≤ n) : SoundMutation lc n mutation :=
  ⟨h.changeId, h.contract, h.preview, h.removalCount.trans hmn, h.removals, h.rootId, h.locationId⟩

/-- A rename joins two sound halves. -/
theorem joinHalves_sound {prev cur : PreparedChange} {prevPath : String} (previousIsAbsent isAlias : Bool)
    (previousIdentity : Option FileIdentityEvidence) {previousPrior : Option AssetLocationView}
    (hpr : AllClean previousPrior) (hp : SoundChange lc prevPath 2 1 prev) (hc : SoundChange lc path 2 1 cur) :
    SoundChange lc path 3 2 (joinHalves previousIsAbsent isAlias previousIdentity previousPrior prev cur) := by
  have hi : ∀ issue, (prev.completion.issue <|> cur.completion.issue) = some issue → CleanIssue issue := by
    intro issue h
    simp only [Option.orElse_eq_orElse, Option.orElse_eq_or, Option.or_eq_some_iff] at h
    rcases h with h | ⟨-, h⟩
    · exact hp.issue issue h
    · exact hc.issue issue h
  -- the two halves of the mutations, by their definition in `joinHalves`
  obtain ⟨first, second, hmu, hf, hs, hfs, hss⟩ :
      ∃ first second, (joinHalves previousIsAbsent isAlias previousIdentity previousPrior prev cur).mutations =
          first ++ second ∧ first.length ≤ 1 ∧ second.length ≤ 1 ∧ (∀ m ∈ first, SoundMutation lc 3 m) ∧
        ∀ m ∈ second, SoundMutation lc 3 m := by
    refine ⟨_, _, rfl, ?_, ?_, ?_, ?_⟩
    · split
      · exact Nat.zero_le _
      · exact hp.mutationCount
    · split
      · cases previousPrior with
        | none => exact hc.mutationCount
        | some prior => exact (length_map _).trans_le hc.mutationCount
      · exact hc.mutationCount
    · intro m hm
      split at hm
      · cases hm
      · exact (hp.mutations m hm).mono (by decide)
    · intro m hm
      split at hm
      · cases previousPrior with
        | none => exact (hc.mutations m hm).mono (by decide)
        | some prior =>
          obtain ⟨original, ho, rfl⟩ := mem_map.mp hm
          exact (hc.mutations original ho).alsoRemoving (hpr prior rfl)
      · exact (hc.mutations m hm).mono (by decide)
  refine ⟨hp.changeId, hp.leaseGeneration, hi, ?_, ?_, hc.evidenceCount, hc.evidence⟩
  · rw [hmu, length_append]
    exact Nat.add_le_add hf hs
  · intro m hm
    rw [hmu] at hm
    rcases mem_append.mp hm with hm | hm
    · exact hfs m hm
    · exact hss m hm

/-- The preparation of the paths of a change is sound. -/
theorem preparePaths_sound (he : env.Clean) (hd : lc.intent.previousRelativePath ≠ some lc.intent.relativePath)
    (h : preparePaths env lc = .ok prep) : SoundChange lc lc.intent.relativePath 3 2 prep := by
  rcases preparePaths_form (fun _ => hd) h with ⟨-, -, hs⟩ | ⟨prevPath, gone, prev, cur, -, -, -, hpf, hcf, -, rfl⟩
  · have hp := hs.sound he fun o ho => observation_eq ho ▸ inspectPath_clean he _
    exact ⟨hp.changeId, hp.leaseGeneration, hp.issue, hp.mutationCount.trans (by decide),
      fun m hm => (hp.mutations m hm).mono (by decide), hp.evidenceCount, hp.evidence⟩
  · exact joinHalves_sound _ _ _ (ownLocation_clean env lc prevPath)
      (hpf.sound he (by rintro _ ⟨⟩; exact inspectPath_clean he _))
      (hcf.sound he (by rintro _ ⟨⟩; exact inspectPath_clean he _))

theorem recheckMutation_sound (recheck : MediaAdmissionRecheck) (evid : List TerminalMediaEvidenceUpdate)
    (h : SoundMutation lc 3 mutation) : SoundMutation lc 4 (recheckMutation recheck evid mutation).1 := by
  unfold recheckMutation
  split
  · exact h.mono (by decide)
  · rename_i loc hl
    split
    · split
      · refine ⟨h.changeId, ?_, h.preview, h.removalCount.trans (by decide), h.removals, ?_, ?_⟩
        · have hc := h.contract
          unfold validEvidenceContract at hc ⊢
          rw [hl] at hc
          exact hc
        · rintro _ ⟨⟩
          exact h.rootId loc hl
        · rintro _ ⟨⟩
          exact h.locationId loc hl
      · exact h.mono (by decide)
    · split
      · refine ⟨h.changeId, ?_, rfl, ?_, CleanRemovals.pushUnique h.removals (h.locationId loc hl),
          by rintro _ ⟨⟩, by rintro _ ⟨⟩⟩
        · simp [validEvidenceContract, pushUnique_ne_nil]
        · exact (length_pushUnique _ _).trans (Nat.succ_le_succ h.removalCount)
      · exact h.mono (by decide)

/-- Every prepared change is sound. -/
theorem prepareChange_sound (he : env.Clean) (hd : lc.intent.previousRelativePath ≠ some lc.intent.relativePath)
    (h : prepareChange env lc = .ok prep) : SoundChange lc lc.intent.relativePath 4 2 prep := by
  unfold prepareChange at h
  cases hp : preparePaths env lc with
  | error issue => rw [hp] at h; cases h
  | ok paths =>
    rw [hp] at h
    cases h
    have hs := preparePaths_sound he hd hp
    unfold applyAdmissionRecheck
    dsimp only
    split
    · exact ⟨hs.changeId, hs.leaseGeneration, hs.issue, hs.mutationCount,
        fun m hm => (hs.mutations m hm).mono (by decide), hs.evidenceCount, hs.evidence⟩
    · rename_i recheck hr
      refine ⟨hs.changeId, hs.leaseGeneration, ?_, ?_, ?_, hs.evidenceCount, hs.evidence⟩
      · intro issue hi
        split at hi
        · cases hi
        · exact hs.issue issue hi
      · rw [length_map, length_map]
        exact hs.mutationCount
      · intro m hm
        rw [map_map] at hm
        obtain ⟨original, ho, rfl⟩ := mem_map.mp hm
        exact recheckMutation_sound recheck _ (hs.mutations original ho)

end

end Ame
