import Ame.Domain.Catalog

/-!
# What a path change means (`application/directory_synchronization.rs`, `incremental_library_changes/evidence_policy.rs`)

The file that is found at a path is compared with the location the catalog had before: the outcome says what became of it, the
disposition what may be kept of the evidence that was derived from it. The policy then makes a dirty path a modified one where
the comparison alone is not trusted.
-/

namespace Ame

/-- `normalize_relative_path` -/
def normalizeRelativePath (path : String) : Option String :=
  if contains path '\x00' then none
  else
    let path := String.ofList (path.toList.map fun c => if c = '\\' then '/' else c)
    if startsWith path '/' || contains path ':' then none
    else
      let segments := (split '/' path).filter fun segment => segment != "" && segment != "."
      if segments.contains ".." then none
      else some (String.ofList (['/'].intercalate (segments.map String.toList)))

/-- `normalize_nonempty_relative_path` -/
def normalizeNonemptyRelativePath (path : String) : Option String :=
  (normalizeRelativePath path).filter fun path => !path.isEmpty

/-- `invalid_file_identity` -/
def invalidFileIdentity (identity : FileIdentityEvidence) : Bool :=
  trimIsEmpty identity.scheme || trimIsEmpty identity.value || contains identity.scheme '\x00' || contains identity.value '\x00'

/-- `ReconciliationFileEvidence` -/
structure ReconciliationFileEvidence where
  relativePath : String
  fileSize : Nat
  modifiedUnixMs : Int
  fileIdentity : Option FileIdentityEvidence
  sourceRevision : Option SourceRevisionEvidence
  sourceGeneration : Nat
  deriving DecidableEq, Repr

/-- `location_evidence` -/
def locationEvidence (location : AssetLocationView) : ReconciliationFileEvidence :=
  ⟨location.relativePath, location.fileSize, location.modifiedUnixMs, location.fileIdentity, location.sourceRevision,
    location.sourceGeneration⟩

/-- `file_evidence` -/
def fileEvidence (file : DiscoveredFile) : ReconciliationFileEvidence :=
  ⟨file.relativePath, file.fileSize, file.modifiedUnixMs, file.fileIdentity, file.sourceRevision, 0⟩

/-- `IncrementalReconciliationDecision` -/
structure IncrementalReconciliationDecision where
  outcome : IncrementalReconciliationOutcome
  evidenceDisposition : DerivedEvidenceDisposition
  current : Option ReconciliationFileEvidence
  issueCode : Option String
  deriving DecidableEq, Repr

/-- `preserved_decision` -/
def preservedDecision (outcome : IncrementalReconciliationOutcome) (issueCode : String) :
    IncrementalReconciliationDecision :=
  ⟨outcome, .preserveLastTrustworthy, none, some issueCode⟩

section

variable (prior current : ReconciliationFileEvidence)

/-- Size, modification time and a known revision agree. -/
def isSameState : Bool :=
  prior.fileSize == current.fileSize && prior.modifiedUnixMs == current.modifiedUnixMs &&
    (prior.sourceRevision.isSome && prior.sourceRevision == current.sourceRevision)

/-- Both have the same known identity. -/
def hasMatchingIdentity : Bool :=
  prior.fileIdentity.isSome && prior.fileIdentity == current.fileIdentity

/-- The last part of `reconcile_present_path`: a file and the location it is compared with, both valid. -/
def compareEvidence (isSamePath : Bool) : IncrementalReconciliationOutcome × DerivedEvidenceDisposition :=
  let hasConflictingIdentity :=
    prior.fileIdentity.isSome && current.fileIdentity.isSome && prior.fileIdentity != current.fileIdentity
  if hasMatchingIdentity prior current && !isSamePath then
    (.renamedOrMoved, if isSameState prior current then .retainCompatible else .invalidateDerived)
  else if hasMatchingIdentity prior current && isSameState prior current then (.unchanged, .retainCompatible)
  else if hasMatchingIdentity prior current then (.modified, .invalidateDerived)
  else if isSamePath && hasConflictingIdentity then (.replaced, .noReusableEvidence)
  else if isSamePath && isSameState prior current then (.unchanged, .retainCompatible)
  else if isSamePath then (.replaced, .noReusableEvidence)
  else (.added, .noReusableEvidence)

end

/-- `reconcile_present_path` -/
def reconcilePresentPath (prior : Option ReconciliationFileEvidence) (current : ReconciliationFileEvidence) :
    IncrementalReconciliationDecision :=
  match normalizeNonemptyRelativePath current.relativePath with
  | none => preservedDecision .terminalIssue "current_relative_path_invalid"
  | some currentRelativePath =>
    let current := { current with relativePath := currentRelativePath }
    if current.fileIdentity.any invalidFileIdentity then
      preservedDecision .terminalIssue "current_file_identity_invalid"
    else
      match prior with
      | none => ⟨.added, .noReusableEvidence, some current, none⟩
      | some prior =>
        match normalizeNonemptyRelativePath prior.relativePath with
        | none => preservedDecision .terminalIssue "prior_relative_path_invalid"
        | some priorRelativePath =>
          if prior.fileIdentity.any invalidFileIdentity then
            preservedDecision .terminalIssue "prior_file_identity_invalid"
          else
            let isSamePath := priorRelativePath == current.relativePath
            if isSamePath && prior.fileIdentity.isSome && current.fileIdentity.isNone then
              preservedDecision .retryableFailure "current_file_identity_unavailable"
            else
              let (outcome, evidenceDisposition) := compareEvidence prior current isSamePath
              let sourceGeneration := if evidenceDisposition = .retainCompatible then prior.sourceGeneration else 0
              ⟨outcome, evidenceDisposition, some { current with sourceGeneration := sourceGeneration }, none⟩

/-- `reconcile_missing_path`; the callers here always know that the path is missing. -/
def reconcileMissingPath (prior : Option ReconciliationFileEvidence) (relativePath : String) :
    IncrementalReconciliationDecision :=
  match normalizeNonemptyRelativePath relativePath with
  | none => preservedDecision .terminalIssue "missing_relative_path_invalid"
  | some relativePath =>
    match prior with
    | none => ⟨.unchanged, .noReusableEvidence, none, none⟩
    | some prior =>
      match normalizeNonemptyRelativePath prior.relativePath with
      | none => preservedDecision .terminalIssue "prior_relative_path_invalid"
      | some priorRelativePath =>
        if priorRelativePath ≠ relativePath then preservedDecision .terminalIssue "missing_relative_path_mismatch"
        else ⟨.removed, .removeFromCurrentProjection, none, none⟩

/-! ## The evidence policy -/

/-- `INVALIDATED_MEDIA_METADATA_ENGINE_ID` -/
def invalidatedMediaMetadataEngineId : String := "ame-invalidated-media-metadata"

/-- `INVALIDATED_MEDIA_METADATA_ENGINE_VERSION` -/
def invalidatedMediaMetadataEngineVersion : String := "0"

/-- `media_metadata_is_invalidated` -/
def mediaMetadataIsInvalidated (location : AssetLocationView) : Bool :=
  location.metadataEngineId == invalidatedMediaMetadataEngineId &&
    location.metadataEngineVersion == invalidatedMediaMetadataEngineVersion

/-- `requires_metadata_recheck` -/
def requiresMetadataRecheck (prior : AssetLocationView) (intent : LibraryChangeIntent) : Bool :=
  mediaMetadataIsInvalidated prior && intent.origin == .consistencyAudit && intent.kind == .reconcile &&
    intent.scope == .path && intent.previousRelativePath.isNone

/-- `invalidate_generation` -/
def invalidateGeneration (decision : IncrementalReconciliationDecision) : IncrementalReconciliationDecision :=
  { decision with
    evidenceDisposition := .invalidateDerived
    current := decision.current.map fun current => { current with sourceGeneration := 0 } }

/-- The first part of `apply_evidence_policy`: a precise dirty path with a prior location is modified. -/
def distrustDirtyPath (prior : Option AssetLocationView) (intent : LibraryChangeIntent)
    (decision : IncrementalReconciliationDecision) : IncrementalReconciliationDecision :=
  let dirtyReconcile := decision.outcome == .unchanged ||
    intent.previousRelativePath.isSome && decision.outcome == .renamedOrMoved
  let isPrecise := intent.origin == .liveNotification || intent.origin == .startupCatchUp || intent.origin == .metadataInventory
  if prior.isSome && isPrecise && intent.kind == .reconcile && intent.scope == .path && dirtyReconcile then
    invalidateGeneration { decision with outcome := .modified }
  else decision

/-- The second part: a rename that the metadata inventory guessed keeps nothing. -/
def distrustInventoryRename (intent : LibraryChangeIntent) (decision : IncrementalReconciliationDecision) :
    IncrementalReconciliationDecision :=
  if intent.origin = .metadataInventory ∧ intent.kind = .renameCandidate ∧ decision.outcome = .renamedOrMoved then
    invalidateGeneration decision
  else decision

/-- `apply_evidence_policy` -/
def applyEvidencePolicy (decision : IncrementalReconciliationDecision) (prior : Option AssetLocationView)
    (intent : LibraryChangeIntent) (metadataCompatible : Bool) : IncrementalReconciliationDecision :=
  let decision := distrustInventoryRename intent (distrustDirtyPath prior intent decision)
  match prior with
  | none => decision
  | some prior =>
    if metadataCompatible then decision
    else
      match decision.outcome with
      | .unchanged =>
        if requiresMetadataRecheck prior intent then decision
        else { decision with outcome := .modified, evidenceDisposition := .invalidateDerived }
      | .renamedOrMoved => { decision with evidenceDisposition := .invalidateDerived }
      | _ => decision

end Ame
