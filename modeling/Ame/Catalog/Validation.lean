import Ame.Domain.Catalog
import Ame.Incremental.Reconcile
import Ame.Lib.Result

/-!
# Validating a delta (`sqlite_catalog/catalog_delta.rs`, `validate_delta_batch`)

Before anything is written, a delta is checked as a whole: it completes a bounded number of distinct leases, each mutation and
each terminal media evidence belongs to one of them, and no two pieces of evidence are about the same path.
-/

namespace Ame

open Result

/-- `MAX_DELTA_MUTATIONS` -/
def maxDeltaMutations : Nat := 256

/-- `MAX_REMOVALS_PER_MUTATION` -/
def maxRemovalsPerMutation : Nat := 4

/-- `MAX_DELTA_COMPLETIONS` -/
def maxDeltaCompletions : Nat := 128

/-- `validate_root_id` of the catalog. -/
def validateCatalogRootId (rootId : String) : Except ScanError Unit :=
  if trimIsEmpty rootId || contains rootId '\x00' then
    .error ⟨"catalog_root_id_invalid", "The incremental catalog root ID must be non-empty and contain no NUL bytes"⟩
  else .ok ()

/-- A text that is blank or contains NUL. -/
def blankOrNul (text : String) : Bool := trimIsEmpty text || contains text '\x00'

/-- A text that is blank, too long or contains NUL. -/
def blankOrLong (text : String) (maxBytes : Nat) : Bool :=
  trimIsEmpty text || decide (maxBytes < text.utf8ByteSize) || contains text '\x00'

/-- The check of one completion. -/
def validateCompletion (isRepeated : Bool) (completion : LibraryChangeCompletion) : Except ScanError Unit :=
  if completion.leaseGeneration == 0 || isRepeated then
    .error ⟨"catalog_delta_completion_invalid", "Catalog delta completions require unique nonzero leases"⟩
  else if completion.issue.any fun issue => blankOrNul issue.code || blankOrNul issue.message then
    .error ⟨"catalog_delta_issue_invalid", "A completed catalog issue must be non-empty and contain no NUL bytes"⟩
  else .ok ()

section

variable (mutation : CatalogDeltaMutation)

/-- `valid_evidence_contract`: what a mutation of an outcome says of the evidence and of the locations. -/
def validEvidenceContract : Bool :=
  match mutation.outcome with
  | .added | .replaced => mutation.evidenceDisposition == .noReusableEvidence && mutation.upsertLocation.isSome
  | .modified | .terminalIssue => mutation.evidenceDisposition == .invalidateDerived && mutation.upsertLocation.isSome
  | .renamedOrMoved =>
    (mutation.evidenceDisposition == .retainCompatible || mutation.evidenceDisposition == .invalidateDerived) &&
      mutation.upsertLocation.isSome
  | .unchanged => mutation.evidenceDisposition == .retainCompatible && mutation.upsertLocation.isSome
  | .removed =>
    mutation.evidenceDisposition == .removeFromCurrentProjection && mutation.upsertLocation.isNone &&
      !mutation.removeLocationIds.isEmpty
  | .skipped | .retryableFailure => false

/-- The check of the retained preview. -/
def invalidPreviewExpectation : Bool :=
  (mutation.evidenceDisposition == .retainCompatible) != mutation.retainedPreviewExpectation.isSome ||
    mutation.retainedPreviewExpectation.any (trimIsEmpty ·.locationId)

/-- The check of the locations that are removed. -/
def invalidRemovals : Bool :=
  decide (maxRemovalsPerMutation < mutation.removeLocationIds.length) || mutation.removeLocationIds.any blankOrNul

end

/-- The check of the location that is written. -/
def invalidLocation (rootId : String) (location : AssetLocationView) : Bool :=
  location.rootId != rootId || trimIsEmpty location.locationId || trimIsEmpty location.relativePath

/-- The check of one mutation. -/
def validateMutation (batch : CatalogDeltaBatch) (mutation : CatalogDeltaMutation) : Except ScanError Unit :=
  if !(batch.completions.map (·.changeId)).contains mutation.changeId then
    .error ⟨"catalog_delta_mutation_change_invalid",
      "Every catalog mutation must belong to a completed lease in the same batch"⟩
  else if !validEvidenceContract mutation then
    .error ⟨"catalog_delta_evidence_contract_invalid", "A catalog delta mutation has inconsistent reconciliation evidence"⟩
  else if invalidPreviewExpectation mutation then
    .error ⟨"catalog_delta_preview_expectation_invalid",
      "Retained preview evidence requires one non-empty prior-state expectation"⟩
  else if invalidRemovals mutation then
    .error ⟨"catalog_delta_removal_invalid", "A catalog delta mutation contains an invalid or unbounded removal set"⟩
  else if mutation.upsertLocation.any (invalidLocation batch.rootId) then
    .error ⟨"catalog_delta_location_invalid", "A catalog delta upsert must belong to the batch root and contain stable paths"⟩
  else if mutation.removeLocationIds.isEmpty && mutation.upsertLocation.isNone then
    .error ⟨"catalog_delta_mutation_empty", "A catalog delta mutation must remove or upsert at least one location"⟩
  else .ok ()

/-- What makes terminal media evidence invalid, apart from its change and from other evidence. -/
def invalidTerminalMediaEvidence (evidence : TerminalMediaEvidence) : Bool :=
  trimIsEmpty evidence.relativePath || contains evidence.relativePath '\x00' || contains evidence.relativePath '\\' ||
    blankOrLong evidence.inspectionEngineId 128 || evidence.inspectionEngineVersion == 0 ||
    blankOrLong evidence.issue.code 128 || blankOrLong evidence.issue.message 4096 ||
    evidence.fileIdentity.any invalidFileIdentity

/-- The check of one piece of terminal media evidence. -/
def validateTerminalMediaEvidence (batch : CatalogDeltaBatch) (isRepeated : Bool) (update : TerminalMediaEvidenceUpdate) :
    Except ScanError Unit :=
  if !(batch.completions.map (·.changeId)).contains update.changeId || isRepeated ||
      invalidTerminalMediaEvidence update.evidence then
    .error ⟨"catalog_terminal_media_evidence_invalid",
      "Terminal media evidence must be bounded and belong to one completed lease"⟩
  else .ok ()

/-- `validate_delta_batch` -/
def validateDeltaBatch (batch : CatalogDeltaBatch) : Except ScanError Unit := do
  validateCatalogRootId batch.rootId
  if batch.completions.isEmpty || decide (maxDeltaCompletions < batch.completions.length) then
    throw ⟨"catalog_delta_completion_count_invalid", "A catalog delta must complete one bounded lease batch"⟩
  if maxDeltaMutations < batch.mutations.length then
    throw ⟨"catalog_delta_mutation_count_invalid", "A catalog delta exceeded the bounded mutation count"⟩
  if maxDeltaMutations < batch.terminalMediaEvidence.length then
    throw ⟨"catalog_terminal_media_evidence_count_invalid",
      "Terminal media evidence must remain within the bounded delta path limit"⟩
  visitDistinct (·.changeId) validateCompletion [] batch.completions
  batch.mutations.forM (validateMutation batch)
  visitDistinct (·.evidence.relativePath) (validateTerminalMediaEvidence batch) [] batch.terminalMediaEvidence

end Ame
