import Ame.Domain.Evidence
import Ame.Domain.Intent

/-!
# The persistent journal's contract (`domain/persistent_journal.rs`)

Checkpoints, source ranges and the batches that are enrolled with them, and the checks each of them passes before it is stored.
The identifiers of batches and carries are digests of their canonical text; the digest functions are parameters
(`JournalDigests`), since nothing but the form of a digest is ever checked.
-/

namespace Ame

/-- `PERSISTENT_JOURNAL_CONTRACT_VERSION` -/
def persistentJournalContractVersion : Nat := 1

/-- `MAX_PERSISTENT_JOURNAL_BATCH_INTENTS` -/
def maxPersistentJournalBatchIntents : Nat := 1024

/-- `MAX_PERSISTENT_JOURNAL_HANDOFFS` -/
def maxPersistentJournalHandoffs : Nat := 1024

/-- `MAX_PERSISTENT_JOURNAL_PENDING_RENAMES` -/
def maxPersistentJournalPendingRenames : Nat := 1024

/-- `invalid_value` -/
def invalidValue (name : String) : ScanError :=
  ⟨"persistent_journal_contract_invalid", "The " ++ name ++ " is outside the lossless persistent journal contract"⟩

/-- `validate_identifier` -/
def validateIdentifier (value : String) (maxLen : Nat) (name : String) : Except ScanError Unit :=
  if trimIsEmpty value || decide (maxLen < value.utf8ByteSize) || contains value '\x00' then .error (invalidValue name)
  else .ok ()

/-- `validate_canonical_digest`: 64 hexadecimal digits in lower case. -/
def validateCanonicalDigest (value name : String) : Except ScanError Unit :=
  if value.utf8ByteSize ≠ 64 || value.toList.any (fun c => !c.isDigit && !decide ('a' ≤ c ∧ c ≤ 'f')) then
    .error (invalidValue name)
  else .ok ()

/-- `validate_relative_path` of the journal's contract. -/
def validateJournalRelativePath (value : String) : Except ScanError Unit :=
  if value.isEmpty || decide (32767 < value.utf8ByteSize) || contains value '\x00' || contains value '\\' ||
      startsWith value '/' || (split '/' value).any (fun component => component == "" || component == "." || component == "..")
  then .error (invalidValue "journal relative path")
  else .ok ()

/-! ## Coordinates -/

/-- `JournalIdentifier` -/
structure JournalIdentifier where
  value : Nat
  nonzero : value ≠ 0
  deriving Repr

instance : DecidableEq JournalIdentifier := fun first second =>
  decidable_of_iff (first.value = second.value) ⟨by cases first; cases second; rintro ⟨⟩; rfl, by rintro rfl; rfl⟩

/-- `JournalIdentifier::new` -/
def JournalIdentifier.new (value : Nat) : Except ScanError JournalIdentifier :=
  if h : value = 0 then .error (invalidValue "journal identifier") else .ok ⟨value, h⟩

/-- `JournalUsn` -/
structure JournalUsn where
  value : Int
  nonneg : 0 ≤ value
  deriving DecidableEq, Repr

/-- `JournalUsn::new` -/
def JournalUsn.new (value : Int) : Except ScanError JournalUsn :=
  if h : 0 ≤ value then .ok ⟨value, h⟩ else .error (invalidValue "journal USN")

/-- `JournalFileReference` -/
inductive JournalFileReference where
  | v2 (bytes : Vector UInt8 8)
  | v3 (bytes : Vector UInt8 16)
  deriving DecidableEq, Repr

/-- `PersistentJournalVolumeIdentity` -/
structure PersistentJournalVolumeIdentity where
  volumeGuid : String
  volumeSerial : Nat
  deriving DecidableEq, Repr

/-- `PersistentJournalVolumeIdentity::validate` -/
def PersistentJournalVolumeIdentity.validate (volume : PersistentJournalVolumeIdentity) : Except ScanError Unit :=
  validateIdentifier volume.volumeGuid 512 "volume GUID"

/-! ## Checkpoints and ranges -/

/-- `PersistentJournalContinuityState` -/
inductive PersistentJournalContinuityState where
  | baselineRequired
  | catchingUp
  | current
  | recoveryRequired
  | liveOnly
  | unavailable
  deriving DecidableEq, Repr

/-- `PersistentJournalFailure` -/
structure PersistentJournalFailure where
  code : String
  message : String
  deriving DecidableEq, Repr

/-- `PersistentJournalFailure::validate` -/
def PersistentJournalFailure.validate (failure : PersistentJournalFailure) : Except ScanError Unit := do
  validateIdentifier failure.code 128 "journal failure code"
  validateIdentifier failure.message 4096 "journal failure message"

/-- `PersistentJournalCheckpoint` -/
structure PersistentJournalCheckpoint where
  rootId : String
  rootGeneration : LibraryRootGeneration
  volume : PersistentJournalVolumeIdentity
  rootFileReference : JournalFileReference
  journalId : JournalIdentifier
  nextUnreadUsn : JournalUsn
  capturedExclusiveEnd : JournalUsn
  coveredCatalogRevision : Nat
  protocolVersion : Nat
  contractVersion : Nat
  continuity : PersistentJournalContinuityState
  failure : Option PersistentJournalFailure
  updatedUnixMs : Int
  deriving DecidableEq, Repr

/-- `PersistentJournalCheckpoint::validate` -/
def PersistentJournalCheckpoint.validate (c : PersistentJournalCheckpoint) : Except ScanError Unit := do
  validateIdentifier c.rootId 256 "root ID"
  c.volume.validate
  if c.capturedExclusiveEnd.value < c.nextUnreadUsn.value ∨ c.protocolVersion = 0 ∨
      c.contractVersion ≠ persistentJournalContractVersion ∨ c.updatedUnixMs < 0 ∨
      c.continuity = .current ∧ (c.nextUnreadUsn ≠ c.capturedExclusiveEnd ∨ c.failure.isSome) then
    throw (invalidValue "persistent journal checkpoint")
  match c.failure with
  | none => return ()
  | some failure => failure.validate

/-- `PersistentJournalRangeState` -/
inductive PersistentJournalRangeState where
  | enrolled
  | checkpointed
  | superseded
  deriving DecidableEq, Repr

/-- `PersistentJournalSourceRange` -/
structure PersistentJournalSourceRange where
  batchId : String
  rootId : String
  rootGeneration : LibraryRootGeneration
  volume : PersistentJournalVolumeIdentity
  journalId : JournalIdentifier
  requestedStartUsn : JournalUsn
  requestedEndUsn : JournalUsn
  coveredUntilUsn : JournalUsn
  isComplete : Bool
  protocolVersion : Nat
  contractVersion : Nat
  state : PersistentJournalRangeState
  enrolledUnixMs : Int
  checkpointedUnixMs : Option Int
  deriving DecidableEq, Repr

/-- `PersistentJournalSourceRange::validate` -/
def PersistentJournalSourceRange.validate (r : PersistentJournalSourceRange) : Except ScanError Unit := do
  validateCanonicalDigest r.batchId "journal batch ID"
  validateIdentifier r.rootId 256 "root ID"
  r.volume.validate
  if r.requestedEndUsn.value ≤ r.requestedStartUsn.value ∨ r.coveredUntilUsn.value ≤ r.requestedStartUsn.value ∨
      r.requestedEndUsn.value < r.coveredUntilUsn.value ∨ r.isComplete ≠ (r.coveredUntilUsn == r.requestedEndUsn) ∨
      r.protocolVersion = 0 ∨ r.contractVersion ≠ persistentJournalContractVersion ∨ r.enrolledUnixMs < 0 ∨
      r.checkpointedUnixMs.any (· < 0) ∨ (r.state == .checkpointed) ≠ r.checkpointedUnixMs.isSome then
    throw (invalidValue "persistent journal source range")

/-! ## Renames across pages and roots -/

/-- `PersistentJournalPendingRename` -/
structure PersistentJournalPendingRename where
  carryId : String
  sourceRangeId : String
  volume : PersistentJournalVolumeIdentity
  journalId : JournalIdentifier
  fileReference : JournalFileReference
  oldUsn : JournalUsn
  previousRootId : String
  previousRootGeneration : LibraryRootGeneration
  previousRelativePath : String
  isDirectory : Bool
  enrolledUnixMs : Int
  deriving DecidableEq, Repr

/-- `PersistentJournalLineageState` -/
inductive PersistentJournalLineageState where
  | pending
  | completed
  | superseded
  deriving DecidableEq, Repr

/-- `PersistentJournalCrossRootLineage` -/
structure PersistentJournalCrossRootLineage where
  lineageId : String
  ownerSourceRangeId : String
  volume : PersistentJournalVolumeIdentity
  journalId : JournalIdentifier
  fileReference : JournalFileReference
  oldUsn : Option JournalUsn
  newUsn : Option JournalUsn
  previousCarryId : Option String
  previousRootId : String
  previousRootGeneration : LibraryRootGeneration
  previousRelativePath : String
  currentRootId : String
  currentRootGeneration : LibraryRootGeneration
  currentRelativePath : String
  state : PersistentJournalLineageState
  deriving DecidableEq, Repr

/-- A carried lineage has both coordinates, in order; any other has none. -/
def carriedCoordinatesAreValid (lineage : PersistentJournalCrossRootLineage) : Bool :=
  match lineage.previousCarryId, lineage.oldUsn, lineage.newUsn with
  | none, none, none => true
  | some _, some oldUsn, some newUsn => decide (oldUsn.value < newUsn.value)
  | _, _, _ => false

/-- `PersistentJournalCrossRootLineage::validate` -/
def PersistentJournalCrossRootLineage.validate (l : PersistentJournalCrossRootLineage) : Except ScanError Unit := do
  validateIdentifier l.lineageId 512 "journal lineage ID"
  validateIdentifier l.ownerSourceRangeId 512 "journal lineage source range ID"
  l.volume.validate
  l.previousCarryId.forM fun carryId => validateCanonicalDigest carryId "previous pending rename carry ID"
  validateIdentifier l.previousRootId 256 "previous root ID"
  validateIdentifier l.currentRootId 256 "current root ID"
  validateJournalRelativePath l.previousRelativePath
  validateJournalRelativePath l.currentRelativePath
  if l.previousRootId = l.currentRootId ∨ carriedCoordinatesAreValid l = false then
    throw (invalidValue "cross-root journal lineage")

/-- `PersistentJournalDirectoryChange` -/
structure PersistentJournalDirectoryChange where
  identity : FileIdentityEvidence
  previousRelativePaths : List String
  currentRelativePath : Option String
  deriving DecidableEq, Repr

/-- The paths a directory had and has. -/
def PersistentJournalDirectoryChange.paths (change : PersistentJournalDirectoryChange) : List String :=
  change.previousRelativePaths ++ change.currentRelativePath.toList

/-- `format!("{:016x}:", serial)` -/
def serialHexPrefix (serial : Nat) : List Char :=
  let digits := Nat.toDigits 16 serial
  List.replicate (16 - digits.length) '0' ++ digits ++ [':']

/-- `PersistentJournalDirectoryChange::validate` -/
def PersistentJournalDirectoryChange.validate (change : PersistentJournalDirectoryChange)
    (volume : PersistentJournalVolumeIdentity) : Except ScanError Unit := do
  if change.identity.scheme ≠ "windows-file-id-128-v1" ∨ change.identity.value.utf8ByteSize ≠ 49 ∨
      ¬serialHexPrefix volume.volumeSerial <+: change.identity.value.toList ∨
      (change.identity.value.toList.drop 17).all (fun c => c.isDigit || decide ('a' ≤ c ∧ c ≤ 'f')) = false ∨
      64 < change.previousRelativePaths.length then
    throw (invalidValue "persistent journal directory identity")
  change.paths.forM fun path => do
    validateJournalRelativePath path
    if path.isEmpty then throw (invalidValue "persistent journal root directory mutation")

/-! ## Enrollment -/

/-- `PersistentJournalEnrollmentBatch` -/
structure PersistentJournalEnrollmentBatch where
  range : PersistentJournalSourceRange
  intents : List LibraryChangeIntent
  crossRootLineage : List PersistentJournalCrossRootLineage
  carriedCrossRootLineage : List PersistentJournalCrossRootLineage
  pendingRenames : List PersistentJournalPendingRename
  consumedPendingRenameIds : List String
  directoryChanges : List PersistentJournalDirectoryChange
  deriving DecidableEq, Repr

/-- The digests that name batches and carries: `persistent_journal_batch_id` and `persistent_journal_pending_rename_id`. -/
structure JournalDigests where
  batchId : PersistentJournalEnrollmentBatch → String
  pendingRenameId : PersistentJournalPendingRename → String

section

variable (digests : JournalDigests)

/-- `PersistentJournalPendingRename::validate` -/
def PersistentJournalPendingRename.validate (pending : PersistentJournalPendingRename) : Except ScanError Unit := do
  validateIdentifier pending.carryId 512 "pending rename carry ID"
  validateIdentifier pending.sourceRangeId 512 "pending rename source range ID"
  pending.volume.validate
  validateIdentifier pending.previousRootId 256 "pending rename root ID"
  validateJournalRelativePath pending.previousRelativePath
  if pending.enrolledUnixMs < 0 ∨ pending.carryId ≠ digests.pendingRenameId pending then
    throw (invalidValue "persistent journal pending rename")

/-- Whether an intent of the batch owns a directory's path. -/
def ownsDirectoryPath (path : String) (intent : LibraryChangeIntent) : Bool :=
  intent.scope == .subtree &&
    (intent.relativePath == path || intent.kind == .renameCandidate && intent.previousRelativePath == some path)

/-- Whether a lineage belongs to the range's volume, journal and root. -/
def lineageFitsRange (range : PersistentJournalSourceRange) (lineage : PersistentJournalCrossRootLineage) : Bool :=
  lineage.volume == range.volume && lineage.journalId == range.journalId &&
    (lineage.previousRootId == range.rootId && lineage.previousRootGeneration == range.rootGeneration ||
      lineage.currentRootId == range.rootId && lineage.currentRootGeneration == range.rootGeneration)

/-- The loop over the pending renames; `seen` are the carries so far. -/
def validatePendingRenames (range : PersistentJournalSourceRange) :
    List String → List PersistentJournalPendingRename → Except ScanError Unit
  | _, [] => .ok ()
  | seen, pending :: rest => do
    pending.validate digests
    if pending.sourceRangeId ≠ range.batchId ∨ pending.volume ≠ range.volume ∨ pending.journalId ≠ range.journalId ∨
        pending.previousRootId ≠ range.rootId ∨ pending.previousRootGeneration ≠ range.rootGeneration ∨
        pending.oldUsn.value < range.requestedStartUsn.value ∨ range.coveredUntilUsn.value ≤ pending.oldUsn.value ∨
        pending.carryId ∈ seen then
      throw (invalidValue "persistent journal pending rename owner")
    validatePendingRenames range (pending.carryId :: seen) rest

/-- The loop over the consumed carries. -/
def validateConsumed (pendingIds : List String) : List String → List String → Except ScanError Unit
  | _, [] => .ok ()
  | seen, carryId :: rest => do
    validateIdentifier carryId 512 "consumed pending rename carry ID"
    if carryId ∈ pendingIds ∨ carryId ∈ seen then throw (invalidValue "consumed persistent journal pending rename")
    validateConsumed pendingIds (carryId :: seen) rest

/-- `PersistentJournalEnrollmentBatch::validate` -/
def PersistentJournalEnrollmentBatch.validate (batch : PersistentJournalEnrollmentBatch) : Except ScanError Unit := do
  batch.range.validate
  if 256 < batch.directoryChanges.length then throw (invalidValue "persistent journal directory window")
  batch.directoryChanges.forM fun change => do
    change.validate batch.range.volume
    change.paths.forM fun path => do
      if batch.intents.any (ownsDirectoryPath path) = false then
        throw (invalidValue "persistent journal directory queue ownership")
  if maxPersistentJournalBatchIntents < batch.intents.length ∨
      maxPersistentJournalHandoffs < batch.crossRootLineage.length + batch.carriedCrossRootLineage.length ∨
      maxPersistentJournalPendingRenames < batch.pendingRenames.length ∨
      maxPersistentJournalPendingRenames < batch.consumedPendingRenameIds.length ∨
      batch.intents.any (fun intent =>
        intent.rootId != batch.range.rootId || intent.rootGeneration != batch.range.rootGeneration) then
    throw (invalidValue "persistent journal enrollment batch")
  batch.crossRootLineage.forM fun lineage => do
    lineage.validate
    if lineageFitsRange batch.range lineage = false ∨ lineage.ownerSourceRangeId ≠ batch.range.batchId then
      throw (invalidValue "persistent journal enrollment lineage")
  batch.carriedCrossRootLineage.forM fun lineage => do
    lineage.validate
    if lineageFitsRange batch.range lineage = false ∨ lineage.ownerSourceRangeId = batch.range.batchId ∨
        lineage.previousCarryId = none then
      throw (invalidValue "persistent journal carried lineage")
  validatePendingRenames digests batch.range [] batch.pendingRenames
  validateConsumed (batch.pendingRenames.map (·.carryId)) [] batch.consumedPendingRenameIds

end

/-- `PersistentJournalReadPage` -/
inductive PersistentJournalReadPage where
  | enrolled (batch : PersistentJournalEnrollmentBatch) (checkpoint : PersistentJournalCheckpoint)
  | emptyReplay (checkpoint : PersistentJournalCheckpoint)
  deriving DecidableEq, Repr

/-! ## Failures of a read -/

/-- `LibraryRecoveryOpeningBoundary` -/
structure LibraryRecoveryOpeningBoundary where
  volume : PersistentJournalVolumeIdentity
  rootFileReference : JournalFileReference
  journalId : JournalIdentifier
  nextUsn : JournalUsn
  protocolVersion : Nat
  contractVersion : Nat
  deriving DecidableEq, Repr

/-- `LibraryRecoveryOpeningBoundary::validate` -/
def LibraryRecoveryOpeningBoundary.validate (boundary : LibraryRecoveryOpeningBoundary) : Except ScanError Unit := do
  boundary.volume.validate
  if boundary.protocolVersion = 0 ∨ boundary.contractVersion ≠ persistentJournalContractVersion then
    throw ⟨"metadata_inventory_recovery_opening_boundary_invalid", "The recovery opening boundary identity is invalid"⟩

/-- `PersistentJournalRootFailureKind`, of which the readers below produce these. -/
inductive PersistentJournalRootFailureKind where
  | journalReconstructionFailure
  | containmentFailure
  | brokerAfterCurrentFailure
  | transient
  | nonRecoverable
  | cancelled
  deriving DecidableEq, Repr

/-- `PersistentJournalReadFailure` -/
structure PersistentJournalReadFailure where
  kind : PersistentJournalRootFailureKind
  failure : PersistentJournalFailure
  openingBoundary : Option LibraryRecoveryOpeningBoundary
  deriving DecidableEq, Repr

end Ame
