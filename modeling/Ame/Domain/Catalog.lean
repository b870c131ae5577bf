import Ame.Domain.Evidence
import Ame.Queue.Store

/-!
# Locations, observations and deltas

The records that the incremental synchronization works with: what the catalog knows of a file (`AssetLocationView`), what the
file system says of it (`FileVisitOutcome`, `MetadataInventoryEntry`), what was leased from the queue, and the delta that a
publication applies to the catalog.
-/

namespace Ame

/-- `SourceRevisionEvidence` -/
structure SourceRevisionEvidence where
  scheme : String
  value : String
  deriving DecidableEq, Repr

/-- `ScanIssue` -/
structure ScanIssue where
  path : Option String
  code : String
  message : String
  deriving DecidableEq, Repr

/-- `LibraryChangeFailure` -/
structure LibraryChangeFailure where
  code : String
  message : String
  deriving DecidableEq, Repr

/-- `issue_failure` -/
def issueFailure (issue : ScanIssue) : LibraryChangeFailure := ⟨issue.code, issue.message⟩

/-- `scan_failure` -/
def scanFailure (error : ScanError) : LibraryChangeFailure := ⟨error.code, error.message⟩

/-! ## Locations -/

/-- `PreviewStatus` -/
inductive PreviewStatus where
  | pending | ready | failed
  deriving DecidableEq, Repr

/-- `CameraMetadata` -/
structure CameraMetadata where
  make : Option String := none
  model : Option String := none
  deriving DecidableEq, Repr

/-- `CaptureTimeSource` -/
inductive CaptureTimeSource where
  | original | digitized | image
  deriving DecidableEq, Repr

/-- `CaptureTimeEvidence` -/
structure CaptureTimeEvidence where
  localTime : String
  offsetMinutes : Option Int
  source : CaptureTimeSource
  rawValue : String
  deriving DecidableEq, Repr

/-- `AssetLocationView`: a file of a root as the catalog knows it. The scan is always the root's active one, and the path for
display follows from the absolute path; both are left out. -/
structure AssetLocationView where
  assetId : String
  locationId : String
  rootId : String
  absolutePath : String
  relativePath : String
  previewPath : String
  fileSize : Nat
  createdUnixMs : Option Int
  modifiedUnixMs : Int
  fileIdentity : Option FileIdentityEvidence
  sourceRevision : Option SourceRevisionEvidence
  sourceGeneration : Nat
  width : Nat
  height : Nat
  previewStatus : PreviewStatus
  previewIssueCode : Option String
  previewIssueMessage : Option String
  metadataEngineId : String
  metadataEngineVersion : String
  camera : CameraMetadata
  captureTime : Option CaptureTimeEvidence
  deriving DecidableEq, Repr

/-- `MediaAdmissionRecheck` -/
structure MediaAdmissionRecheck where
  assetId : String
  locationId : String
  fileIdentity : Option FileIdentityEvidence
  requiresInspection : Bool
  deriving DecidableEq, Repr

/-! ## Observations -/

/-- `DiscoveredFile`, without the path of the source root, which nothing here reads. -/
structure DiscoveredFile where
  absolutePath : String
  relativePath : String
  fileSize : Nat
  createdUnixMs : Option Int
  modifiedUnixMs : Int
  fileIdentity : Option FileIdentityEvidence
  sourceRevision : Option SourceRevisionEvidence
  issues : List ScanIssue
  deriving DecidableEq, Repr

/-- `FileVisitOutcome` -/
inductive FileVisitOutcome where
  | file (file : DiscoveredFile)
  | terminalMedia (file : DiscoveredFile) (issue : ScanIssue) (reportIssue : Bool)
  | retryableFile (file : DiscoveredFile) (issue : ScanIssue)
  | issue (issue : ScanIssue)
  | directory
  | ignored
  deriving DecidableEq, Repr

/-- `MetadataInventoryEntryKind` -/
inductive MetadataInventoryEntryKind where
  | file | directory | other
  deriving DecidableEq, Repr

/-- `MetadataInventoryPlaceholderState` -/
inductive MetadataInventoryPlaceholderState where
  | available | offline | recallOnOpen | recallOnDataAccess
  deriving DecidableEq, Repr

/-- `MetadataInventoryEntry` -/
structure MetadataInventoryEntry where
  relativePath : String
  kind : MetadataInventoryEntryKind
  fileSize : Option Nat
  modifiedUnixMs : Int
  fileIdentity : Option FileIdentityEvidence
  sourceRevision : Option SourceRevisionEvidence
  placeholderState : MetadataInventoryPlaceholderState
  deriving DecidableEq, Repr

/-- `ExpectedFileState` -/
structure ExpectedFileState where
  absolutePath : String
  fileSize : Nat
  modifiedUnixMs : Int
  fileIdentity : Option FileIdentityEvidence
  sourceRevision : Option SourceRevisionEvidence
  deriving DecidableEq, Repr

/-- `MediaInspection`: the size of the image, and what its metadata says. -/
structure MediaInspection where
  width : Nat
  height : Nat
  engineId : String
  engineVersion : String
  camera : CameraMetadata
  captureTime : Option CaptureTimeEvidence
  issues : List ScanIssue
  deriving DecidableEq, Repr

/-- `MediaInspectionFailureKind` -/
inductive MediaInspectionFailureKind where
  | retryable | terminal
  deriving DecidableEq, Repr

/-- `MediaInspectionFailure` -/
structure MediaInspectionFailure where
  kind : MediaInspectionFailureKind
  issue : ScanIssue
  deriving DecidableEq, Repr

/-! ## Leases and deltas -/

/-- `LeasedLibraryChange`: what is read of the change, and its lease. -/
structure LeasedLibraryChange where
  id : LibraryChangeId
  intent : LibraryChangeIntent
  catchUpSource : Option String
  catchUpWatermark : Option String
  catchUpLineage : List LibraryChangeCatchUpEvidence
  leaseGeneration : Nat
  deriving DecidableEq, Repr

/-- `LibraryChangeCompletion` -/
structure LibraryChangeCompletion where
  changeId : LibraryChangeId
  leaseGeneration : Nat
  issue : Option LibraryChangeFailure
  deriving DecidableEq, Repr

/-- `IncrementalReconciliationOutcome` -/
inductive IncrementalReconciliationOutcome where
  | unchanged | added | modified | renamedOrMoved | replaced | removed | skipped | retryableFailure | terminalIssue
  deriving DecidableEq, Repr

/-- `DerivedEvidenceDisposition` -/
inductive DerivedEvidenceDisposition where
  | retainCompatible | invalidateDerived | noReusableEvidence | removeFromCurrentProjection | preserveLastTrustworthy
  deriving DecidableEq, Repr

/-- `RetainedPreviewExpectation` -/
structure RetainedPreviewExpectation where
  locationId : String
  previewPath : String
  previewStatus : PreviewStatus
  previewIssueCode : Option String
  previewIssueMessage : Option String
  deriving DecidableEq, Repr

/-- `CatalogDeltaMutation` -/
structure CatalogDeltaMutation where
  changeId : LibraryChangeId
  outcome : IncrementalReconciliationOutcome
  evidenceDisposition : DerivedEvidenceDisposition
  removeLocationIds : List String
  upsertLocation : Option AssetLocationView
  retainedPreviewExpectation : Option RetainedPreviewExpectation
  deriving DecidableEq, Repr

/-- `TerminalMediaEvidence` -/
structure TerminalMediaEvidence where
  relativePath : String
  fileSize : Nat
  modifiedUnixMs : Int
  fileIdentity : Option FileIdentityEvidence
  sourceRevision : Option SourceRevisionEvidence
  sourceGeneration : Nat
  inspectionEngineId : String
  inspectionEngineVersion : Nat
  issue : LibraryChangeFailure
  deriving DecidableEq, Repr

/-- `TerminalMediaEvidenceUpdate` -/
structure TerminalMediaEvidenceUpdate where
  changeId : LibraryChangeId
  evidence : TerminalMediaEvidence
  deriving DecidableEq, Repr

/-- `CatalogDeltaBatch` -/
structure CatalogDeltaBatch where
  rootId : String
  rootGeneration : LibraryRootGeneration
  expectedCatalogRevision : Nat
  mutations : List CatalogDeltaMutation
  terminalMediaEvidence : List TerminalMediaEvidenceUpdate
  completions : List LibraryChangeCompletion
  deriving DecidableEq, Repr

end Ame
