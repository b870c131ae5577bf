import Ame.Broker.Wire
import Ame.Journal.Contract

/-!
# From a root outcome to a batch (`session_reader/root_outcome.rs`)

The reader of the broker's session turns the candidates of a root outcome into change intents, and enrolls them with the range
of the journal they cover and the checkpoint behind it.
-/

namespace Ame

/-! ## Failures -/

/-- `read_failure` -/
def readFailure (kind : PersistentJournalRootFailureKind) (code message : String)
    (openingBoundary : Option LibraryRecoveryOpeningBoundary) : PersistentJournalReadFailure :=
  ⟨kind, ⟨code, message⟩, openingBoundary⟩

section

variable (message : String) (openingBoundary : Option LibraryRecoveryOpeningBoundary)

/-- `containment_failure` -/
def containmentFailure :
    PersistentJournalReadFailure :=
  readFailure .containmentFailure "persistent_journal_containment_failure" message openingBoundary

/-- `reconstruction_failure` -/
def reconstructionFailure :
    PersistentJournalReadFailure :=
  readFailure .journalReconstructionFailure "persistent_journal_reconstruction_failure" message openingBoundary

end

/-- `reconstruction_from_error` -/
def reconstructionFromError (error : ScanError) (openingBoundary : Option LibraryRecoveryOpeningBoundary) :
    PersistentJournalReadFailure :=
  readFailure .journalReconstructionFailure error.code error.message openingBoundary

/-- `remote_error_code` -/
def remoteErrorCode : BrokerFailureCode → String
  | .rootUnauthorized | .rootIdentityMismatch => "persistent_journal_root_unauthorized"
  | .volumeMismatch => "persistent_journal_volume_mismatch"
  | .journalDiscontinuous => "persistent_journal_discontinuous"
  | .evidenceLimitExceeded => "persistent_journal_evidence_limit"
  | .cancelled => "persistent_journal_cancelled"
  | _ => "persistent_journal_broker_failure"

/-- A failure code as the message shows it. -/
def BrokerFailureCode.debugName : BrokerFailureCode → String
  | .protocolMismatch => "ProtocolMismatch"
  | .malformedFrame => "MalformedFrame"
  | .requestTooLarge => "RequestTooLarge"
  | .callerRejected => "CallerRejected"
  | .rootUnauthorized => "RootUnauthorized"
  | .rootIdentityMismatch => "RootIdentityMismatch"
  | .volumeMismatch => "VolumeMismatch"
  | .journalUnavailable => "JournalUnavailable"
  | .journalDiscontinuous => "JournalDiscontinuous"
  | .recordUnsupported => "RecordUnsupported"
  | .evidenceLimitExceeded => "EvidenceLimitExceeded"
  | .timedOut => "TimedOut"
  | .cancelled => "Cancelled"
  | .requestNotActive => "RequestNotActive"
  | .activeLimitExceeded => "ActiveLimitExceeded"
  | .terminalDeliveryBackpressure => "TerminalDeliveryBackpressure"
  | .backendUnavailable => "BackendUnavailable"
  | .internal => "Internal"

/-- The kind of failure a broker's code stands for. -/
def brokerFailureKind : BrokerFailureCode → PersistentJournalRootFailureKind
  | .callerRejected | .rootUnauthorized | .rootIdentityMismatch | .volumeMismatch => .containmentFailure
  | .journalDiscontinuous | .recordUnsupported => .journalReconstructionFailure
  | .journalUnavailable | .backendUnavailable | .internal => .brokerAfterCurrentFailure
  | .evidenceLimitExceeded | .timedOut | .requestNotActive | .activeLimitExceeded | .terminalDeliveryBackpressure => .transient
  | .cancelled => .cancelled
  | .protocolMismatch | .malformedFrame | .requestTooLarge => .nonRecoverable

/-- `map_broker_failure_code` -/
def mapBrokerFailureCode (code : BrokerFailureCode) (openingBoundary : Option LibraryRecoveryOpeningBoundary) :
    PersistentJournalReadFailure :=
  readFailure (brokerFailureKind code) (remoteErrorCode code)
    ("The persistent journal broker returned " ++ code.debugName) openingBoundary

/-- `recovery_opening_boundary` -/
def recoveryOpeningBoundary (checkpoint : PersistentJournalCheckpoint) (journalId : Nat) (nextUsn : Int) :
    Except PersistentJournalReadFailure LibraryRecoveryOpeningBoundary := do
  let journalId ← (JournalIdentifier.new journalId).mapError (reconstructionFromError · none)
  let nextUsn ← (JournalUsn.new nextUsn).mapError (reconstructionFromError · none)
  let boundary : LibraryRecoveryOpeningBoundary :=
    ⟨checkpoint.volume, checkpoint.rootFileReference, journalId, nextUsn, checkpoint.protocolVersion,
      checkpoint.contractVersion⟩
  boundary.validate.mapError (reconstructionFromError · none)
  return boundary

/-! ## Translation -/

/-- The scope and the path of the intent for a candidate. -/
def candidateIntentScope (candidate : BrokerCandidate) : LibraryChangeScope × String :=
  match candidate.scope with
  | .root => (.root, "")
  | .relativePath path => (if candidate.kind = .subtree then .subtree else .path, path)

/-- The previous path of the intent for a candidate. -/
def candidatePreviousPath (candidate : BrokerCandidate) : Option String :=
  match candidate.previousScope with
  | some (.relativePath path) => some path
  | _ => none

/-- `candidate_to_intent` -/
def candidateToIntent (checkpoint : PersistentJournalCheckpoint) (observedUnixMs : Int) (candidate : BrokerCandidate) :
    Except ScanError LibraryChangeIntent :=
  if candidate.usn < 0 then .error ⟨"persistent_journal_session_invalid", "broker candidate USN is invalid"⟩
  else .ok
    { rootId := checkpoint.rootId
      rootGeneration := checkpoint.rootGeneration
      kind := if candidate.kind = .rename then .renameCandidate else .reconcile
      scope := (candidateIntentScope candidate).1
      relativePath := (candidateIntentScope candidate).2
      previousRelativePath := candidatePreviousPath candidate
      origin := .startupCatchUp
      firstObservedUnixMs := observedUnixMs
      mostRecentObservedUnixMs := observedUnixMs
      firstSequence := candidate.usn.toNat
      mostRecentSequence := candidate.usn.toNat
      coalescedObservationCount := 1 }

/-- Whether an outcome is one of the checkpoint's root, and starts where the checkpoint ends. -/
def outcomeMatchesCheckpoint (previous : PersistentJournalCheckpoint) (outcome : SharedJournalRootOutcome) : Bool :=
  outcome.binding.rootId == previous.rootId && outcome.binding.rootGeneration == previous.rootGeneration.value &&
    outcome.binding.volumeId == previous.volume.volumeGuid && outcome.requestedStartUsn == previous.nextUnreadUsn.value

section

variable (digests : JournalDigests) (previous : PersistentJournalCheckpoint) (outcome : SharedJournalRootOutcome)

/-- The batch and the checkpoint of a covered part of the journal. -/
def enrollOutcome (covered requestedEndUsn observedUnixMs : Int) : Except ScanError PersistentJournalReadPage := do
  let intents ← outcome.candidates.mapM (candidateToIntent previous observedUnixMs)
  let journalId ← JournalIdentifier.new previous.journalId.value
  let requestedEnd ← JournalUsn.new requestedEndUsn
  let coveredUntil ← JournalUsn.new covered
  let range : PersistentJournalSourceRange :=
    { batchId := "pending-content-id", rootId := previous.rootId, rootGeneration := previous.rootGeneration
      volume := previous.volume, journalId := journalId, requestedStartUsn := previous.nextUnreadUsn
      requestedEndUsn := requestedEnd, coveredUntilUsn := coveredUntil, isComplete := outcome.isComplete
      protocolVersion := protocolVersion, contractVersion := persistentJournalContractVersion, state := .enrolled
      enrolledUnixMs := observedUnixMs, checkpointedUnixMs := none }
  let checkpoint : PersistentJournalCheckpoint :=
    { previous with
      nextUnreadUsn := coveredUntil, capturedExclusiveEnd := requestedEnd, protocolVersion := protocolVersion
      contractVersion := persistentJournalContractVersion, continuity := .catchingUp, failure := none
      updatedUnixMs := observedUnixMs }
  let batch : PersistentJournalEnrollmentBatch := ⟨range, intents, [], [], [], [], []⟩
  let batch := { batch with range := { range with batchId := digests.batchId batch } }
  batch.validate digests
  checkpoint.validate
  return .enrolled batch checkpoint

/-- `translate_root_outcome` -/
def translateRootOutcome (requestedEndUsn observedUnixMs : Int) :
    Except PersistentJournalReadFailure (Option PersistentJournalReadPage) := do
  let openingBoundary ← recoveryOpeningBoundary previous previous.journalId.value requestedEndUsn
  match outcome.failure with
  | some code => throw (mapBrokerFailureCode code (some openingBoundary))
  | none =>
    if outcomeMatchesCheckpoint previous outcome = false then
      throw (containmentFailure "broker root outcome identity is invalid" (some openingBoundary))
    else
      match outcome.coveredUntilUsn with
      | none => throw (reconstructionFailure "broker root outcome proof is missing" (some openingBoundary))
      | some covered =>
        if previous.nextUnreadUsn.value = requestedEndUsn then
          if covered ≠ requestedEndUsn ∨ outcome.isComplete = false ∨ outcome.candidates ≠ [] then
            throw (reconstructionFailure "broker empty replay boundary is invalid" (some openingBoundary))
          else return some (.emptyReplay previous)
        else do
          let page ← (enrollOutcome digests previous outcome covered requestedEndUsn observedUnixMs).mapError
            (reconstructionFromError · (some openingBoundary))
          return some page

end

end Ame
