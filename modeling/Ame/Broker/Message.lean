import Ame.Broker.Wire
import Ame.Lib.Binary

/-!
# Requests and responses of the journal broker (`journal_broker/wire.rs`)

What a client asks for and what it is answered, with the checks that both sides make: the requests' own `validate` and
`validate_response` (`wire/codec.rs`). The machine integers of the source are numbers here, and `InRange` says of a message
that each of them is one of its type.
-/

namespace Ame

open Binary

/-- `MAX_RECORDS` -/
def maxRecordsLimit : Nat := 1024

/-- `MAX_EVIDENCE_BYTES` -/
def maxEvidenceBytesLimit : Nat := 512 * 1024

/-- `MAX_TIMEOUT_MS` -/
def maxTimeoutMs : Nat := 10000

/-- `MAX_SHARED_ROOTS` -/
def maxSharedRoots : Nat := 8

/-- `MAX_SHARED_HANDOFFS` -/
def maxSharedHandoffs : Nat := 1024

/-- `MAX_SHARED_PENDING_RENAMES` -/
def maxSharedPendingRenames : Nat := 1024

/-- The most bytes of a carry or range identifier. -/
def maxCarryIdBytes : Nat := 512

/-- `(1..=maximum).contains(&n)` -/
def isBetweenOneAnd (maximum n : Nat) : Bool := decide (1 ≤ n ∧ n ≤ maximum)

/-- `matches!(file_reference.len(), 8 | 16)` -/
def isReferenceLength (n : Nat) : Bool := n == 8 || n == 16

/-- `iter().all(|byte| *byte == 0)` of an array. -/
def isZero {n : Nat} (bytes : Vector UInt8 n) : Bool := bytes.toList.all (· == 0)

/-- `validate_timeout` -/
def validateTimeout (timeoutMs : Nat) : Except WireError Unit :=
  require (isBetweenOneAnd maxTimeoutMs timeoutMs) (.invalidValue "timeout_ms")

/-! ## Requests -/

/-- `CallerClaim` -/
structure CallerClaim where
  processId : Nat
  sessionId : Nat
  clientInstance : Vector UInt8 16
  deriving DecidableEq, Repr

/-- `CallerClaim::validate` -/
def CallerClaim.validate (caller : CallerClaim) : Except WireError Unit :=
  require (!(caller.processId == 0 || isZero caller.clientInstance)) (.invalidValue "caller_claim")

/-- `RootAuthorization` -/
structure RootAuthorization where
  rootId : String
  rootGeneration : Nat
  volumeId : String
  rootIdentity : List UInt8
  canonicalRootUtf16 : List UInt16
  deriving DecidableEq, Repr

/-- `RootAuthorization::validate` -/
def RootAuthorization.validate (root : RootAuthorization) : Except WireError Unit := do
  validateWireIdentifier root.rootId maxWireRootIdBytes
  validateWireIdentifier root.volumeId maxVolumeIdBytes
  require (!(root.rootGeneration == 0 || !isReferenceLength root.rootIdentity.length)) (.invalidValue "root_authorization")
  let path ← normalizeAbsolutePath root.canonicalRootUtf16
  require (path.components.length != 0) (.invalidValue "volume_root")

/-- `RootCapability` -/
structure RootCapability where
  bytes : Vector UInt8 32
  deriving DecidableEq, Repr

/-- `RootCapability::validate` -/
def RootCapability.validate (capability : RootCapability) : Except WireError Unit :=
  require (!isZero capability.bytes) (.invalidValue "root_capability")

/-- `RegisterRootRequest` -/
structure RegisterRootRequest where
  caller : CallerClaim
  root : RootAuthorization
  clientRootHandle : Nat
  timeoutMs : Nat
  deriving DecidableEq, Repr

/-- `RegisterRootRequest::validate` -/
def RegisterRootRequest.validate (request : RegisterRootRequest) : Except WireError Unit := do
  request.caller.validate
  request.root.validate
  require (!(request.clientRootHandle == 0 || request.root.rootIdentity.length != 16)) (.invalidValue "root_registration")
  validateTimeout request.timeoutMs

/-- `QueryJournalRequest` -/
structure QueryJournalRequest where
  caller : CallerClaim
  root : RootAuthorization
  rootCapability : RootCapability
  timeoutMs : Nat
  deriving DecidableEq, Repr

/-- `QueryJournalRequest::validate` -/
def QueryJournalRequest.validate (request : QueryJournalRequest) : Except WireError Unit := do
  request.caller.validate
  request.root.validate
  request.rootCapability.validate
  validateTimeout request.timeoutMs

/-- `ReadJournalRangeRequest` -/
structure ReadJournalRangeRequest where
  caller : CallerClaim
  root : RootAuthorization
  rootCapability : RootCapability
  journalId : Nat
  startUsn : Int
  endUsn : Int
  maxRecords : Nat
  maxEvidenceBytes : Nat
  timeoutMs : Nat
  deriving DecidableEq, Repr

/-- `ReadJournalRangeRequest::validate` -/
def ReadJournalRangeRequest.validate (request : ReadJournalRangeRequest) : Except WireError Unit := do
  request.caller.validate
  request.root.validate
  request.rootCapability.validate
  require (!decide (request.journalId = 0 ∨ request.startUsn < 0 ∨ request.endUsn ≤ request.startUsn))
    (.invalidValue "journal_range")
  require (isBetweenOneAnd maxRecordsLimit request.maxRecords) (.invalidValue "max_records")
  require (isBetweenOneAnd maxEvidenceBytesLimit request.maxEvidenceBytes) (.invalidValue "max_evidence_bytes")
  validateTimeout request.timeoutMs

/-- `SharedJournalRootRequest` -/
structure SharedJournalRootRequest where
  root : RootAuthorization
  rootCapability : RootCapability
  startUsn : Int
  deriving DecidableEq, Repr

/-- `SharedJournalRootRequest::validate` -/
def SharedJournalRootRequest.validate (request : SharedJournalRootRequest) : Except WireError Unit := do
  request.root.validate
  request.rootCapability.validate
  require (!decide (request.startUsn < 0)) (.invalidValue "journal_start")

/-- `SharedJournalPendingRenameRequest` -/
structure SharedJournalPendingRenameRequest where
  carryId : String
  sourceRangeId : String
  root : RootAuthorization
  rootCapability : Option RootCapability
  fileReference : List UInt8
  oldUsn : Int
  previousRelativePath : String
  isDirectory : Bool
  deriving DecidableEq, Repr

/-- `SharedJournalPendingRenameRequest::validate` -/
def SharedJournalPendingRenameRequest.validate (pending : SharedJournalPendingRenameRequest) (volumeId : String)
    (journalId : Nat) (requestedEndUsn : Int) : Except WireError Unit := do
  validateWireIdentifier pending.carryId maxCarryIdBytes
  validateWireIdentifier pending.sourceRangeId maxCarryIdBytes
  pending.root.validate
  pending.rootCapability.elim (.ok ()) RootCapability.validate
  validateRelativePath pending.previousRelativePath
  require (!(pending.root.volumeId != volumeId || journalId == 0 || !isReferenceLength pending.fileReference.length ||
    decide (pending.oldUsn < 0) || decide (requestedEndUsn ≤ pending.oldUsn))) (.invalidValue "shared_pending_rename")

/-- `ReadJournalVolumeRequest` -/
structure ReadJournalVolumeRequest where
  caller : CallerClaim
  roots : List SharedJournalRootRequest
  pendingRenames : List SharedJournalPendingRenameRequest
  journalId : Nat
  endUsn : Int
  maxRecords : Nat
  maxEvidenceBytes : Nat
  timeoutMs : Nat
  deriving DecidableEq, Repr

/-- The loop over the roots of a request; `identities` are those of the roots before. -/
def validateSharedRoots (volumeId : String) (endUsn : Int) :
    List (String × Nat) → List SharedJournalRootRequest → Except WireError Unit
  | _, [] => .ok ()
  | identities, root :: rest => do
    root.validate
    require (!(root.root.volumeId != volumeId || (JournalReadInterval.new root.startUsn endUsn).isNone ||
      identities.contains (root.root.rootId, root.root.rootGeneration))) (.invalidValue "shared_root_set")
    validateSharedRoots volumeId endUsn ((root.root.rootId, root.root.rootGeneration) :: identities) rest

/-- The loop over the old names of a request; `carryIds` are those of the names before. -/
def validateSharedPendingRenames (volumeId : String) (journalId : Nat) (endUsn : Int) :
    List String → List SharedJournalPendingRenameRequest → Except WireError Unit
  | _, [] => .ok ()
  | carryIds, pending :: rest => do
    pending.validate volumeId journalId endUsn
    require (!carryIds.contains pending.carryId) (.invalidValue "shared_pending_rename_set")
    validateSharedPendingRenames volumeId journalId endUsn (pending.carryId :: carryIds) rest

/-- The volume of a request, that of its first root. -/
def ReadJournalVolumeRequest.volumeId (request : ReadJournalVolumeRequest) : String :=
  request.roots.head?.elim "" (·.root.volumeId)

/-- `ReadJournalVolumeRequest::validate` -/
def ReadJournalVolumeRequest.validate (request : ReadJournalVolumeRequest) : Except WireError Unit := do
  request.caller.validate
  require (!(request.journalId == 0 || !isBetweenOneAnd maxSharedRoots request.roots.length ||
    !isBetweenOneAnd maxRecordsLimit request.maxRecords ||
    !isBetweenOneAnd maxEvidenceBytesLimit request.maxEvidenceBytes)) (.invalidValue "shared_journal_range")
  validateSharedRoots request.volumeId request.endUsn [] request.roots
  require (decide (request.pendingRenames.length ≤ maxSharedPendingRenames)) (.invalidValue "shared_pending_rename_count")
  validateSharedPendingRenames request.volumeId request.journalId request.endUsn [] request.pendingRenames
  validateTimeout request.timeoutMs

/-- `BrokerRequest` -/
inductive BrokerRequest where
  | registerRoot (requestId : Nat) (request : RegisterRootRequest)
  | queryJournal (requestId : Nat) (request : QueryJournalRequest)
  | readRange (requestId : Nat) (request : ReadJournalRangeRequest)
  | readVolume (requestId : Nat) (request : ReadJournalVolumeRequest)
  | cancel (requestId : Nat) (caller : CallerClaim) (targetRequestId : Nat)
  deriving DecidableEq, Repr

/-- `BrokerRequest::request_id` -/
def BrokerRequest.requestId : BrokerRequest → Nat
  | .registerRoot requestId _ | .queryJournal requestId _ | .readRange requestId _ | .readVolume requestId _
  | .cancel requestId _ _ => requestId

/-- The check of a request by its kind, made by `encode_request` before writing and by `decode_request` after reading. -/
def BrokerRequest.validate : BrokerRequest → Except WireError Unit
  | .registerRoot _ request => request.validate
  | .queryJournal _ request => request.validate
  | .readRange _ request => request.validate
  | .readVolume _ request => request.validate
  | .cancel _ caller targetRequestId => do
    caller.validate
    require (targetRequestId != 0) (.invalidValue "target_request_id")

/-! ## Responses -/

/-- `ResponseBinding::from_request` -/
def ResponseBinding.fromRequest (caller : CallerClaim) (root : RootAuthorization) : ResponseBinding :=
  ⟨caller.clientInstance, root.rootId, root.rootGeneration, root.volumeId⟩

/-- `JournalCapability` -/
inductive JournalCapability where
  | supported
  | liveOnly
  deriving DecidableEq, Repr

/-- The bytes of a string in UTF-16. -/
def utf16Bytes (s : String) : Nat := (Utf16.encode s.toList).length * 2

/-- `CandidateScope::evidence_bytes`. The sums of evidence are far from the range of a machine word: what is summed has been
checked or read under limits. -/
def CandidateScope.evidenceBytes : CandidateScope → Nat
  | .root => 1
  | .relativePath path => utf16Bytes path

/-- `BrokerCandidate::evidence_bytes` -/
def BrokerCandidate.evidenceBytes (candidate : BrokerCandidate) : Nat :=
  candidate.scope.evidenceBytes + candidate.previousScope.elim 0 CandidateScope.evidenceBytes + candidate.fileReference.length

/-- `SharedJournalHandoff` -/
structure SharedJournalHandoff where
  previousBinding : ResponseBinding
  currentBinding : ResponseBinding
  fileReference : List UInt8
  usn : Int
  previousRelativePath : String
  currentRelativePath : String
  isDirectory : Bool
  previousCarryId : Option String
  deriving DecidableEq, Repr

variable (handoff : SharedJournalHandoff)

/-- `SharedJournalHandoff::validate` -/
def SharedJournalHandoff.validate (clientInstance : Vector UInt8 16) (volumeId : String)
    (requestedEndUsn : Int) : Except WireError Unit := do
  handoff.previousBinding.validate
  handoff.currentBinding.validate
  validateRelativePath handoff.previousRelativePath
  validateRelativePath handoff.currentRelativePath
  handoff.previousCarryId.elim (.ok ()) (validateWireIdentifier · maxCarryIdBytes)
  require (!(decide (handoff.previousBinding.clientInstance ≠ clientInstance) ||
    decide (handoff.currentBinding.clientInstance ≠ clientInstance) ||
    handoff.previousBinding.volumeId != volumeId || handoff.currentBinding.volumeId != volumeId ||
    (handoff.previousBinding.rootId, handoff.previousBinding.rootGeneration) ==
      (handoff.currentBinding.rootId, handoff.currentBinding.rootGeneration) ||
    !isReferenceLength handoff.fileReference.length || decide (handoff.usn < 0) ||
    decide (requestedEndUsn ≤ handoff.usn))) (.invalidValue "shared_handoff")

/-- `SharedJournalHandoff::evidence_bytes` -/
def SharedJournalHandoff.evidenceBytes : Nat :=
  utf16Bytes handoff.previousRelativePath + utf16Bytes handoff.currentRelativePath + handoff.fileReference.length +
    handoff.previousCarryId.elim 0 String.utf8ByteSize

/-- `SharedJournalPendingRename` -/
structure SharedJournalPendingRename where
  binding : ResponseBinding
  fileReference : List UInt8
  oldUsn : Int
  previousRelativePath : String
  isDirectory : Bool
  deriving DecidableEq, Repr

/-- `SharedJournalPendingRename::validate` -/
def SharedJournalPendingRename.validate (pending : SharedJournalPendingRename) (clientInstance : Vector UInt8 16)
    (volumeId : String) (requestedEndUsn : Int) : Except WireError Unit := do
  pending.binding.validate
  validateRelativePath pending.previousRelativePath
  require (!(decide (pending.binding.clientInstance ≠ clientInstance) || pending.binding.volumeId != volumeId ||
    !isReferenceLength pending.fileReference.length || decide (pending.oldUsn < 0) ||
    decide (requestedEndUsn ≤ pending.oldUsn))) (.invalidValue "shared_pending_rename")

/-- `SharedJournalPendingRename::evidence_bytes` -/
def SharedJournalPendingRename.evidenceBytes (pending : SharedJournalPendingRename) : Nat :=
  utf16Bytes pending.previousRelativePath + pending.fileReference.length

/-- `BrokerResponse`; the failure is its code. -/
inductive BrokerResponse where
  | rootRegistered (requestId : Nat) (binding : ResponseBinding) (rootCapability : RootCapability)
  | journal (requestId : Nat) (binding : ResponseBinding) (capability : JournalCapability) (journalId : Option Nat)
      (firstUsn nextUsn : Option Int)
  | readRangeAccepted (requestId : Nat) (binding : ResponseBinding) (journalId : Nat)
      (requestedStartUsn requestedEndUsn : Int) (maxRecords maxEvidenceBytes : Nat)
  | readVolumeAccepted (requestId : Nat) (clientInstance : Vector UInt8 16) (volumeId : String) (journalId : Nat)
      (requestedStartUsn requestedEndUsn : Int) (rootCount maxRecords maxEvidenceBytes : Nat)
  | readVolume (requestId : Nat) (clientInstance : Vector UInt8 16) (volumeId : String) (journalId : Nat)
      (requestedEndUsn : Int) (maxRecords maxEvidenceBytes : Nat) (outcomes : List SharedJournalRootOutcome)
      (handoffs : List SharedJournalHandoff) (pendingRenames : List SharedJournalPendingRename)
  | readRange (requestId : Nat) (binding : ResponseBinding) (journalId : Nat) (requestedStartUsn requestedEndUsn : Int)
      (maxRecords maxEvidenceBytes : Nat) (coveredUntilUsn : Int) (isComplete : Bool) (candidates : List BrokerCandidate)
  | cancelled (requestId : Nat) (clientInstance : Vector UInt8 16) (targetRequestId : Nat)
  | failure (requestId : Nat) (clientInstance : Option (Vector UInt8 16)) (failure : BrokerFailureCode)
  deriving DecidableEq, Repr

/-- `BrokerResponse::request_id` -/
def BrokerResponse.requestId : BrokerResponse → Nat
  | .rootRegistered requestId .. | .journal requestId .. | .readRangeAccepted requestId .. | .readVolumeAccepted requestId ..
  | .readVolume requestId .. | .readRange requestId .. | .cancelled requestId .. | .failure requestId .. => requestId

/-! ## `validate_response` -/

/-- Whether the end of a journal is missing or before its start. -/
def isDisordered : Option Int → Option Int → Bool
  | some next, some first => decide (next < first)
  | _, _ => true

/-- The journal a query reports: all of its numbers, or none for a volume without one. -/
def validateJournalMetadata (journalId : Option Nat) (firstUsn nextUsn : Option Int) : JournalCapability → Except WireError Unit
  | .supported => require (!(journalId.all (· == 0) || firstUsn.all (fun value => decide (value < 0)) ||
      isDisordered nextUsn firstUsn)) (.invalidValue "journal_metadata")
  | .liveOnly => require (!(journalId.isSome || firstUsn.isSome || nextUsn.isSome)) (.invalidValue "live_only_metadata")

/-- The checks of a journal range with its limits, shared by a page and its acceptance. -/
def isValidRange (journalId : Nat) (requestedStartUsn requestedEndUsn : Int) (maxRecords maxEvidenceBytes : Nat) : Bool :=
  !(journalId == 0 || decide (requestedStartUsn < 0) || decide (requestedEndUsn ≤ requestedStartUsn) ||
    !isBetweenOneAnd maxRecordsLimit maxRecords || !isBetweenOneAnd maxEvidenceBytesLimit maxEvidenceBytes)

variable (outcomes : List SharedJournalRootOutcome)

/-- The outcome that an endpoint is bound to. -/
def findOutcome (endpoint : ResponseBinding) : Option SharedJournalRootOutcome :=
  outcomes.find? fun outcome => outcome.binding.rootId == endpoint.rootId &&
    outcome.binding.rootGeneration == endpoint.rootGeneration &&
    decide (outcome.binding.clientInstance = endpoint.clientInstance) && outcome.binding.volumeId == endpoint.volumeId

/-- The check of one endpoint of a handoff or an old name: a root of the response that covers the record. -/
def validateEndpoint (endpointField rangeField : String) (usn : Int) (endpoint : ResponseBinding) : Except WireError Unit :=
  match findOutcome outcomes endpoint with
  | none => .error (.invalidValue endpointField)
  | some outcome =>
    match outcome.coveredUntilUsn.filter fun _ => outcome.failure.isNone with
    | none => .error (.invalidValue endpointField)
    | some covered =>
      require (!decide (usn < outcome.requestedStartUsn ∨ covered ≤ usn)) (.invalidValue rangeField)

/-- The endpoints of a handoff that the response itself answers for. -/
def SharedJournalHandoff.endpoints : List ResponseBinding :=
  if handoff.previousCarryId.isSome then [handoff.currentBinding] else [handoff.previousBinding, handoff.currentBinding]

/-- The loop over the outcomes of a page; `bindings` are those of the outcomes before. -/
def validateOutcomes (clientInstance : Vector UInt8 16) (volumeId : String) (requestedEndUsn : Int) (maxRecords : Nat) :
    List (String × Nat) → List SharedJournalRootOutcome → Except WireError Unit
  | _, [] => .ok ()
  | bindings, outcome :: rest => do
    outcome.validate requestedEndUsn maxRecords
    require (!(decide (outcome.binding.clientInstance ≠ clientInstance) || outcome.binding.volumeId != volumeId ||
      bindings.contains (outcome.binding.rootId, outcome.binding.rootGeneration))) (.invalidValue "shared_response_binding")
    validateOutcomes clientInstance volumeId requestedEndUsn maxRecords
      ((outcome.binding.rootId, outcome.binding.rootGeneration) :: bindings) rest

/-- The records of a page. -/
def totalRecords (handoffs : List SharedJournalHandoff) (pendingRenames : List SharedJournalPendingRename) : Nat :=
  (outcomes.map (·.candidates.length)).sum + handoffs.length + pendingRenames.length

/-- The evidence of candidates. -/
def candidateEvidence (candidates : List BrokerCandidate) : Nat := (candidates.map (·.evidenceBytes)).sum

/-- The evidence of a page. -/
def totalEvidence (handoffs : List SharedJournalHandoff) (pendingRenames : List SharedJournalPendingRename) : Nat :=
  (outcomes.map fun outcome => candidateEvidence outcome.candidates).sum + (handoffs.map (·.evidenceBytes)).sum +
    (pendingRenames.map (·.evidenceBytes)).sum

/-- `validate_response` by the kind of the response. -/
def BrokerResponse.validateKind : BrokerResponse → Except WireError Unit
  | .rootRegistered _ binding rootCapability => do
    binding.validate
    rootCapability.validate
  | .journal _ binding capability journalId firstUsn nextUsn => do
    binding.validate
    validateJournalMetadata journalId firstUsn nextUsn capability
  | .readRange _ binding journalId requestedStartUsn requestedEndUsn maxRecords maxEvidenceBytes coveredUntilUsn isComplete
      candidates => do
    binding.validate
    require (isValidRange journalId requestedStartUsn requestedEndUsn maxRecords maxEvidenceBytes &&
      !(decide (coveredUntilUsn ≤ requestedStartUsn) || decide (requestedEndUsn < coveredUntilUsn) ||
        isComplete != decide (coveredUntilUsn = requestedEndUsn) || decide (maxRecordsLimit < candidates.length)))
      (.invalidValue "covered_range")
    validateCandidates requestedStartUsn coveredUntilUsn none candidates
  | .readRangeAccepted _ binding journalId requestedStartUsn requestedEndUsn maxRecords maxEvidenceBytes => do
    binding.validate
    require (isValidRange journalId requestedStartUsn requestedEndUsn maxRecords maxEvidenceBytes)
      (.invalidValue "accepted_range")
  | .readVolumeAccepted _ clientInstance volumeId journalId requestedStartUsn requestedEndUsn rootCount maxRecords
      maxEvidenceBytes =>
    require (!(isZero clientInstance || !(validateWireIdentifier volumeId maxVolumeIdBytes).isOk || journalId == 0 ||
      (JournalReadInterval.new requestedStartUsn requestedEndUsn).isNone || !isBetweenOneAnd maxSharedRoots rootCount ||
      !isBetweenOneAnd maxRecordsLimit maxRecords || !isBetweenOneAnd maxEvidenceBytesLimit maxEvidenceBytes))
      (.invalidValue "accepted_shared_range")
  | .readVolume _ clientInstance volumeId journalId requestedEndUsn maxRecords maxEvidenceBytes outcomes handoffs
      pendingRenames => do
    require (!(isZero clientInstance || !(validateWireIdentifier volumeId maxVolumeIdBytes).isOk || journalId == 0 ||
      decide (requestedEndUsn < 0) || !isBetweenOneAnd maxRecordsLimit maxRecords ||
      !isBetweenOneAnd maxEvidenceBytesLimit maxEvidenceBytes || !isBetweenOneAnd maxSharedRoots outcomes.length ||
      decide (maxSharedHandoffs < handoffs.length) || decide (maxSharedPendingRenames < pendingRenames.length)))
      (.invalidValue "shared_range")
    validateOutcomes clientInstance volumeId requestedEndUsn maxRecords [] outcomes
    handoffs.forM fun handoff => do
      handoff.validate clientInstance volumeId requestedEndUsn
      handoff.endpoints.forM (validateEndpoint outcomes "shared_handoff_endpoint" "shared_handoff_range" handoff.usn)
    pendingRenames.forM fun pending => do
      pending.validate clientInstance volumeId requestedEndUsn
      validateEndpoint outcomes "shared_pending_rename_endpoint" "shared_pending_rename_range" pending.oldUsn pending.binding
    require (!(decide (maxRecords < totalRecords outcomes handoffs pendingRenames) ||
      decide (maxEvidenceBytes < totalEvidence outcomes handoffs pendingRenames))) .lengthExceeded
  | .cancelled _ clientInstance targetRequestId =>
    require (!(isZero clientInstance || targetRequestId == 0)) (.invalidValue "cancelled_response")
  | .failure _ clientInstance _ => require (!clientInstance.any isZero) (.invalidValue "failure_binding")

/-- A failure may answer a request without a number. -/
def BrokerResponse.isFailure : BrokerResponse → Bool
  | .failure .. => true
  | _ => false

/-- `validate_response` -/
def validateResponse (response : BrokerResponse) : Except WireError Unit := do
  require (!(response.requestId == 0 && !response.isFailure)) (.invalidValue "request_id")
  response.validateKind

/-! ## The ranges of the integers -/

def CallerClaim.InRange (caller : CallerClaim) : Prop := caller.processId < 2 ^ 32 ∧ caller.sessionId < 2 ^ 32

def RootAuthorization.InRange (root : RootAuthorization) : Prop := root.rootGeneration < 2 ^ 64

def SharedJournalRootRequest.InRange (request : SharedJournalRootRequest) : Prop :=
  request.root.InRange ∧ Signed64 request.startUsn

def SharedJournalPendingRenameRequest.InRange (pending : SharedJournalPendingRenameRequest) : Prop :=
  pending.root.InRange ∧ Signed64 pending.oldUsn

/-- Every integer of the request is one of its machine type. -/
def BrokerRequest.InRange : BrokerRequest → Prop
  | .registerRoot requestId request => requestId < 2 ^ 64 ∧ request.caller.InRange ∧ request.root.InRange ∧
      request.clientRootHandle < 2 ^ 64 ∧ request.timeoutMs < 2 ^ 32
  | .queryJournal requestId request => requestId < 2 ^ 64 ∧ request.caller.InRange ∧ request.root.InRange ∧
      request.timeoutMs < 2 ^ 32
  | .readRange requestId request => requestId < 2 ^ 64 ∧ request.caller.InRange ∧ request.root.InRange ∧
      request.journalId < 2 ^ 64 ∧ Signed64 request.startUsn ∧ Signed64 request.endUsn ∧ request.maxRecords < 2 ^ 32 ∧
      request.maxEvidenceBytes < 2 ^ 32 ∧ request.timeoutMs < 2 ^ 32
  | .readVolume requestId request => requestId < 2 ^ 64 ∧ request.caller.InRange ∧ (∀ root ∈ request.roots, root.InRange) ∧
      (∀ pending ∈ request.pendingRenames, pending.InRange) ∧ request.journalId < 2 ^ 64 ∧ Signed64 request.endUsn ∧
      request.maxRecords < 2 ^ 32 ∧ request.maxEvidenceBytes < 2 ^ 32 ∧ request.timeoutMs < 2 ^ 32
  | .cancel requestId caller targetRequestId => requestId < 2 ^ 64 ∧ caller.InRange ∧ targetRequestId < 2 ^ 64

def ResponseBinding.InRange (binding : ResponseBinding) : Prop := binding.rootGeneration < 2 ^ 64

def BrokerCandidate.InRange (candidate : BrokerCandidate) : Prop := Signed64 candidate.usn

def SharedJournalRootOutcome.InRange (outcome : SharedJournalRootOutcome) : Prop :=
  outcome.binding.InRange ∧ Signed64 outcome.requestedStartUsn ∧ (∀ covered ∈ outcome.coveredUntilUsn, Signed64 covered) ∧
    ∀ candidate ∈ outcome.candidates, candidate.InRange

def SharedJournalHandoff.InRange : Prop :=
  handoff.previousBinding.InRange ∧ handoff.currentBinding.InRange ∧ Signed64 handoff.usn

def SharedJournalPendingRename.InRange (pending : SharedJournalPendingRename) : Prop :=
  pending.binding.InRange ∧ Signed64 pending.oldUsn

/-- Every integer of the response is one of its machine type. -/
def BrokerResponse.InRange : BrokerResponse → Prop
  | .rootRegistered requestId binding _ => requestId < 2 ^ 64 ∧ binding.InRange
  | .journal requestId binding _ journalId firstUsn nextUsn => requestId < 2 ^ 64 ∧ binding.InRange ∧
      (∀ value ∈ journalId, value < 2 ^ 64) ∧ (∀ value ∈ firstUsn, Signed64 value) ∧ ∀ value ∈ nextUsn, Signed64 value
  | .readRangeAccepted requestId binding journalId requestedStartUsn requestedEndUsn maxRecords maxEvidenceBytes =>
      requestId < 2 ^ 64 ∧ binding.InRange ∧ journalId < 2 ^ 64 ∧ Signed64 requestedStartUsn ∧ Signed64 requestedEndUsn ∧
        maxRecords < 2 ^ 32 ∧ maxEvidenceBytes < 2 ^ 32
  | .readVolumeAccepted requestId _ _ journalId requestedStartUsn requestedEndUsn rootCount maxRecords maxEvidenceBytes =>
      requestId < 2 ^ 64 ∧ journalId < 2 ^ 64 ∧ Signed64 requestedStartUsn ∧ Signed64 requestedEndUsn ∧
        rootCount < 2 ^ 8 ∧ maxRecords < 2 ^ 32 ∧ maxEvidenceBytes < 2 ^ 32
  | .readVolume requestId _ _ journalId requestedEndUsn maxRecords maxEvidenceBytes outcomes handoffs pendingRenames =>
      requestId < 2 ^ 64 ∧ journalId < 2 ^ 64 ∧ Signed64 requestedEndUsn ∧ maxRecords < 2 ^ 32 ∧
        maxEvidenceBytes < 2 ^ 32 ∧ (∀ outcome ∈ outcomes, outcome.InRange) ∧ (∀ handoff ∈ handoffs, handoff.InRange) ∧
        ∀ pending ∈ pendingRenames, pending.InRange
  | .readRange requestId binding journalId requestedStartUsn requestedEndUsn maxRecords maxEvidenceBytes coveredUntilUsn _
      candidates =>
      requestId < 2 ^ 64 ∧ binding.InRange ∧ journalId < 2 ^ 64 ∧ Signed64 requestedStartUsn ∧ Signed64 requestedEndUsn ∧
        maxRecords < 2 ^ 32 ∧ maxEvidenceBytes < 2 ^ 32 ∧ Signed64 coveredUntilUsn ∧
        ∀ candidate ∈ candidates, candidate.InRange
  | .cancelled requestId _ targetRequestId => requestId < 2 ^ 64 ∧ targetRequestId < 2 ^ 64
  | .failure requestId _ _ => requestId < 2 ^ 64

end Ame
