import Ame.Broker.Codec

/-!
# The format of the broker's messages

Which bytes stand for which message, as a function: the writer appends them and the reader takes them. `Fits` are the values
that the reader accepts where it looks at a part alone; what a message has to be as a whole is left to `validate`.
-/

namespace Ame

open Binary

namespace Format

def byteVec (value : List UInt8) : List UInt8 := leBytes 4 value.length ++ value

def string (value : String) : List UInt8 := byteVec (utf8Bytes value)

def utf16 (value : List UInt16) : List UInt8 := leBytes 4 value.length ++ value.flatMap fun unit => leBytes 2 unit.toNat

def i64 (value : Int) : List UInt8 := leBytes 8 (toUnsigned64 value)

def boolean (value : Bool) : List UInt8 := leBytes 1 value.toNat

def optional {α : Type} (format : α → List UInt8) (value : Option α) : List UInt8 :=
  boolean value.isSome ++ value.elim [] format

def header (kind requestId : Nat) : List UInt8 :=
  protocolMagic ++ leBytes 2 protocolVersion ++ leBytes 2 kind ++ leBytes 8 requestId

def caller (caller : CallerClaim) : List UInt8 :=
  leBytes 4 caller.processId ++ leBytes 4 caller.sessionId ++ caller.clientInstance.toList

def root (root : RootAuthorization) : List UInt8 :=
  string root.rootId ++ leBytes 8 root.rootGeneration ++ string root.volumeId ++ byteVec root.rootIdentity ++
    utf16 root.canonicalRootUtf16

def binding (binding : ResponseBinding) : List UInt8 :=
  binding.clientInstance.toList ++ string binding.rootId ++ leBytes 8 binding.rootGeneration ++ string binding.volumeId

def scope : CandidateScope → List UInt8
  | .root => leBytes 1 0
  | .relativePath path => leBytes 1 1 ++ string path

def candidate (candidate : BrokerCandidate) : List UInt8 :=
  scope candidate.scope ++ optional scope candidate.previousScope ++ byteVec candidate.fileReference ++ i64 candidate.usn ++
    leBytes 1 (candidateKindCode candidate.kind) ++ boolean candidate.isDirectory

def rootRequest (request : SharedJournalRootRequest) : List UInt8 :=
  root request.root ++ request.rootCapability.bytes.toList ++ i64 request.startUsn

def pendingRequest (pending : SharedJournalPendingRenameRequest) : List UInt8 :=
  string pending.carryId ++ string pending.sourceRangeId ++ root pending.root ++
    optional (fun capability => capability.bytes.toList) pending.rootCapability ++ byteVec pending.fileReference ++
    i64 pending.oldUsn ++ string pending.previousRelativePath ++ boolean pending.isDirectory

/-- The proof of an outcome; one without a failure has its coverage. -/
def outcomeProof (outcome : SharedJournalRootOutcome) : List UInt8 :=
  match outcome.failure with
  | some failure => leBytes 2 (failureCode failure)
  | none => outcome.coveredUntilUsn.elim [] i64 ++ boolean outcome.isComplete ++ leBytes 4 outcome.candidates.length ++
      outcome.candidates.flatMap candidate

def outcome (outcome : SharedJournalRootOutcome) : List UInt8 :=
  binding outcome.binding ++ i64 outcome.requestedStartUsn ++ boolean outcome.failure.isSome ++ outcomeProof outcome

def handoff (handoff : SharedJournalHandoff) : List UInt8 :=
  binding handoff.previousBinding ++ binding handoff.currentBinding ++ byteVec handoff.fileReference ++ i64 handoff.usn ++
    string handoff.previousRelativePath ++ string handoff.currentRelativePath ++ boolean handoff.isDirectory ++
    optional string handoff.previousCarryId

def pendingRename (pending : SharedJournalPendingRename) : List UInt8 :=
  binding pending.binding ++ byteVec pending.fileReference ++ i64 pending.oldUsn ++ string pending.previousRelativePath ++
    boolean pending.isDirectory

def registerRootRequest (request : RegisterRootRequest) : List UInt8 :=
  caller request.caller ++ root request.root ++ leBytes 8 request.clientRootHandle ++ leBytes 4 request.timeoutMs

def queryJournalRequest (request : QueryJournalRequest) : List UInt8 :=
  caller request.caller ++ root request.root ++ request.rootCapability.bytes.toList ++ leBytes 4 request.timeoutMs

def readRangeRequest (request : ReadJournalRangeRequest) : List UInt8 :=
  caller request.caller ++ root request.root ++ request.rootCapability.bytes.toList ++ leBytes 8 request.journalId ++
    i64 request.startUsn ++ i64 request.endUsn ++ leBytes 4 request.maxRecords ++ leBytes 4 request.maxEvidenceBytes ++
    leBytes 4 request.timeoutMs

def readVolumeRequest (request : ReadJournalVolumeRequest) : List UInt8 :=
  caller request.caller ++ leBytes 1 request.roots.length ++ request.roots.flatMap rootRequest ++
    leBytes 2 request.pendingRenames.length ++ request.pendingRenames.flatMap pendingRequest ++
    leBytes 8 request.journalId ++ i64 request.endUsn ++ leBytes 4 request.maxRecords ++
    leBytes 4 request.maxEvidenceBytes ++ leBytes 4 request.timeoutMs

/-- The fields of a request after its header. -/
def requestFields : BrokerRequest → List UInt8
  | .registerRoot _ request => registerRootRequest request
  | .queryJournal _ request => queryJournalRequest request
  | .readRange _ request => readRangeRequest request
  | .readVolume _ request => readVolumeRequest request
  | .cancel _ claim targetRequestId => caller claim ++ leBytes 8 targetRequestId

/-- The fields of a response after its header. -/
def responseFields : BrokerResponse → List UInt8
  | .rootRegistered _ bound capability => binding bound ++ capability.bytes.toList
  | .journal _ bound capability journalId firstUsn nextUsn => binding bound ++ leBytes 1 (capabilityCode capability) ++
      optional (leBytes 8) journalId ++ optional i64 firstUsn ++ optional i64 nextUsn
  | .readRange _ bound journalId requestedStartUsn requestedEndUsn maxRecords maxEvidenceBytes coveredUntilUsn isComplete
      candidates =>
    binding bound ++ leBytes 8 journalId ++ i64 requestedStartUsn ++ i64 requestedEndUsn ++ leBytes 4 maxRecords ++
      leBytes 4 maxEvidenceBytes ++ i64 coveredUntilUsn ++ boolean isComplete ++ leBytes 4 candidates.length ++
      candidates.flatMap candidate
  | .readRangeAccepted _ bound journalId requestedStartUsn requestedEndUsn maxRecords maxEvidenceBytes =>
    binding bound ++ leBytes 8 journalId ++ i64 requestedStartUsn ++ i64 requestedEndUsn ++ leBytes 4 maxRecords ++
      leBytes 4 maxEvidenceBytes
  | .readVolumeAccepted _ clientInstance volumeId journalId requestedStartUsn requestedEndUsn rootCount maxRecords
      maxEvidenceBytes =>
    clientInstance.toList ++ string volumeId ++ leBytes 8 journalId ++ i64 requestedStartUsn ++ i64 requestedEndUsn ++
      leBytes 1 rootCount ++ leBytes 4 maxRecords ++ leBytes 4 maxEvidenceBytes
  | .readVolume _ clientInstance volumeId journalId requestedEndUsn maxRecords maxEvidenceBytes outcomes handoffs
      pendingRenames =>
    clientInstance.toList ++ string volumeId ++ leBytes 8 journalId ++ i64 requestedEndUsn ++ leBytes 4 maxRecords ++
      leBytes 4 maxEvidenceBytes ++ leBytes 1 outcomes.length ++ outcomes.flatMap outcome ++ leBytes 4 handoffs.length ++
      handoffs.flatMap handoff ++ leBytes 4 pendingRenames.length ++ pendingRenames.flatMap pendingRename
  | .cancelled _ clientInstance targetRequestId => clientInstance.toList ++ leBytes 8 targetRequestId
  | .failure _ clientInstance failure => optional Vector.toList clientInstance ++ leBytes 2 (failureCode failure)

/-- The kind of a request in its header. -/
def requestKind : BrokerRequest → Nat
  | .registerRoot .. => registerRootRequestKind
  | .queryJournal .. => queryRequestKind
  | .readRange .. => readRequestKind
  | .readVolume .. => readVolumeRequestKind
  | .cancel .. => cancelRequestKind

/-- The kind of a response in its header. -/
def responseKind : BrokerResponse → Nat
  | .rootRegistered .. => rootRegisteredResponseKind
  | .journal .. => journalResponseKind
  | .readRange .. => readResponseKind
  | .readRangeAccepted .. => readAcceptedResponseKind
  | .readVolumeAccepted .. => readVolumeAcceptedResponseKind
  | .readVolume .. => readVolumeResponseKind
  | .cancelled .. => cancelResponseKind
  | .failure .. => failureResponseKind

/-- A whole request. -/
def request (request : BrokerRequest) : List UInt8 :=
  header (requestKind request) request.requestId ++ requestFields request

/-- A whole response. -/
def response (response : BrokerResponse) : List UInt8 :=
  header (responseKind response) response.requestId ++ responseFields response

end Format

/-! ## What the reader accepts -/

def RootAuthorization.Fits (root : RootAuthorization) : Prop :=
  root.rootId.utf8ByteSize ≤ maxWireRootIdBytes ∧ root.InRange ∧ root.volumeId.utf8ByteSize ≤ maxVolumeIdBytes ∧
    root.rootIdentity.length ≤ 16 ∧ root.canonicalRootUtf16.length ≤ maxPathUtf16Units

def ResponseBinding.Fits (binding : ResponseBinding) : Prop :=
  binding.rootId.utf8ByteSize ≤ maxWireRootIdBytes ∧ binding.InRange ∧ binding.volumeId.utf8ByteSize ≤ maxVolumeIdBytes

def CandidateScope.Fits : CandidateScope → Prop
  | .root => True
  | .relativePath path => path.utf8ByteSize ≤ maxPathUtf16Units * 3

def BrokerCandidate.Fits (candidate : BrokerCandidate) : Prop :=
  candidate.scope.Fits ∧ (∀ scope ∈ candidate.previousScope, scope.Fits) ∧ candidate.fileReference.length ≤ 16 ∧
    candidate.InRange

def SharedJournalRootRequest.Fits (request : SharedJournalRootRequest) : Prop :=
  request.root.Fits ∧ Signed64 request.startUsn

def SharedJournalPendingRenameRequest.Fits (pending : SharedJournalPendingRenameRequest) : Prop :=
  pending.carryId.utf8ByteSize ≤ maxCarryIdBytes ∧ pending.sourceRangeId.utf8ByteSize ≤ maxCarryIdBytes ∧
    pending.root.Fits ∧ pending.fileReference.length ≤ 16 ∧ Signed64 pending.oldUsn ∧
    pending.previousRelativePath.utf8ByteSize ≤ maxPathUtf16Units * 4

/-- An outcome has a failure and nothing else, or coverage and candidates. -/
def SharedJournalRootOutcome.Fits (outcome : SharedJournalRootOutcome) : Prop :=
  outcome.binding.Fits ∧ Signed64 outcome.requestedStartUsn ∧
    match outcome.failure with
    | some _ => outcome.coveredUntilUsn = none ∧ outcome.isComplete = false ∧ outcome.candidates = []
    | none => (∃ covered, outcome.coveredUntilUsn = some covered ∧ Signed64 covered) ∧
        outcome.candidates.length < 2 ^ 32 ∧ ∀ candidate ∈ outcome.candidates, candidate.Fits

def SharedJournalHandoff.Fits (handoff : SharedJournalHandoff) : Prop :=
  handoff.previousBinding.Fits ∧ handoff.currentBinding.Fits ∧ handoff.fileReference.length ≤ 16 ∧ Signed64 handoff.usn ∧
    handoff.previousRelativePath.utf8ByteSize ≤ maxPathUtf16Units * 4 ∧
    handoff.currentRelativePath.utf8ByteSize ≤ maxPathUtf16Units * 4 ∧
    ∀ carryId ∈ handoff.previousCarryId, carryId.utf8ByteSize ≤ maxCarryIdBytes

def SharedJournalPendingRename.Fits (pending : SharedJournalPendingRename) : Prop :=
  pending.binding.Fits ∧ pending.fileReference.length ≤ 16 ∧ Signed64 pending.oldUsn ∧
    pending.previousRelativePath.utf8ByteSize ≤ maxPathUtf16Units * 4

def RegisterRootRequest.Fits (request : RegisterRootRequest) : Prop :=
  request.caller.InRange ∧ request.root.Fits ∧ request.clientRootHandle < 2 ^ 64 ∧ request.timeoutMs < 2 ^ 32

def QueryJournalRequest.Fits (request : QueryJournalRequest) : Prop :=
  request.caller.InRange ∧ request.root.Fits ∧ request.timeoutMs < 2 ^ 32

def ReadJournalRangeRequest.Fits (request : ReadJournalRangeRequest) : Prop :=
  request.caller.InRange ∧ request.root.Fits ∧ request.journalId < 2 ^ 64 ∧ Signed64 request.startUsn ∧
    Signed64 request.endUsn ∧ request.maxRecords < 2 ^ 32 ∧ request.maxEvidenceBytes < 2 ^ 32 ∧ request.timeoutMs < 2 ^ 32

def ReadJournalVolumeRequest.Fits (request : ReadJournalVolumeRequest) : Prop :=
  request.caller.InRange ∧ isBetweenOneAnd maxSharedRoots request.roots.length = true ∧
    (∀ root ∈ request.roots, root.Fits) ∧ request.pendingRenames.length ≤ maxSharedPendingRenames ∧
    (∀ pending ∈ request.pendingRenames, pending.Fits) ∧ request.journalId < 2 ^ 64 ∧ Signed64 request.endUsn ∧
    request.maxRecords < 2 ^ 32 ∧ request.maxEvidenceBytes < 2 ^ 32 ∧ request.timeoutMs < 2 ^ 32

def BrokerRequest.Fits : BrokerRequest → Prop
  | .registerRoot _ request => request.Fits
  | .queryJournal _ request => request.Fits
  | .readRange _ request => request.Fits
  | .readVolume _ request => request.Fits
  | .cancel _ caller targetRequestId => caller.InRange ∧ targetRequestId < 2 ^ 64

def BrokerResponse.Fits : BrokerResponse → Prop
  | .rootRegistered _ binding _ => binding.Fits
  | .journal _ binding _ journalId firstUsn nextUsn => binding.Fits ∧ (∀ value ∈ journalId, value < 2 ^ 64) ∧
      (∀ value ∈ firstUsn, Signed64 value) ∧ ∀ value ∈ nextUsn, Signed64 value
  | .readRangeAccepted _ binding journalId requestedStartUsn requestedEndUsn maxRecords maxEvidenceBytes =>
    binding.Fits ∧ journalId < 2 ^ 64 ∧ Signed64 requestedStartUsn ∧ Signed64 requestedEndUsn ∧ maxRecords < 2 ^ 32 ∧
      maxEvidenceBytes < 2 ^ 32
  | .readVolumeAccepted _ _ volumeId journalId requestedStartUsn requestedEndUsn rootCount maxRecords maxEvidenceBytes =>
    volumeId.utf8ByteSize ≤ maxVolumeIdBytes ∧ journalId < 2 ^ 64 ∧ Signed64 requestedStartUsn ∧
      Signed64 requestedEndUsn ∧ rootCount < 2 ^ 8 ∧ maxRecords < 2 ^ 32 ∧ maxEvidenceBytes < 2 ^ 32
  | .readVolume _ _ volumeId journalId requestedEndUsn maxRecords maxEvidenceBytes outcomes handoffs pendingRenames =>
    volumeId.utf8ByteSize ≤ maxVolumeIdBytes ∧ journalId < 2 ^ 64 ∧ Signed64 requestedEndUsn ∧ maxRecords < 2 ^ 32 ∧
      maxEvidenceBytes < 2 ^ 32 ∧ isBetweenOneAnd maxSharedRoots outcomes.length = true ∧
      (∀ outcome ∈ outcomes, outcome.Fits) ∧ handoffs.length ≤ maxSharedHandoffs ∧ (∀ handoff ∈ handoffs, handoff.Fits) ∧
      pendingRenames.length ≤ maxSharedPendingRenames ∧ ∀ pending ∈ pendingRenames, pending.Fits
  | .readRange _ binding journalId requestedStartUsn requestedEndUsn maxRecords maxEvidenceBytes coveredUntilUsn _ candidates =>
    binding.Fits ∧ journalId < 2 ^ 64 ∧ Signed64 requestedStartUsn ∧ Signed64 requestedEndUsn ∧ maxRecords < 2 ^ 32 ∧
      maxEvidenceBytes < 2 ^ 32 ∧ Signed64 coveredUntilUsn ∧ candidates.length ≤ maxRecordsLimit ∧
      ∀ candidate ∈ candidates, candidate.Fits
  | .cancelled _ _ targetRequestId => targetRequestId < 2 ^ 64
  | .failure .. => True

/-- The sums that the reader keeps within the limits of a message. -/
def BrokerResponse.Bounded : BrokerResponse → Prop
  | .readVolume _ _ _ _ _ _ _ outcomes handoffs pendingRenames =>
    totalRecords outcomes handoffs pendingRenames ≤ maxRecordsLimit ∧
      totalEvidence outcomes handoffs pendingRenames ≤ maxEvidenceBytesLimit
  | .readRange _ _ _ _ _ _ _ _ _ candidates => candidateEvidence candidates ≤ maxEvidenceBytesLimit
  | _ => True

end Ame
