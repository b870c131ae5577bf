import Ame.Broker.Message

/-!
# The codec of the journal broker (`journal_broker/wire/codec.rs`)

A message is a header (magic, version, kind, number of the request) and the fields of its kind one after the other. Writing
appends to the bytes written so far; reading takes from the front of the bytes that are left. Numbers are little-endian,
lists and texts are preceded by their lengths.
-/

namespace Ame

open Binary

/-- The magic of a version of the protocol, `b"AMEJNL?\0"`. -/
def magicOf (digit : UInt8) : List UInt8 := [65, 77, 69, 74, 78, 76, digit, 0]

/-- `PROTOCOL_MAGIC` -/
def protocolMagic : List UInt8 := magicOf 53

/-- `LEGACY_PROTOCOL_MAGIC_V1` to `LEGACY_PROTOCOL_MAGIC_V4` -/
def legacyProtocolMagics : List (List UInt8) := [magicOf 49, magicOf 50, magicOf 51, magicOf 52]

def registerRootRequestKind : Nat := 4
def readVolumeRequestKind : Nat := 5
def queryRequestKind : Nat := 1
def readRequestKind : Nat := 2
def cancelRequestKind : Nat := 3
def journalResponseKind : Nat := 0x8001
def readResponseKind : Nat := 0x8002
def cancelResponseKind : Nat := 0x8003
def readAcceptedResponseKind : Nat := 0x8004
def rootRegisteredResponseKind : Nat := 0x8005
def readVolumeResponseKind : Nat := 0x8006
def readVolumeAcceptedResponseKind : Nat := 0x8007
def failureResponseKind : Nat := 0x8fff

/-! ## Codes -/

/-- `capability_code` -/
def capabilityCode : JournalCapability → Nat
  | .supported => 1
  | .liveOnly => 2

/-- `decode_capability` -/
def decodeCapability : Nat → Except WireError JournalCapability
  | 1 => .ok .supported
  | 2 => .ok .liveOnly
  | _ => .error (.invalidValue "journal_capability")

/-- `candidate_kind_code` -/
def candidateKindCode : CandidateKind → Nat
  | .path => 1
  | .subtree => 2
  | .rename => 3

/-- `decode_candidate_kind` -/
def decodeCandidateKind : Nat → Except WireError CandidateKind
  | 1 => .ok .path
  | 2 => .ok .subtree
  | 3 => .ok .rename
  | _ => .error (.invalidValue "candidate_kind")

/-- `failure_code` -/
def failureCode : BrokerFailureCode → Nat
  | .protocolMismatch => 1
  | .malformedFrame => 2
  | .requestTooLarge => 3
  | .callerRejected => 4
  | .rootUnauthorized => 5
  | .rootIdentityMismatch => 6
  | .volumeMismatch => 7
  | .journalUnavailable => 8
  | .journalDiscontinuous => 9
  | .recordUnsupported => 10
  | .evidenceLimitExceeded => 11
  | .timedOut => 12
  | .cancelled => 13
  | .requestNotActive => 14
  | .activeLimitExceeded => 15
  | .backendUnavailable => 16
  | .internal => 17
  | .terminalDeliveryBackpressure => 18

/-- `decode_failure_code` -/
def decodeFailureCode : Nat → Except WireError BrokerFailureCode
  | 1 => .ok .protocolMismatch
  | 2 => .ok .malformedFrame
  | 3 => .ok .requestTooLarge
  | 4 => .ok .callerRejected
  | 5 => .ok .rootUnauthorized
  | 6 => .ok .rootIdentityMismatch
  | 7 => .ok .volumeMismatch
  | 8 => .ok .journalUnavailable
  | 9 => .ok .journalDiscontinuous
  | 10 => .ok .recordUnsupported
  | 11 => .ok .evidenceLimitExceeded
  | 12 => .ok .timedOut
  | 13 => .ok .cancelled
  | 14 => .ok .requestNotActive
  | 15 => .ok .activeLimitExceeded
  | 16 => .ok .backendUnavailable
  | 17 => .ok .internal
  | 18 => .ok .terminalDeliveryBackpressure
  | _ => .error (.invalidValue "failure_code")

/-! ## Writing -/

/-- The bytes of a string. -/
def utf8Bytes (s : String) : List UInt8 := s.toByteArray.data.toList

/-- Writing and reading one message. -/
abbrev WireStream := ByteStream WireError

namespace Writer

/-- A number of so many bytes. -/
def unsigned (width value : Nat) : WireStream Unit := append (leBytes width value)

def u8 (value : Nat) : WireStream Unit := unsigned 1 value
def u16 (value : Nat) : WireStream Unit := unsigned 2 value
def u32 (value : Nat) : WireStream Unit := unsigned 4 value
def u64 (value : Nat) : WireStream Unit := unsigned 8 value
def i64 (value : Int) : WireStream Unit := unsigned 8 (toUnsigned64 value)
def bytes (value : List UInt8) : WireStream Unit := append value
def boolean (value : Bool) : WireStream Unit := u8 value.toNat

/-- A length that must fit its number of bytes: `try_from(length).map_err(|_| WireError::LengthOverflow)`. -/
def length (width value : Nat) : WireStream Unit := do
  lift (require (decide (value < 256 ^ width)) .lengthOverflow)
  unsigned width value

def byteVec (value : List UInt8) : WireStream Unit := do
  length 4 value.length
  bytes value

def string (value : String) : WireStream Unit := byteVec (utf8Bytes value)

def utf16 (value : List UInt16) : WireStream Unit := do
  length 4 value.length
  value.forM fun unit => u16 unit.toNat

/-- The form of every optional field: whether it is there, and then the field. -/
def optional {α : Type} (write : α → WireStream Unit) (value : Option α) : WireStream Unit := do
  boolean value.isSome
  value.elim (pure ()) write

def optionalU64 (value : Option Nat) : WireStream Unit := optional u64 value
def optionalI64 (value : Option Int) : WireStream Unit := optional i64 value

def header (kind requestId : Nat) : WireStream Unit := do
  bytes protocolMagic
  u16 protocolVersion
  u16 kind
  u64 requestId

def caller (caller : CallerClaim) : WireStream Unit := do
  u32 caller.processId
  u32 caller.sessionId
  bytes caller.clientInstance.toList

def root (root : RootAuthorization) : WireStream Unit := do
  string root.rootId
  u64 root.rootGeneration
  string root.volumeId
  byteVec root.rootIdentity
  utf16 root.canonicalRootUtf16

def binding (binding : ResponseBinding) : WireStream Unit := do
  bytes binding.clientInstance.toList
  string binding.rootId
  u64 binding.rootGeneration
  string binding.volumeId

def rootCapability (capability : RootCapability) : WireStream Unit := bytes capability.bytes.toList

def scope : CandidateScope → WireStream Unit
  | .root => u8 0
  | .relativePath path => do
    u8 1
    string path

def candidate (candidate : BrokerCandidate) : WireStream Unit := do
  scope candidate.scope
  optional scope candidate.previousScope
  byteVec candidate.fileReference
  i64 candidate.usn
  u8 (candidateKindCode candidate.kind)
  boolean candidate.isDirectory

/-- One root of a `ReadVolume` request. -/
def rootRequest (request : SharedJournalRootRequest) : WireStream Unit := do
  root request.root
  rootCapability request.rootCapability
  i64 request.startUsn

/-- One old name of a `ReadVolume` request. -/
def pendingRequest (pending : SharedJournalPendingRenameRequest) : WireStream Unit := do
  string pending.carryId
  string pending.sourceRangeId
  root pending.root
  optional rootCapability pending.rootCapability
  byteVec pending.fileReference
  i64 pending.oldUsn
  string pending.previousRelativePath
  boolean pending.isDirectory

/-- What a root outcome proves: its failure, or its coverage and candidates. -/
def outcomeProof (outcome : SharedJournalRootOutcome) : WireStream Unit :=
  match outcome.failure with
  | some failure => u16 (failureCode failure)
  | none => do
    outcome.coveredUntilUsn.elim (lift (.error (.invalidValue "shared_root_proof"))) i64
    boolean outcome.isComplete
    length 4 outcome.candidates.length
    outcome.candidates.forM candidate

/-- One root outcome of a `ReadVolume` response. -/
def outcome (outcome : SharedJournalRootOutcome) : WireStream Unit := do
  binding outcome.binding
  i64 outcome.requestedStartUsn
  boolean outcome.failure.isSome
  outcomeProof outcome

/-- One handoff of a `ReadVolume` response. -/
def handoff (handoff : SharedJournalHandoff) : WireStream Unit := do
  binding handoff.previousBinding
  binding handoff.currentBinding
  byteVec handoff.fileReference
  i64 handoff.usn
  string handoff.previousRelativePath
  string handoff.currentRelativePath
  boolean handoff.isDirectory
  optional string handoff.previousCarryId

/-- One old name of a `ReadVolume` response. -/
def pendingRename (pending : SharedJournalPendingRename) : WireStream Unit := do
  binding pending.binding
  byteVec pending.fileReference
  i64 pending.oldUsn
  string pending.previousRelativePath
  boolean pending.isDirectory

/-- `encode_request` after the checks. -/
def request : BrokerRequest → WireStream Unit
  | .registerRoot requestId request => do
    header registerRootRequestKind requestId
    caller request.caller
    root request.root
    u64 request.clientRootHandle
    u32 request.timeoutMs
  | .queryJournal requestId request => do
    header queryRequestKind requestId
    caller request.caller
    root request.root
    rootCapability request.rootCapability
    u32 request.timeoutMs
  | .readRange requestId request => do
    header readRequestKind requestId
    caller request.caller
    root request.root
    rootCapability request.rootCapability
    u64 request.journalId
    i64 request.startUsn
    i64 request.endUsn
    u32 request.maxRecords
    u32 request.maxEvidenceBytes
    u32 request.timeoutMs
  | .readVolume requestId request => do
    header readVolumeRequestKind requestId
    caller request.caller
    length 1 request.roots.length
    request.roots.forM rootRequest
    length 2 request.pendingRenames.length
    request.pendingRenames.forM pendingRequest
    u64 request.journalId
    i64 request.endUsn
    u32 request.maxRecords
    u32 request.maxEvidenceBytes
    u32 request.timeoutMs
  | .cancel requestId claim targetRequestId => do
    header cancelRequestKind requestId
    caller claim
    u64 targetRequestId

/-- `encode_response` after the check. -/
def response : BrokerResponse → WireStream Unit
  | .rootRegistered requestId bound capability => do
    header rootRegisteredResponseKind requestId
    binding bound
    rootCapability capability
  | .journal requestId bound capability journalId firstUsn nextUsn => do
    header journalResponseKind requestId
    binding bound
    u8 (capabilityCode capability)
    optionalU64 journalId
    optionalI64 firstUsn
    optionalI64 nextUsn
  | .readRange requestId bound journalId requestedStartUsn requestedEndUsn maxRecords maxEvidenceBytes coveredUntilUsn
      isComplete candidates => do
    header readResponseKind requestId
    binding bound
    u64 journalId
    i64 requestedStartUsn
    i64 requestedEndUsn
    u32 maxRecords
    u32 maxEvidenceBytes
    i64 coveredUntilUsn
    boolean isComplete
    length 4 candidates.length
    candidates.forM candidate
  | .readRangeAccepted requestId bound journalId requestedStartUsn requestedEndUsn maxRecords maxEvidenceBytes => do
    header readAcceptedResponseKind requestId
    binding bound
    u64 journalId
    i64 requestedStartUsn
    i64 requestedEndUsn
    u32 maxRecords
    u32 maxEvidenceBytes
  | .readVolumeAccepted requestId clientInstance volumeId journalId requestedStartUsn requestedEndUsn rootCount maxRecords
      maxEvidenceBytes => do
    header readVolumeAcceptedResponseKind requestId
    bytes clientInstance.toList
    string volumeId
    u64 journalId
    i64 requestedStartUsn
    i64 requestedEndUsn
    u8 rootCount
    u32 maxRecords
    u32 maxEvidenceBytes
  | .readVolume requestId clientInstance volumeId journalId requestedEndUsn maxRecords maxEvidenceBytes outcomes handoffs
      pendingRenames => do
    header readVolumeResponseKind requestId
    bytes clientInstance.toList
    string volumeId
    u64 journalId
    i64 requestedEndUsn
    u32 maxRecords
    u32 maxEvidenceBytes
    length 1 outcomes.length
    outcomes.forM outcome
    length 4 handoffs.length
    handoffs.forM handoff
    length 4 pendingRenames.length
    pendingRenames.forM pendingRename
  | .cancelled requestId clientInstance targetRequestId => do
    header cancelResponseKind requestId
    bytes clientInstance.toList
    u64 targetRequestId
  | .failure requestId clientInstance failure => do
    header failureResponseKind requestId
    optional (fun value => bytes value.toList) clientInstance
    u16 (failureCode failure)

end Writer

/-- `encode_request` -/
def encodeRequest (request : BrokerRequest) : Except WireError (List UInt8) := do
  require (request.requestId != 0) (.invalidValue "request_id")
  request.validate
  let (_, bytes) ← (Writer.request request).run []
  return bytes

/-- `encode_response` -/
def encodeResponse (response : BrokerResponse) : Except WireError (List UInt8) := do
  validateResponse response
  let (_, bytes) ← (Writer.response response).run []
  return bytes

/-! ## Reading -/

/-- `String::from_utf8` -/
def ofUtf8 (bytes : List UInt8) : Option String := String.fromUTF8? ⟨bytes.toArray⟩

/-- The 16-bit units of bytes, two each. -/
def unitsOfBytes : List UInt8 → List UInt16
  | low :: high :: rest => UInt16.ofNat (ofLeBytes [low, high]) :: unitsOfBytes rest
  | _ => []

/-- `evidence` of a reading loop: the sum so far and one more record, up to the limit of a message. -/
def addEvidence (evidence size : Nat) : Except WireError Nat :=
  if maxEvidenceBytesLimit < evidence + size then .error .lengthExceeded else .ok (evidence + size)

/-- `total_records` of a reading loop, with more records. -/
def addRecords (records more : Nat) : Except WireError Nat :=
  if maxRecordsLimit < records + more then .error .lengthExceeded else .ok (records + more)

namespace Reader

def unsigned (width : Nat) : WireStream Nat := do
  let bytes ← take .unexpectedEnd width
  return ofLeBytes bytes

def u8 : WireStream Nat := unsigned 1
def u16 : WireStream Nat := unsigned 2
def u32 : WireStream Nat := unsigned 4
def u64 : WireStream Nat := unsigned 8

def i64 : WireStream Int := do
  let value ← unsigned 8
  return ofUnsigned64 value

/-- `match self.u8()? { 0 => Ok(false), 1 => Ok(true), _ => .. }` -/
def decodeBoolean : Nat → Except WireError Bool
  | 0 => .ok false
  | 1 => .ok true
  | _ => .error (.invalidValue "boolean")

def boolean : WireStream Bool := do
  let value ← u8
  lift (decodeBoolean value)

/-- `array_16` and `array_32` -/
def array (n : Nat) : WireStream (Vector UInt8 n) := do
  let bytes ← take .unexpectedEnd n
  if h : bytes.length = n then return ⟨bytes.toArray, by simp [h]⟩ else lift (.error .unexpectedEnd)

def byteVec (maximum : Nat) : WireStream (List UInt8) := do
  let length ← u32
  lift (require (decide (length ≤ maximum)) .lengthExceeded)
  take .unexpectedEnd length

def string (maximum : Nat) : WireStream String := do
  let bytes ← byteVec maximum
  lift ((ofUtf8 bytes).elim (.error .invalidUtf8) .ok)

def utf16 (maximum : Nat) : WireStream (List UInt16) := do
  let length ← u32
  lift (require (decide (length ≤ maximum)) .lengthExceeded)
  let bytes ← take .unexpectedEnd (length * 2)
  return unitsOfBytes bytes

/-- `self.boolean()?.then(|| read).transpose()?` -/
def optional {α : Type} (read : WireStream α) : WireStream (Option α) := do
  let present ← boolean
  if present then
    let value ← read
    return some value
  else return none

def optionalU64 : WireStream (Option Nat) := optional u64
def optionalI64 : WireStream (Option Int) := optional i64

def caller : WireStream CallerClaim := do
  let processId ← u32
  let sessionId ← u32
  let clientInstance ← array 16
  return ⟨processId, sessionId, clientInstance⟩

def root : WireStream RootAuthorization := do
  let rootId ← string maxWireRootIdBytes
  let rootGeneration ← u64
  let volumeId ← string maxVolumeIdBytes
  let rootIdentity ← byteVec 16
  let canonicalRootUtf16 ← utf16 maxPathUtf16Units
  return ⟨rootId, rootGeneration, volumeId, rootIdentity, canonicalRootUtf16⟩

def binding : WireStream ResponseBinding := do
  let clientInstance ← array 16
  let rootId ← string maxWireRootIdBytes
  let rootGeneration ← u64
  let volumeId ← string maxVolumeIdBytes
  return ⟨clientInstance, rootId, rootGeneration, volumeId⟩

def rootCapability : WireStream RootCapability := do
  let bytes ← array 32
  return ⟨bytes⟩

/-- The rest of a scope after its tag. -/
def scopeOf : Nat → WireStream CandidateScope
  | 0 => return .root
  | 1 => do
    let path ← string (maxPathUtf16Units * 3)
    return .relativePath path
  | _ => lift (.error (.invalidValue "candidate_scope"))

def scope : WireStream CandidateScope := do
  let tag ← u8
  scopeOf tag

def candidateKind : WireStream CandidateKind := do
  let code ← u8
  lift (decodeCandidateKind code)

def candidate : WireStream BrokerCandidate := do
  let current ← scope
  let previousScope ← optional scope
  let fileReference ← byteVec 16
  let usn ← i64
  let kind ← candidateKind
  let isDirectory ← boolean
  return ⟨current, previousScope, fileReference, usn, kind, isDirectory⟩

def rootRequest : WireStream SharedJournalRootRequest := do
  let authorization ← root
  let capability ← rootCapability
  let startUsn ← i64
  return ⟨authorization, capability, startUsn⟩

def pendingRequest : WireStream SharedJournalPendingRenameRequest := do
  let carryId ← string maxCarryIdBytes
  let sourceRangeId ← string maxCarryIdBytes
  let authorization ← root
  let capability ← optional rootCapability
  let fileReference ← byteVec 16
  let oldUsn ← i64
  let previousRelativePath ← string (maxPathUtf16Units * 4)
  let isDirectory ← boolean
  return ⟨carryId, sourceRangeId, authorization, capability, fileReference, oldUsn, previousRelativePath, isDirectory⟩

def failure : WireStream BrokerFailureCode := do
  let code ← u16
  lift (decodeFailureCode code)

def capability : WireStream JournalCapability := do
  let code ← u8
  lift (decodeCapability code)

/-- One round of the loop over the candidates of a page or an outcome, with the evidence so far. -/
def nextCandidate (evidence : Nat) : WireStream (BrokerCandidate × Nat) := do
  let found ← candidate
  let evidence ← lift (addEvidence evidence found.evidenceBytes)
  return (found, evidence)

/-- The records and the evidence that a reading loop has counted. -/
structure Totals where
  records : Nat
  evidence : Nat
  deriving DecidableEq, Repr

/-- What a root outcome proves, with what has been counted so far. -/
def outcomeProof (bound : ResponseBinding) (requestedStartUsn : Int) (hasFailure : Bool) (totals : Totals) :
    WireStream (SharedJournalRootOutcome × Totals) :=
  if hasFailure then do
    let code ← failure
    return (⟨bound, requestedStartUsn, none, false, [], some code⟩, totals)
  else do
    let covered ← i64
    let isComplete ← boolean
    let count ← u32
    let records ← lift (addRecords totals.records count)
    let (found, evidence) ← manyFrom nextCandidate count totals.evidence
    return (⟨bound, requestedStartUsn, some covered, isComplete, found, none⟩, ⟨records, evidence⟩)

/-- One round of the loop over the outcomes of a `ReadVolume` response. -/
def nextOutcome (totals : Totals) : WireStream (SharedJournalRootOutcome × Totals) := do
  let bound ← binding
  let requestedStartUsn ← i64
  let hasFailure ← boolean
  outcomeProof bound requestedStartUsn hasFailure totals

def handoff : WireStream SharedJournalHandoff := do
  let previousBinding ← binding
  let currentBinding ← binding
  let fileReference ← byteVec 16
  let usn ← i64
  let previousRelativePath ← string (maxPathUtf16Units * 4)
  let currentRelativePath ← string (maxPathUtf16Units * 4)
  let isDirectory ← boolean
  let previousCarryId ← optional (string maxCarryIdBytes)
  return ⟨previousBinding, currentBinding, fileReference, usn, previousRelativePath, currentRelativePath, isDirectory,
    previousCarryId⟩

def pendingRename : WireStream SharedJournalPendingRename := do
  let bound ← binding
  let fileReference ← byteVec 16
  let oldUsn ← i64
  let previousRelativePath ← string (maxPathUtf16Units * 4)
  let isDirectory ← boolean
  return ⟨bound, fileReference, oldUsn, previousRelativePath, isDirectory⟩

/-- One round of the loops over handoffs and old names: each is one record. -/
def nextRecord {α : Type} (read : WireStream α) (size : α → Nat) (totals : Totals) : WireStream (α × Totals) := do
  let found ← read
  let evidence ← lift (addEvidence totals.evidence (size found))
  let records ← lift (addRecords totals.records 1)
  return (found, ⟨records, evidence⟩)

/-- A length that is at most a limit. -/
def boundedLength (maximum : Nat) : WireStream Nat := do
  let length ← u32
  lift (require (decide (length ≤ maximum)) .lengthExceeded)
  return length

def registerRootRequest : WireStream RegisterRootRequest := do
  let claim ← caller
  let authorization ← root
  let clientRootHandle ← u64
  let timeoutMs ← u32
  return ⟨claim, authorization, clientRootHandle, timeoutMs⟩

def queryJournalRequest : WireStream QueryJournalRequest := do
  let claim ← caller
  let authorization ← root
  let capability ← rootCapability
  let timeoutMs ← u32
  return ⟨claim, authorization, capability, timeoutMs⟩

def readRangeRequest : WireStream ReadJournalRangeRequest := do
  let claim ← caller
  let authorization ← root
  let capability ← rootCapability
  let journalId ← u64
  let startUsn ← i64
  let endUsn ← i64
  let maxRecords ← u32
  let maxEvidenceBytes ← u32
  let timeoutMs ← u32
  return ⟨claim, authorization, capability, journalId, startUsn, endUsn, maxRecords, maxEvidenceBytes, timeoutMs⟩

def readVolumeRequest : WireStream ReadJournalVolumeRequest := do
  let claim ← caller
  let count ← u8
  lift (require (isBetweenOneAnd maxSharedRoots count) .lengthExceeded)
  let roots ← many rootRequest count
  let pendingCount ← u16
  lift (require (decide (pendingCount ≤ maxSharedPendingRenames)) .lengthExceeded)
  let pendingRenames ← many pendingRequest pendingCount
  let journalId ← u64
  let endUsn ← i64
  let maxRecords ← u32
  let maxEvidenceBytes ← u32
  let timeoutMs ← u32
  return ⟨claim, roots, pendingRenames, journalId, endUsn, maxRecords, maxEvidenceBytes, timeoutMs⟩

/-- `decode_request` after the header, by the kind. -/
def request (kind requestId : Nat) : WireStream BrokerRequest :=
  if kind = registerRootRequestKind then do
    let request ← registerRootRequest
    return .registerRoot requestId request
  else if kind = queryRequestKind then do
    let request ← queryJournalRequest
    return .queryJournal requestId request
  else if kind = readRequestKind then do
    let request ← readRangeRequest
    return .readRange requestId request
  else if kind = readVolumeRequestKind then do
    let request ← readVolumeRequest
    return .readVolume requestId request
  else if kind = cancelRequestKind then do
    let claim ← caller
    let targetRequestId ← u64
    return .cancel requestId claim targetRequestId
  else lift (.error (.unknownKind kind))

section

variable (requestId : Nat)

def rootRegisteredResponse : WireStream BrokerResponse := do
  let bound ← binding
  let capability ← rootCapability
  return .rootRegistered requestId bound capability

def journalResponse : WireStream BrokerResponse := do
  let bound ← binding
  let supported ← capability
  let journalId ← optionalU64
  let firstUsn ← optionalI64
  let nextUsn ← optionalI64
  return .journal requestId bound supported journalId firstUsn nextUsn

def readAcceptedResponse : WireStream BrokerResponse := do
  let bound ← binding
  let journalId ← u64
  let requestedStartUsn ← i64
  let requestedEndUsn ← i64
  let maxRecords ← u32
  let maxEvidenceBytes ← u32
  return .readRangeAccepted requestId bound journalId requestedStartUsn requestedEndUsn maxRecords maxEvidenceBytes

def readVolumeAcceptedResponse : WireStream BrokerResponse := do
  let clientInstance ← array 16
  let volumeId ← string maxVolumeIdBytes
  let journalId ← u64
  let requestedStartUsn ← i64
  let requestedEndUsn ← i64
  let rootCount ← u8
  let maxRecords ← u32
  let maxEvidenceBytes ← u32
  return .readVolumeAccepted requestId clientInstance volumeId journalId requestedStartUsn requestedEndUsn rootCount
    maxRecords maxEvidenceBytes

def cancelResponse : WireStream BrokerResponse := do
  let clientInstance ← array 16
  let targetRequestId ← u64
  return .cancelled requestId clientInstance targetRequestId

def failureResponse : WireStream BrokerResponse := do
  let clientInstance ← optional (array 16)
  let code ← failure
  return .failure requestId clientInstance code

def readRangeResponse : WireStream BrokerResponse := do
  let bound ← binding
  let journalId ← u64
  let requestedStartUsn ← i64
  let requestedEndUsn ← i64
  let maxRecords ← u32
  let maxEvidenceBytes ← u32
  let coveredUntilUsn ← i64
  let isComplete ← boolean
  let count ← boundedLength maxRecordsLimit
  let (found, _) ← manyFrom nextCandidate count 0
  return .readRange requestId bound journalId requestedStartUsn requestedEndUsn maxRecords maxEvidenceBytes coveredUntilUsn
    isComplete found

def readVolumeResponse : WireStream BrokerResponse := do
  let clientInstance ← array 16
  let volumeId ← string maxVolumeIdBytes
  let journalId ← u64
  let requestedEndUsn ← i64
  let maxRecords ← u32
  let maxEvidenceBytes ← u32
  let count ← u8
  lift (require (isBetweenOneAnd maxSharedRoots count) .lengthExceeded)
  let (found, totals) ← manyFrom nextOutcome count ⟨0, 0⟩
  let handoffCount ← boundedLength maxSharedHandoffs
  let (handoffs, totals) ← manyFrom (nextRecord handoff SharedJournalHandoff.evidenceBytes) handoffCount totals
  let pendingCount ← boundedLength maxSharedPendingRenames
  let (pendingRenames, _) ← manyFrom (nextRecord pendingRename SharedJournalPendingRename.evidenceBytes) pendingCount totals
  return .readVolume requestId clientInstance volumeId journalId requestedEndUsn maxRecords maxEvidenceBytes found handoffs
    pendingRenames

end

/-- `decode_response` after the header, by the kind. -/
def response (kind requestId : Nat) : WireStream BrokerResponse :=
  if kind = rootRegisteredResponseKind then rootRegisteredResponse requestId
  else if kind = journalResponseKind then journalResponse requestId
  else if kind = readResponseKind then readRangeResponse requestId
  else if kind = readAcceptedResponseKind then readAcceptedResponse requestId
  else if kind = readVolumeAcceptedResponseKind then readVolumeAcceptedResponse requestId
  else if kind = readVolumeResponseKind then readVolumeResponse requestId
  else if kind = cancelResponseKind then cancelResponse requestId
  else if kind = failureResponseKind then failureResponse requestId
  else lift (.error (.unknownKind kind))

end Reader

/-! ## The header -/

/-- `InspectedRequestHeader` -/
structure InspectedRequestHeader where
  requestId : Nat
  version : Nat
  isCurrentMagic : Bool
  deriving DecidableEq, Repr

/-- `read_u16_at` and `read_u64_at` -/
def readAt (payload : List UInt8) (offset width : Nat) : Except WireError Nat :=
  if offset + width ≤ payload.length then .ok (ofLeBytes ((payload.drop offset).take width)) else .error .unexpectedEnd

/-- `inspect_request_header` -/
def inspectRequestHeader (payload : List UInt8) : Except WireError InspectedRequestHeader := do
  require (decide (8 ≤ payload.length)) .invalidMagic
  let magic := payload.take 8
  require (magic == protocolMagic || legacyProtocolMagics.contains magic) .invalidMagic
  let version ← readAt payload 8 2
  let requestId ← readAt payload 12 8
  return ⟨requestId, version, magic == protocolMagic⟩

/-- The number of bytes of a header. -/
def headerLength : Nat := 20

/-- `Reader::finish` -/
def finish (rest : List UInt8) : Except WireError Unit := require rest.isEmpty .trailingBytes

/-- `decode_request` -/
def decodeRequest (payload : List UInt8) : Except WireError BrokerRequest := do
  let header ← inspectRequestHeader payload
  require header.isCurrentMagic (.unsupportedVersion header.version)
  require (header.requestId != 0) (.invalidValue "request_id")
  require (header.version == protocolVersion) (.unsupportedVersion header.version)
  let kind ← readAt payload 10 2
  let (request, rest) ← (Reader.request kind header.requestId).run (payload.drop headerLength)
  finish rest
  request.validate
  return request

/-- `decode_response` -/
def decodeResponse (payload : List UInt8) : Except WireError BrokerResponse := do
  let header ← inspectRequestHeader payload
  require header.isCurrentMagic (.unsupportedVersion header.version)
  require (header.version == protocolVersion) (.unsupportedVersion header.version)
  let kind ← readAt payload 10 2
  let (response, rest) ← (Reader.response kind header.requestId).run (payload.drop headerLength)
  finish rest
  validateResponse response
  return response

end Ame
