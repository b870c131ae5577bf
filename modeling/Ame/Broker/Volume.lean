import Ame.Broker.Message
import Ame.Broker.Registry
import Ame.Broker.Usn

/-!
# A shared read of a volume (`journal_broker/service.rs`)

A client asks for what the journal of a volume shows about several roots at once. The broker authorizes each root, reads one
page for those it admits, and answers with an outcome a root, the files that moved between roots (handoffs) and the old names
whose new name is not known yet. A root that fails on the way takes back what the page says about renames from its barrier on:
the other roots are then covered up to the lowest barrier only.

The authorizer, the backend and the clock are the host. What a host answers may change from one call to the next, so each call
names the place in the read where it is made, and no two calls of a read share one.
-/

namespace Ame

open Binary

/-! ## What the host answers (`service/contracts.rs`) -/

/-- `AuthorizerError` -/
inductive AuthorizerError where
  | callerRejected
  | rootUnauthorized
  | rootIdentityMismatch
  | unsupportedFilesystem
  deriving DecidableEq, Repr

/-- `map_authorizer_failure` -/
def mapAuthorizerFailure : AuthorizerError → BrokerFailureCode
  | .callerRejected => .callerRejected
  | .rootUnauthorized => .rootUnauthorized
  | .rootIdentityMismatch => .rootIdentityMismatch
  | .unsupportedFilesystem => .journalUnavailable

/-- `map_backend_failure` -/
def mapBackendFailure : BackendError → BrokerFailureCode
  | .rootUnavailable => .rootIdentityMismatch
  | .journalUnavailable => .journalUnavailable
  | .journalDiscontinuous => .journalDiscontinuous
  | .volumeMismatch => .volumeMismatch
  | .recordUnsupported => .recordUnsupported
  | .evidenceLimitExceeded => .evidenceLimitExceeded
  | .timedOut => .timedOut
  | .cancelled => .cancelled
  | .unavailable => .backendUnavailable

/-- `CallerAuthorization` -/
structure CallerAuthorization where
  connectionId : BitVec 128
  connectionGeneration : UInt64
  clientInstance : BitVec 128
  opaqueNamespace : BitVec 256
  deriving DecidableEq, Repr

/-- `active_key` -/
def activeKey (requestId : UInt64) (caller : CallerAuthorization) : ActiveRequestKey :=
  ⟨caller.connectionId, caller.connectionGeneration, caller.opaqueNamespace, caller.clientInstance, requestId⟩

/-- `PinnedBrokerRoot` -/
structure PinnedBrokerRoot where
  volumeId : String
  rootIdentity : List UInt8
  canonicalRootUtf16 : List UInt16
  nameSemantics : List NameComparisonSemantics
  deriving DecidableEq, Repr

/-- `AuthorizedPinnedRoot` -/
structure AuthorizedPinnedRoot where
  caller : CallerAuthorization
  declaredRoot : RootAuthorization
  pinnedRoot : PinnedBrokerRoot
  deriving DecidableEq, Repr

/-- `ExistingJournalMetadata` -/
structure ExistingJournalMetadata where
  journalId : Nat
  firstUsn : Int
  nextUsn : Int
  deriving DecidableEq, Repr

/-- `ExistingJournalMetadata::validate` -/
def ExistingJournalMetadata.validate (metadata : ExistingJournalMetadata) : Except BackendError ExistingJournalMetadata :=
  if metadata.journalId = 0 ∨ metadata.firstUsn < 0 ∨ metadata.nextUsn < metadata.firstUsn then .error .journalDiscontinuous
  else .ok metadata

/-- `ExistingJournalState` -/
inductive ExistingJournalState where
  | supported (metadata : ExistingJournalMetadata)
  | liveOnly
  deriving DecidableEq, Repr

/-- `JournalRange` -/
structure JournalRange where
  startUsn : Int
  endUsn : Int
  deriving DecidableEq, Repr

/-- `JournalReadLimits` -/
structure JournalReadLimits where
  maxRecords : Nat
  maxEvidenceBytes : Nat
  deriving DecidableEq, Repr

/-- `JournalReadProof` -/
structure JournalReadProof where
  coveredUntilUsn : Int
  isComplete : Bool
  after : ExistingJournalMetadata
  deriving DecidableEq, Repr

/-- `BackendPendingRenameCarry` -/
structure BackendPendingRenameCarry where
  root : Option AuthorizedPinnedRoot
  readRootIndex : Option Nat
  fileReference : List UInt8
  oldUsn : Int
  previousRelativePath : String
  isDirectory : Bool
  deriving DecidableEq, Repr

/-- `ExistingJournalVolumeRead` -/
structure ExistingJournalVolumeRead where
  roots : List AuthorizedPinnedRoot
  rootStartUsns : List Int
  pendingRenames : List BackendPendingRenameCarry
  journal : ExistingJournalMetadata
  range : JournalRange
  limits : JournalReadLimits
  deriving DecidableEq, Repr

/-- `SharedBackendJournalPage` -/
structure SharedBackendJournalPage where
  candidatesByRoot : RootCandidates
  handoffs : List BackendJournalHandoff
  pendingRenames : List BackendPendingRename
  renameBarriersByRoot : List (Option Int)
  proof : Option JournalReadProof
  deriving DecidableEq

/-- The place in a read where the host is called. -/
inductive CallSite where
  | root (index : Nat)
  | carry (index : Nat)
  | page
  | handoffSource (index : Nat)
  | handoffTarget (index : Nat)
  | pendingRename (index : Nat)
  | response
  deriving DecidableEq, Repr

/-- What `CallerAuthorizer`, `ExistingJournalBackend` and `RequestContext` answer in the course of one read. -/
structure VolumeReadHost where
  verifyClaim : CallerClaim → Except AuthorizerError CallerAuthorization
  check : CallSite → Except BackendError Unit
  boundedStep : CallSite → Except BackendError Unit
  authorizeRegisteredRoot : CallSite → CallerAuthorization → RootAuthorization → RootCapability →
    Except AuthorizerError AuthorizedPinnedRoot
  filterDisclosableCandidates : CallSite → AuthorizedPinnedRoot → List BackendJournalCandidate →
    Except AuthorizerError (List BackendJournalCandidate)
  queryExistingJournal : CallSite → AuthorizedPinnedRoot → Except BackendError ExistingJournalState
  readExistingJournalVolumePage : ExistingJournalVolumeRead → Except BackendError SharedBackendJournalPage

/-- `ReadJournalVolumeRequest::minimum_start_usn` -/
def ReadJournalVolumeRequest.minimumStartUsn (request : ReadJournalVolumeRequest) : Int :=
  (request.roots.map (·.startUsn)).min?.getD 0

/-- `shared_failure_outcome` -/
def sharedFailureOutcome (caller : CallerClaim) (requested : SharedJournalRootRequest) (code : BrokerFailureCode) :
    SharedJournalRootOutcome :=
  ⟨.fromRequest caller requested.root, requested.startUsn, none, false, [], some code⟩

/-! ## The page of the backend (`service/shared_page_validation.rs`) -/

/-- The checks of one handoff of a page. -/
def isInvalidHandoff (range : JournalRange) (page : SharedBackendJournalPage) (expectedRoots : Nat)
    (handoff : BackendJournalHandoff) : Bool :=
  handoff.previousRootIndex.isSome == handoff.previousPendingIndex.isSome ||
    handoff.previousRootIndex.any (fun index => decide (expectedRoots ≤ index)) ||
    decide (expectedRoots ≤ handoff.currentRootIndex) || handoff.previousRootIndex == some handoff.currentRootIndex ||
    handoff.previousRootIndex.any (rootFailed page.candidatesByRoot) ||
    rootFailed page.candidatesByRoot handoff.currentRootIndex || !isReferenceLength handoff.fileReference.length ||
    decide (handoff.usn < range.startUsn) || page.proof.all fun proof => decide (proof.coveredUntilUsn ≤ handoff.usn)

/-- The loop over the candidates of a root; `last` is the record before. -/
def hasInvalidCandidate (range : JournalRange) (proof : Option JournalReadProof) :
    Option Int → List BackendJournalCandidate → Bool
  | _, [] => false
  | last, candidate :: rest =>
    decide (candidate.usn < range.startUsn) || proof.all (fun proof => decide (proof.coveredUntilUsn ≤ candidate.usn)) ||
      last.any (fun previous => decide (candidate.usn ≤ previous)) ||
      hasInvalidCandidate range proof (some candidate.usn) rest

/-- The first check of `validate_shared_backend_page`: whether the page hangs together. -/
def isInvalidPage (range : JournalRange) (page : SharedBackendJournalPage) (expectedRoots : Nat) : Bool :=
  page.candidatesByRoot.length != expectedRoots || page.renameBarriersByRoot.length != expectedRoots ||
    page.renameBarriersByRoot.any (·.any fun usn => decide (usn < range.startUsn) || decide (range.endUsn ≤ usn)) ||
    decide (maxSharedHandoffs < page.handoffs.length) ||
    page.candidatesByRoot.any Except.isOk != page.proof.isSome || page.proof.isNone && !page.handoffs.isEmpty ||
    page.handoffs.any (isInvalidHandoff range page expectedRoots) ||
    page.pendingRenames.any (fun pending => decide (expectedRoots ≤ pending.rootIndex) ||
      rootFailed page.candidatesByRoot pending.rootIndex) ||
    (page.candidatesByRoot.filterMap Except.toOption).any (hasInvalidCandidate range page.proof none)

section

variable (before : ExistingJournalMetadata) (range : JournalRange)

/-- The second check: what the journal looks like after the read. -/
def validateProof (interval : JournalReadInterval) (proof : JournalReadProof) : Except BrokerFailureCode Unit := do
  let after ← proof.after.validate.mapError mapBackendFailure
  require (!(after.journalId != before.journalId || decide (range.startUsn < after.firstUsn) ||
    decide (after.nextUsn < range.endUsn) || !interval.admitsCoverage proof.coveredUntilUsn proof.isComplete))
    .journalDiscontinuous

/-- `validate_shared_backend_page` -/
def validateSharedBackendPage (page : SharedBackendJournalPage) (expectedRoots : Nat) : Except BrokerFailureCode Unit :=
  match JournalReadInterval.new range.startUsn range.endUsn with
  | none => .error .journalDiscontinuous
  | some interval => do
    require (!isInvalidPage range page expectedRoots) .journalDiscontinuous
    page.proof.elim (.ok ()) (validateProof before range interval)

end

section

variable (ordinalEquals : OrdinalEquals)

/-! ## Roots -/

/-- `validate_pinned_root` -/
def validatePinnedRoot (declared : RootAuthorization) (pinned : PinnedBrokerRoot) : Except BrokerFailureCode Unit := do
  require (pinned.volumeId == declared.volumeId) .volumeMismatch
  require (pinned.rootIdentity == declared.rootIdentity) .rootIdentityMismatch
  let declaredPath ← (normalizeAbsolutePath declared.canonicalRootUtf16).mapError fun _ => .rootIdentityMismatch
  let pinnedPath ← (normalizeAbsolutePath pinned.canonicalRootUtf16).mapError fun _ => .rootIdentityMismatch
  let forward ← (scopeUnderRoot ordinalEquals declaredPath pinnedPath pinned.nameSemantics).mapError
    fun _ => .rootIdentityMismatch
  require (forward == some .root) .rootIdentityMismatch
  let backward ← (scopeUnderRoot ordinalEquals pinnedPath declaredPath pinned.nameSemantics).mapError
    fun _ => .rootIdentityMismatch
  require (backward == some .root) .rootIdentityMismatch

/-- `validate_authorized_root_facts` -/
def validateAuthorizedRootFacts (caller : CallerAuthorization) (root : RootAuthorization) (authorized : AuthorizedPinnedRoot) :
    Except BrokerFailureCode Unit := do
  require (authorized.caller == caller && authorized.declaredRoot == root) .rootIdentityMismatch
  validatePinnedRoot ordinalEquals root authorized.pinnedRoot

/-- A root that is read: what the client asked for it, and what the host made of it. -/
structure AdmittedRoot where
  requested : SharedJournalRootRequest
  root : AuthorizedPinnedRoot
  metadata : ExistingJournalMetadata
  deriving DecidableEq, Repr

/-- What the journal has to be for a root to be read. -/
def admitJournal (request : ReadJournalVolumeRequest) (requested : SharedJournalRootRequest) :
    Except BackendError ExistingJournalState → Except BrokerFailureCode ExistingJournalMetadata
  | .error error => .error (mapBackendFailure error)
  | .ok .liveOnly => .error .journalUnavailable
  | .ok (.supported metadata) => do
    let metadata ← metadata.validate.mapError mapBackendFailure
    require (!(metadata.journalId != request.journalId || decide (requested.startUsn < metadata.firstUsn) ||
      decide (metadata.nextUsn < request.endUsn))) .journalDiscontinuous
    return metadata

variable (host : VolumeReadHost)

/-- `authorize_registered_root` and the check of what it returns, as done for a root and for the root of an old name. -/
def authorizeRoot (site : CallSite) (caller : CallerAuthorization) (root : RootAuthorization)
    (capability : RootCapability) : Except BrokerFailureCode AuthorizedPinnedRoot := do
  let authorized ← (host.authorizeRegisteredRoot site caller root capability).mapError mapAuthorizerFailure
  validateAuthorizedRootFacts ordinalEquals caller root authorized
  return authorized

/-- The loop over the requested roots. The inner result is the root or the code of its failure outcome; the outer one fails
when the request has been cancelled or has run out of time. -/
def admitRoot (caller : CallerAuthorization) (request : ReadJournalVolumeRequest)
    (entry : SharedJournalRootRequest × Nat) : Except BrokerFailureCode (Except BrokerFailureCode AdmittedRoot) := do
  let (requested, index) := entry
  (host.check (.root index)).mapError mapBackendFailure
  match authorizeRoot ordinalEquals host (.root index) caller requested.root requested.rootCapability with
  | .error code => return .error code
  | .ok root =>
    (host.boundedStep (.root index)).mapError mapBackendFailure
    match admitJournal request requested (host.queryExistingJournal (.root index) root) with
    | .error code => return .error code
    | .ok metadata => return .ok ⟨requested, root, metadata⟩

/-! ## Old names of earlier pages -/

/-- The loop over the old names a client sends along: the carry for the backend, and the admitted root that fails because the
root of the old name is no longer authorized. -/
def carryPendingRename (caller : CallerAuthorization) (admitted : List AdmittedRoot)
    (entry : SharedJournalPendingRenameRequest × Nat) : BackendPendingRenameCarry × Option (Nat × BrokerFailureCode) :=
  let (pending, index) := entry
  let readRootIndex := admitted.findIdx? (·.requested.root == pending.root)
  let carry (root : Option AuthorizedPinnedRoot) : BackendPendingRenameCarry :=
    ⟨root, readRootIndex, pending.fileReference, pending.oldUsn, pending.previousRelativePath, pending.isDirectory⟩
  match pending.rootCapability with
  | none => (carry none, none)
  | some capability =>
    match authorizeRoot ordinalEquals host (.carry index) caller pending.root capability with
    | .ok root => (carry (some root), none)
    | .error code => (carry none, readRootIndex.map (·, code))

/-! ## Candidates -/

/-- `to_candidate_scope` -/
def toCandidateScope : RootRelativeScope → CandidateScope
  | .root => .root
  | .relative path => .relativePath path

/-- `isolated_candidate_kind` -/
def isolatedCandidateKind (isDirectory : Bool) : CandidateKind := if isDirectory then .subtree else .path

/-- The scope, the previous scope and the kind that a candidate has under a root; none if it is not under it. -/
def candidateScopes (candidate : BackendJournalCandidate) :
    Option RootRelativeScope → Option RootRelativeScope → Option (CandidateScope × Option CandidateScope × CandidateKind)
  | none, none => none
  | some current, some previous => some (toCandidateScope current, some (toCandidateScope previous), candidate.kind)
  | some current, none => some (toCandidateScope current, none, isolatedCandidateKind candidate.isDirectory)
  | none, some previous => some (toCandidateScope previous, none, isolatedCandidateKind candidate.isDirectory)

section

variable (root : PinnedBrokerRoot) (canonicalRoot : NormalizedWindowsPath)

/-- Where a path lies under a root. -/
def scopeOf (path : List UInt16) : Except WireError (Option RootRelativeScope) := do
  scopeUnderRoot ordinalEquals (← normalizeAbsolutePath path) canonicalRoot root.nameSemantics

/-- The previous scope of a candidate, if it has a previous path and that lies under the root. -/
def previousScopeOf : Option (List UInt16) → Except BrokerFailureCode (Option RootRelativeScope)
  | none => .ok none
  | some path => (scopeOf ordinalEquals root canonicalRoot path).mapError fun _ => .recordUnsupported

/-- The loop of `constrain_candidates`: a candidate under the root, or none if it lies outside. -/
def constrainCandidate (candidate : BackendJournalCandidate) : Except BrokerFailureCode (Option BrokerCandidate) := do
  require (candidate.volumeId == root.volumeId) .volumeMismatch
  let current ← (normalizeAbsolutePath candidate.absolutePathUtf16).mapError fun _ => .recordUnsupported
  let currentScope ← (scopeUnderRoot ordinalEquals current canonicalRoot root.nameSemantics).mapError
    fun _ => .rootIdentityMismatch
  let previousScope ← previousScopeOf ordinalEquals root canonicalRoot candidate.previousAbsolutePathUtf16
  match candidateScopes candidate currentScope previousScope with
  | none => return none
  | some (scope, previousScope, kind) =>
    let isRoot := scope == .root || previousScope == some .root
    let normalized : BrokerCandidate := ⟨scope, if isRoot then none else previousScope, candidate.fileReference, candidate.usn,
      if isRoot then .subtree else kind, candidate.isDirectory⟩
    normalized.validate.mapError fun _ => .recordUnsupported
    return some normalized

end

/-- `constrain_candidates` -/
def constrainCandidates (root : AuthorizedPinnedRoot) (candidates : List BackendJournalCandidate) :
    Except BrokerFailureCode (List BrokerCandidate) := do
  let canonicalRoot ← (normalizeAbsolutePath root.pinnedRoot.canonicalRootUtf16).mapError fun _ => .rootIdentityMismatch
  return (← candidates.mapM (constrainCandidate ordinalEquals root.pinnedRoot canonicalRoot)).reduceOption

/-- The outcome of an admitted root whose candidates the backend has read; an error is the code of its failure. -/
def readOutcome (request : ReadJournalVolumeRequest) (proof : JournalReadProof) (index : Nat)
    (admitted : AdmittedRoot) (candidates : List BackendJournalCandidate) :
    Except BrokerFailureCode SharedJournalRootOutcome := do
  require ((JournalReadInterval.new admitted.requested.startUsn request.endUsn).any
    (·.admitsCoverage proof.coveredUntilUsn proof.isComplete)) .evidenceLimitExceeded
  let disclosable ← (host.filterDisclosableCandidates (.root index) admitted.root
    (candidates.filter fun candidate => decide (admitted.requested.startUsn ≤ candidate.usn))).mapError mapAuthorizerFailure
  let candidates ← constrainCandidates ordinalEquals admitted.root disclosable
  return ⟨.fromRequest request.caller admitted.requested.root, admitted.requested.startUsn, some proof.coveredUntilUsn,
    proof.isComplete, candidates, none⟩

/-- The code a list of failures leaves for an admitted root: that of the last one. -/
def failureOf (failures : List (Nat × BrokerFailureCode)) (index : Nat) : Option BrokerFailureCode :=
  (failures.reverse.find? (·.1 == index)).map (·.2)

/-- The loop over the admitted roots and their candidates. An admitted root that fails is in `failed_admitted` and its outcome
is that failure: here its result is the code. -/
def readRoot (request : ReadJournalVolumeRequest) (proof : Option JournalReadProof)
    (carryFailures : List (Nat × BrokerFailureCode))
    (entry : (AdmittedRoot × Except BackendError (List BackendJournalCandidate)) × Nat) :
    Except BrokerFailureCode (Except BrokerFailureCode SharedJournalRootOutcome) :=
  let ((admitted, candidates), index) := entry
  match failureOf carryFailures index with
  | some code => .ok (.error code)
  | none =>
    match candidates with
    | .error error => .ok (.error (mapBackendFailure error))
    | .ok candidates =>
      match proof with
      | none => .error .internal
      | some proof => .ok (readOutcome ordinalEquals host request proof index admitted candidates)

/-! ## Handoffs and old names of the page -/

/-- What the translation of the handoffs and old names of a page gives (`HandoffTranslation`, `RootScopedTranslation`). The
barrier is the lowest of `barriers`. -/
structure Translation where
  handoffs : List SharedJournalHandoff := []
  pendingRenames : List SharedJournalPendingRename := []
  failures : List (Nat × BrokerFailureCode) := []
  barriers : List Int := []
  deriving DecidableEq, Repr

/-- What the rounds of the translation loops add up to. -/
def Translation.join (rounds : List Translation) : Translation :=
  ⟨rounds.flatMap (·.handoffs), rounds.flatMap (·.pendingRenames), rounds.flatMap (·.failures), rounds.flatMap (·.barriers)⟩

/-- A single record under a root that its caller may see: the path relative to the root. -/
def disclosedPath (site : CallSite) (root : AuthorizedPinnedRoot)
    (record : BackendJournalCandidate) : Except BrokerFailureCode String := do
  let candidate ← record.copyFromBounded.mapError mapBackendFailure
  let disclosable ← (host.filterDisclosableCandidates site root [candidate]).mapError mapAuthorizerFailure
  match ← constrainCandidates ordinalEquals root disclosable with
  | [⟨.relativePath path, _, _, _, _, _⟩] => return path
  | _ => throw .recordUnsupported

/-- The endpoint a handoff starts from: an admitted root, or the old name of an earlier page. -/
structure HandoffSource where
  root : AuthorizedPinnedRoot
  binding : ResponseBinding
  carryId : Option String
  rootIndex : Option Nat
  startUsn : Int
  requestedPath : Option String
  deriving DecidableEq, Repr

/-- `previous` of `translate_shared_handoffs` -/
def handoffSource (request : ReadJournalVolumeRequest) (admitted : List AdmittedRoot)
    (carries : List BackendPendingRenameCarry) (handoff : BackendJournalHandoff) : Except BrokerFailureCode HandoffSource :=
  match handoff.previousRootIndex, handoff.previousPendingIndex with
  | some index, none =>
    match admitted[index]? with
    | none => .error .recordUnsupported
    | some previous => .ok ⟨previous.root, .fromRequest request.caller previous.requested.root, none, some index,
        previous.requested.startUsn, none⟩
  | none, some index =>
    match carries[index]?, request.pendingRenames[index]? with
    | some carry, some requested =>
      match carry.root with
      | none => .error .recordUnsupported
      | some root =>
        if requested.fileReference ≠ handoff.fileReference ∨ requested.isDirectory ≠ handoff.isDirectory ∨
            requested.oldUsn ≠ handoff.oldUsn then .error .recordUnsupported
        else .ok ⟨root, .fromRequest request.caller requested.root, some requested.carryId, carry.readRootIndex,
          handoff.oldUsn, some requested.previousRelativePath⟩
    | _, _ => .error .recordUnsupported
  | _, _ => .error .recordUnsupported

/-- The path a handoff starts from, which for an old name is the one its client knows. -/
def sourcePath (index : Nat) (handoff : BackendJournalHandoff) (source : HandoffSource) : Except BrokerFailureCode String := do
  let path ← disclosedPath ordinalEquals host (.handoffSource index) source.root
    ⟨source.root.pinnedRoot.volumeId, handoff.previousAbsolutePathUtf16, none, handoff.fileReference, handoff.oldUsn,
      isolatedCandidateKind handoff.isDirectory, handoff.isDirectory⟩
  require (source.requestedPath.all (· == path)) .recordUnsupported
  return path

/-- The path a handoff ends in. -/
def targetPath (index : Nat) (handoff : BackendJournalHandoff) (current : AdmittedRoot) : Except BrokerFailureCode String :=
  disclosedPath ordinalEquals host (.handoffTarget index) current.root
    ⟨current.requested.root.volumeId, handoff.currentAbsolutePathUtf16, none, handoff.fileReference, handoff.usn,
      isolatedCandidateKind handoff.isDirectory, handoff.isDirectory⟩

/-- Whether the records of a handoff are out of the order or the range that its endpoints allow. -/
def isUnsupportedHandoff (handoff : BackendJournalHandoff) (source : HandoffSource) (current : AdmittedRoot) (covered : Int) :
    Bool :=
  !isReferenceLength handoff.fileReference.length || decide (handoff.oldUsn < source.startUsn) ||
    decide (handoff.oldUsn < 0) || decide (handoff.usn ≤ handoff.oldUsn) ||
    decide (handoff.usn < current.requested.startUsn) || decide (covered ≤ handoff.usn)

/-- `safe_old_barrier` -/
def safeOldBarrier (request : ReadJournalVolumeRequest) (handoff : BackendJournalHandoff) (covered : Int) : Int :=
  if request.minimumStartUsn ≤ handoff.oldUsn ∧ handoff.oldUsn < handoff.usn ∧ handoff.oldUsn < covered then handoff.oldUsn
  else request.minimumStartUsn

/-- `preserve_verified_handoff_source`: the target has failed, and the old name is kept unless its client has it already. -/
def preserveVerifiedHandoffSource (handoff : BackendJournalHandoff) (source : HandoffSource) (path : String)
    (code : BrokerFailureCode) : Translation where
  pendingRenames := if source.carryId.isNone then
    [⟨source.binding, handoff.fileReference, handoff.oldUsn, path, handoff.isDirectory⟩] else []
  failures := [(handoff.currentRootIndex, code)]
  barriers := [handoff.usn]

/-- One round of `translate_shared_handoffs` once both endpoints are known. -/
def translateEndpoints (request : ReadJournalVolumeRequest) (covered : Int) (index : Nat)
    (handoff : BackendJournalHandoff) (source : HandoffSource) (current : AdmittedRoot) : Translation :=
  if isUnsupportedHandoff handoff source current covered then
    { failures := source.rootIndex.toList.map (·, .recordUnsupported) ++ [(handoff.currentRootIndex, .recordUnsupported)]
      barriers := [safeOldBarrier request handoff covered] }
  else
    match sourcePath ordinalEquals host index handoff source with
    | .error code =>
      { failures := source.rootIndex.toList.map (·, code), barriers := [safeOldBarrier request handoff covered] }
    | .ok previousPath =>
      match targetPath ordinalEquals host index handoff current with
      | .error code => preserveVerifiedHandoffSource handoff source previousPath code
      | .ok currentPath =>
        { handoffs := [⟨source.binding, .fromRequest request.caller current.requested.root, handoff.fileReference, handoff.usn,
            previousPath, currentPath, handoff.isDirectory, source.carryId⟩] }

/-- One round of `translate_shared_handoffs` -/
def translateHandoff (request : ReadJournalVolumeRequest) (admitted : List AdmittedRoot)
    (carries : List BackendPendingRenameCarry) (covered : Int) (entry : BackendJournalHandoff × Nat) :
    Except BrokerFailureCode Translation :=
  let (handoff, index) := entry
  match admitted[handoff.currentRootIndex]? with
  | none => .error .recordUnsupported
  | some current => do
    let source ← handoffSource request admitted carries handoff
    return translateEndpoints ordinalEquals host request covered index handoff source current

/-- One round of `translate_shared_pending_renames` once the root is known. The barrier of a path that fails is the record:
after the check of the range, `failure_barrier` is the record as well. -/
def translateOldName (request : ReadJournalVolumeRequest) (covered : Int) (index : Nat)
    (pending : BackendPendingRename) (current : AdmittedRoot) : Translation :=
  if !isReferenceLength pending.fileReference.length || decide (pending.oldUsn < current.requested.startUsn) ||
      decide (covered ≤ pending.oldUsn) then
    { failures := [(pending.rootIndex, .recordUnsupported)]
      barriers := [if request.minimumStartUsn ≤ pending.oldUsn ∧ pending.oldUsn < covered then pending.oldUsn
        else request.minimumStartUsn] }
  else
    match disclosedPath ordinalEquals host (.pendingRename index) current.root
      ⟨current.requested.root.volumeId, pending.previousAbsolutePathUtf16, none, pending.fileReference, pending.oldUsn,
        isolatedCandidateKind pending.isDirectory, pending.isDirectory⟩ with
    | .error code => { failures := [(pending.rootIndex, code)], barriers := [pending.oldUsn] }
    | .ok path => { pendingRenames := [⟨.fromRequest request.caller current.requested.root, pending.fileReference,
        pending.oldUsn, path, pending.isDirectory⟩] }

/-- One round of `translate_shared_pending_renames` -/
def translatePendingRename (request : ReadJournalVolumeRequest) (admitted : List AdmittedRoot)
    (covered : Int) (entry : BackendPendingRename × Nat) : Except BrokerFailureCode Translation :=
  let (pending, index) := entry
  match admitted[pending.rootIndex]? with
  | none => .error .recordUnsupported
  | some current => .ok (translateOldName ordinalEquals host request covered index pending current)

/-- `translate_shared_handoffs` and then `translate_shared_pending_renames`; a page without a proof has neither. -/
def translatePage (request : ReadJournalVolumeRequest) (admitted : List AdmittedRoot)
    (carries : List BackendPendingRenameCarry) (page : SharedBackendJournalPage) : Except BrokerFailureCode Translation :=
  match page.proof with
  | none => .ok {}
  | some proof => do
    let handoffs ← page.handoffs.zipIdx.mapM
      (translateHandoff ordinalEquals host request admitted carries proof.coveredUntilUsn)
    let pendingRenames ← page.pendingRenames.zipIdx.mapM
      (translatePendingRename ordinalEquals host request admitted proof.coveredUntilUsn)
    return .join (handoffs ++ pendingRenames)

/-! ## The barrier -/

/-- What was read for each admitted root. -/
abbrev RootReads := List (Except BrokerFailureCode SharedJournalRootOutcome)

/-- The admitted roots after the failures of the translation. -/
def failRoots (failures : List (Nat × BrokerFailureCode)) (reads : RootReads) :
    RootReads :=
  reads.mapIdx fun index read => (failureOf failures index).elim read .error

/-- The rename barriers of the roots that failed. -/
def failedBarriers (barriers : List (Option Int)) (reads : RootReads) : List Int :=
  (reads.zip barriers).filterMap fun entry => if entry.1.isOk then none else entry.2

/-- What a barrier leaves of the outcome of a root: nothing if the root starts at or after it. -/
def limitOutcome (barrier : Int) (outcome : SharedJournalRootOutcome) : Except BrokerFailureCode SharedJournalRootOutcome :=
  if barrier ≤ outcome.requestedStartUsn then .error .evidenceLimitExceeded
  else .ok { outcome with
    coveredUntilUsn := some (outcome.coveredUntilUsn.elim barrier fun covered => min covered barrier)
    isComplete := false
    candidates := outcome.candidates.filter fun candidate => decide (candidate.usn < barrier) }

/-- What the read of a page has found out: the result of each admitted root, and the handoffs and old names. -/
structure VolumeAnswer where
  reads : RootReads := []
  handoffs : List SharedJournalHandoff := []
  pendingRenames : List SharedJournalPendingRename := []
  deriving DecidableEq

/-- What the lowest barrier leaves of an answer. -/
def VolumeAnswer.limit (answer : VolumeAnswer) : Option Int → VolumeAnswer
  | none => answer
  | some barrier =>
    ⟨answer.reads.map fun read => read.bind (limitOutcome barrier),
      answer.handoffs.filter fun handoff => decide (handoff.usn < barrier),
      answer.pendingRenames.filter fun pending => decide (pending.oldUsn < barrier)⟩

/-! ## The read -/

/-- The page of a read, with what it was read for. -/
structure PageRead where
  admitted : List AdmittedRoot
  carries : List BackendPendingRenameCarry
  carryFailures : List (Nat × BrokerFailureCode)
  page : SharedBackendJournalPage
  deriving DecidableEq

/-- The range of journal that the admitted roots need. -/
def admittedRange (request : ReadJournalVolumeRequest) (admitted : List AdmittedRoot) : JournalRange :=
  ⟨(admitted.map (·.requested.startUsn)).min?.getD 0, request.endUsn⟩

/-- The part of `execute_read_volume` that reads the page of the admitted roots, of which `first` is the first. -/
def readPage (caller : CallerAuthorization) (request : ReadJournalVolumeRequest)
    (admitted : List AdmittedRoot) (first : AdmittedRoot) : Except BrokerFailureCode PageRead := do
  let carried := request.pendingRenames.zipIdx.map (carryPendingRename ordinalEquals host caller admitted)
  (host.boundedStep .page).mapError mapBackendFailure
  let page ← (host.readExistingJournalVolumePage ⟨admitted.map (·.root), admitted.map (·.requested.startUsn),
    carried.map (·.1), first.metadata, admittedRange request admitted,
    ⟨request.maxRecords, request.maxEvidenceBytes⟩⟩).mapError mapBackendFailure
  validateSharedBackendPage first.metadata (admittedRange request admitted) page admitted.length
  return ⟨admitted, carried.map (·.1), carried.filterMap (·.2), page⟩

/-- The results of the admitted roots, before the barrier. -/
def readRoots (request : ReadJournalVolumeRequest) (read : PageRead) : Except BrokerFailureCode RootReads :=
  (read.admitted.zip read.page.candidatesByRoot).zipIdx.mapM
    (readRoot ordinalEquals host request read.page.proof read.carryFailures)

/-- The barriers of a read: those of the roots that failed and those of the translation. -/
def readBarriers (read : PageRead) (reads : RootReads) (translation : Translation) : List Int :=
  failedBarriers read.page.renameBarriersByRoot reads ++ translation.barriers

/-- The part of `execute_read_volume` that answers from a page. -/
def answerPage (request : ReadJournalVolumeRequest) (read : PageRead) : Except BrokerFailureCode VolumeAnswer := do
  let reads ← readRoots ordinalEquals host request read
  let translation ← translatePage ordinalEquals host request read.admitted read.carries read.page
  let reads := failRoots translation.failures reads
  let answer : VolumeAnswer := ⟨reads, translation.handoffs, translation.pendingRenames⟩
  return answer.limit (readBarriers read reads translation).min?

/-- The outcomes in the order of the request: a root that was not admitted fails with its code, an admitted one has its
result. -/
def collectOutcomes (caller : CallerClaim) : List SharedJournalRootRequest → List (Except BrokerFailureCode AdmittedRoot) →
    RootReads → Except BrokerFailureCode (List SharedJournalRootOutcome)
  | requested :: roots, .error code :: admissions, reads => do
    return sharedFailureOutcome caller requested code :: (← collectOutcomes caller roots admissions reads)
  | requested :: roots, .ok _ :: admissions, .error code :: reads => do
    return sharedFailureOutcome caller requested code :: (← collectOutcomes caller roots admissions reads)
  | _ :: roots, .ok _ :: admissions, .ok outcome :: reads => do
    return outcome :: (← collectOutcomes caller roots admissions reads)
  | [], [], [] => .ok []
  | _, _, _ => .error .internal

/-- `validate_shared_response_limits` -/
def validateSharedResponseLimits (request : ReadJournalVolumeRequest) (outcomes : List SharedJournalRootOutcome)
    (handoffs : List SharedJournalHandoff) (pendingRenames : List SharedJournalPendingRename) :
    Except BrokerFailureCode Unit :=
  require (!(decide (request.maxRecords < totalRecords outcomes handoffs pendingRenames) ||
    decide (request.maxEvidenceBytes < totalEvidence outcomes handoffs pendingRenames))) .evidenceLimitExceeded

/-- The roots that a read admits, or the failure of each; none if the caller is rejected or out of time. -/
def admitRoots (requestId : UInt64) (key : ActiveRequestKey) (request : ReadJournalVolumeRequest) :
    Except BrokerFailureCode (CallerAuthorization × List (Except BrokerFailureCode AdmittedRoot)) := do
  let caller ← (host.verifyClaim request.caller).mapError mapAuthorizerFailure
  require (key == activeKey requestId caller) .callerRejected
  return (caller, ← request.roots.zipIdx.mapM (admitRoot ordinalEquals host caller request))

/-- The page of a read, if it admits a root. -/
def readVolumePage (caller : CallerAuthorization) (request : ReadJournalVolumeRequest)
    (admissions : List (Except BrokerFailureCode AdmittedRoot)) : Except BrokerFailureCode (Option PageRead) :=
  match admissions.filterMap Except.toOption with
  | [] => .ok none
  | first :: rest => some <$> readPage ordinalEquals host caller request (first :: rest) first

/-- The answer of a read: nothing besides the failures if it admits no root. -/
def volumeAnswer (request : ReadJournalVolumeRequest) : Option PageRead → Except BrokerFailureCode VolumeAnswer
  | none => .ok {}
  | some read => answerPage ordinalEquals host request read

/-- `execute_read_volume` -/
def executeReadVolume (requestId : UInt64) (key : ActiveRequestKey)
    (request : ReadJournalVolumeRequest) : Except BrokerFailureCode BrokerResponse := do
  let (caller, admissions) ← admitRoots ordinalEquals host requestId key request
  let read ← readVolumePage ordinalEquals host caller request admissions
  let answer ← volumeAnswer ordinalEquals host request read
  let outcomes ← collectOutcomes request.caller request.roots admissions answer.reads
  validateSharedResponseLimits request outcomes answer.handoffs answer.pendingRenames
  (host.check .response).mapError mapBackendFailure
  return .readVolume requestId.toNat request.caller.clientInstance request.volumeId request.journalId request.endUsn
    request.maxRecords request.maxEvidenceBytes outcomes answer.handoffs answer.pendingRenames

end

end Ame
