import Ame.Broker.Path

/-!
# What the journal broker reports (`journal_broker/wire.rs`)

A candidate is a path, a subtree or a rename that the journal of a volume shows to have changed, relative to a root. A root
outcome is the page of candidates that one root receives, with the part of the journal it covers, or a failure. Both are
checked when they arrive.
-/

namespace Ame

/-- `PROTOCOL_VERSION` of the broker. -/
def protocolVersion : Nat := 5

/-- `MAX_ROOT_ID_BYTES` of the wire format. -/
def maxWireRootIdBytes : Nat := 256

/-- `MAX_VOLUME_ID_BYTES` -/
def maxVolumeIdBytes : Nat := 512

/-- `validate_identifier` of the wire format. -/
def validateWireIdentifier (value : String) (maximum : Nat) : Except WireError Unit :=
  if value.isEmpty || decide (maximum < value.utf8ByteSize) || contains value '\x00' then .error (.invalidValue "identifier")
  else .ok ()

/-- `ResponseBinding` -/
structure ResponseBinding where
  clientInstance : Vector UInt8 16
  rootId : String
  rootGeneration : Nat
  volumeId : String
  deriving DecidableEq, Repr

/-- `ResponseBinding::validate` -/
def ResponseBinding.validate (binding : ResponseBinding) : Except WireError Unit := do
  if binding.clientInstance.toList.all (· == 0) || binding.rootGeneration == 0 then
    throw (.invalidValue "response_binding")
  validateWireIdentifier binding.rootId maxWireRootIdBytes
  validateWireIdentifier binding.volumeId maxVolumeIdBytes

/-! ## Candidates -/

/-- `CandidateKind` -/
inductive CandidateKind where
  | path
  | subtree
  | rename
  deriving DecidableEq, Repr

/-- `CandidateScope` -/
inductive CandidateScope where
  | root
  | relativePath (path : String)
  deriving DecidableEq, Repr

/-- `CandidateScope::validate` -/
def CandidateScope.validate : CandidateScope → Except WireError Unit
  | .root => .ok ()
  | .relativePath path => validateRelativePath path

/-- `BrokerCandidate` -/
structure BrokerCandidate where
  scope : CandidateScope
  previousScope : Option CandidateScope
  fileReference : List UInt8
  usn : Int
  kind : CandidateKind
  isDirectory : Bool
  deriving DecidableEq, Repr

/-- The check of a candidate's previous scope: a path, never the root. -/
def validatePreviousScope : Option CandidateScope → Except WireError Unit
  | none => .ok ()
  | some previous => do
    previous.validate
    if previous = .root then throw (.invalidValue "previous_root_candidate")

/-- `BrokerCandidate::validate` -/
def BrokerCandidate.validate (candidate : BrokerCandidate) : Except WireError Unit := do
  candidate.scope.validate
  validatePreviousScope candidate.previousScope
  if (candidate.fileReference.length ≠ 8 ∧ candidate.fileReference.length ≠ 16) ∨ candidate.usn < 0 ∨
      candidate.previousScope.isSome ≠ (candidate.kind == .rename) ∨
      candidate.kind = .subtree ∧ candidate.isDirectory = false ∨
      candidate.scope = .root ∧ candidate.isDirectory = false then
    throw (.invalidValue "candidate")
  if candidate.scope = .root ∧ candidate.kind ≠ .subtree then throw (.invalidValue "root_candidate")

/-! ## Root outcomes -/

/-- `BrokerFailureCode` -/
inductive BrokerFailureCode where
  | protocolMismatch
  | malformedFrame
  | requestTooLarge
  | callerRejected
  | rootUnauthorized
  | rootIdentityMismatch
  | volumeMismatch
  | journalUnavailable
  | journalDiscontinuous
  | recordUnsupported
  | evidenceLimitExceeded
  | timedOut
  | cancelled
  | requestNotActive
  | activeLimitExceeded
  | terminalDeliveryBackpressure
  | backendUnavailable
  | internal
  deriving DecidableEq, Repr

/-- `SharedJournalRootOutcome` -/
structure SharedJournalRootOutcome where
  binding : ResponseBinding
  requestedStartUsn : Int
  coveredUntilUsn : Option Int
  isComplete : Bool
  candidates : List BrokerCandidate
  failure : Option BrokerFailureCode
  deriving DecidableEq, Repr

/-- `JournalReadInterval` (`journal_broker/read_interval.rs`) -/
structure JournalReadInterval where
  startUsn : Int
  endUsn : Int
  deriving DecidableEq, Repr

/-- `JournalReadInterval::new` -/
def JournalReadInterval.new (startUsn endUsn : Int) : Option JournalReadInterval :=
  if startUsn < 0 ∨ endUsn < startUsn then none else some ⟨startUsn, endUsn⟩

/-- `JournalReadInterval::admits_coverage` -/
def JournalReadInterval.admitsCoverage (interval : JournalReadInterval) (coveredUntilUsn : Int) (isComplete : Bool) : Bool :=
  if coveredUntilUsn < interval.startUsn ∨ interval.endUsn < coveredUntilUsn then false
  else if interval.startUsn = interval.endUsn then decide (coveredUntilUsn = interval.endUsn) && isComplete
  else decide (interval.startUsn < coveredUntilUsn) && isComplete == decide (coveredUntilUsn = interval.endUsn)

/-- The loop over the candidates of an outcome; `lastUsn` is that of the candidate before. -/
def validateCandidates (startUsn covered : Int) : Option Int → List BrokerCandidate → Except WireError Unit
  | _, [] => .ok ()
  | lastUsn, candidate :: rest => do
    candidate.validate
    if candidate.usn < startUsn ∨ covered ≤ candidate.usn ∨ lastUsn.any (fun previous => candidate.usn ≤ previous) then
      throw (.invalidValue "candidate_usn")
    validateCandidates startUsn covered (some candidate.usn) rest

/-- The check of what an outcome proves: coverage and candidates, or a failure with neither. -/
def validateOutcomeProof (outcome : SharedJournalRootOutcome) (interval : JournalReadInterval) (maximumRecords : Nat) :
    Except WireError Unit :=
  match outcome.coveredUntilUsn, outcome.failure with
  | some covered, none =>
    if interval.admitsCoverage covered outcome.isComplete = false ∨ maximumRecords < outcome.candidates.length then
      .error (.invalidValue "shared_root_proof")
    else validateCandidates outcome.requestedStartUsn covered none outcome.candidates
  | none, some _ =>
    if outcome.isComplete = false ∧ outcome.candidates = [] then .ok () else .error (.invalidValue "shared_root_outcome")
  | _, _ => .error (.invalidValue "shared_root_outcome")

/-- `SharedJournalRootOutcome::validate` -/
def SharedJournalRootOutcome.validate (outcome : SharedJournalRootOutcome) (requestedEndUsn : Int) (maximumRecords : Nat) :
    Except WireError Unit := do
  outcome.binding.validate
  match JournalReadInterval.new outcome.requestedStartUsn requestedEndUsn with
  | none => throw (.invalidValue "shared_root_range")
  | some interval => validateOutcomeProof outcome interval maximumRecords

end Ame
