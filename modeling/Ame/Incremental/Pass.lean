import Ame.Incremental.Environment
import Ame.Queue.Lifecycle

/-!
# A processing pass (`application/incremental_library_changes.rs`, `preparation_rebase.rs`)

A pass leases the ready changes of a root, prepares each of them, and publishes those that are ready as one delta. If the
catalog has moved on meanwhile, the preparation is refreshed and the publication tried again. Whatever was leased has to be
given back before the pass ends: completed by the publication, released for a retry, or deferred.

The repository, the file system and the cancellation flag are the ports. They may answer differently each time, so a port is a
computation on a world of its own. A call of a port notes what it has leased and settled and whether the answer was a failure.
-/

namespace Ame

/-- `LibraryChangeLeaseUpdateOutcome` -/
inductive LibraryChangeLeaseUpdateOutcome where
  | applied
  | superseded
  | leaseMismatch
  | missing
  deriving DecidableEq, Repr

/-- `IncrementalCatalogRoot` -/
structure IncrementalCatalogRoot where
  rootId : String
  rootPath : String
  rootGeneration : LibraryRootGeneration
  activeScanId : Option String
  hasRunningScan : Bool
  catalogRevision : Nat
  lastConsistencyAuditUnixMs : Option Int
  publicationRootIdentity : Option FileIdentityEvidence
  deriving DecidableEq, Repr

/-- `CatalogDeltaPublicationStatus` -/
inductive CatalogDeltaPublicationStatus where
  | applied
  | staleLease
  | staleCatalogRevision
  | stalePreviewState
  | rootGenerationChanged
  | rootScanInProgress
  | noPublishedCatalog
  deriving DecidableEq, Repr

/-- `CatalogDeltaPublication` -/
structure CatalogDeltaPublication where
  status : CatalogDeltaPublicationStatus
  catalogRevision : Nat
  appliedMutationCount : Nat
  completedChangeCount : Nat
  deriving DecidableEq, Repr

/-- `IncrementalLibraryChangeReport` -/
structure IncrementalLibraryChangeReport where
  leasedCount : Nat := 0
  completedCount : Nat := 0
  retriedCount : Nat := 0
  deferredCount : Nat := 0
  supersededCount : Nat := 0
  appliedMutationCount : Nat := 0
  catalogRevision : Nat := 0
  deriving DecidableEq, Repr

/-- `PathLeaseSelection` -/
inductive PathLeaseSelection where
  | any
  | lane (lane : LibraryChangeLane)
  | ownedRecovery
  | unownedRecovery
  deriving DecidableEq, Repr

/-- `MAX_CATALOG_REVISION_REBASE_ATTEMPTS` -/
def maxCatalogRevisionRebaseAttempts : Nat := 2

/-- `publication_failure` -/
def publicationFailure : CatalogDeltaPublicationStatus → LibraryChangeFailure
  | .staleLease => ⟨"incremental_lease_superseded", "Newer library change evidence superseded the prepared catalog delta"⟩
  | .staleCatalogRevision => ⟨"incremental_catalog_revision_changed",
      "The catalog revision changed while the incremental delta was prepared"⟩
  | .stalePreviewState => ⟨"incremental_preview_state_changed",
      "Preview state changed while the incremental delta was prepared"⟩
  | .rootGenerationChanged => ⟨"incremental_root_generation_changed",
      "The root generation changed while the incremental delta was prepared"⟩
  | .rootScanInProgress => ⟨"incremental_scan_in_progress",
      "Incremental publication waits for the active complete scan boundary"⟩
  | .noPublishedCatalog => ⟨"incremental_catalog_not_published",
      "The root has no trustworthy published catalog for an incremental delta"⟩
  -- unreachable in the source: an applied publication is no failure
  | .applied => ⟨"", ""⟩

/-- `is_publication_namespace_failure` -/
def isPublicationNamespaceFailure (error : ScanError) : Bool :=
  "root_publication_namespace_".toList.isPrefixOf error.code.toList ||
    ["root_identity_unavailable", "root_identity_changed", "metadata_inventory_root_identity_changed"].contains error.code

/-! ## Leases -/

/-- The change and the generation of a lease. -/
abbrev Lease := LibraryChangeId × Nat

/-- The lease of a leased change. -/
def LeasedLibraryChange.lease (leased : LeasedLibraryChange) : Lease := (leased.id, leased.leaseGeneration)

/-- What one lease call returns: a change is leased once. -/
structure LeasedBatch where
  changes : List LeasedLibraryChange
  distinct : (changes.map (·.id)).Nodup

/-- `LibraryChangeQueuePolicy::MAX_LEASE_BATCH` -/
def maxLeaseBatch : Nat := 128

/-- A stored change that a lease call for path work of a root generation may take. -/
def QueueRow.leasesPath (rootId : String) (rootGeneration : LibraryRootGeneration) (r : QueueRow) : Bool :=
  isUnleased r.status && r.intent.rootId == rootId && r.intent.rootGeneration == rootGeneration &&
    r.intent.scope == .path && r.intent.kind != .freshnessUnknown

/-- A stored change as it is leased, with its lease generation before the lease. -/
def QueueRow.leasedWith (generation : Nat) (r : QueueRow) : LeasedLibraryChange :=
  ⟨r.id, r.intent, r.catchUpEvidence.map (·.source), r.catchUpEvidence.map (·.watermark), r.catchUpLineage, generation + 1⟩

/-- `lease_matching_transaction` for path work: the changes that are due are leased in their order, up to a limit. Which ones
are due depends on clocks, attempts and tables outside this model, and so does the generation of the lease before. -/
def leasePathChanges (q : ChangeQueue) (rootId : String) (rootGeneration : LibraryRootGeneration) (limit : Nat)
    (due : List LibraryChangeId) (generation : LibraryChangeId → Nat) : List LeasedLibraryChange :=
  ((due.dedup.filterMap fun id => q.rows.find? fun r => r.id == id && r.leasesPath rootId rootGeneration).take limit).map
    fun r => r.leasedWith (generation r.id)

/-- What a leased change is prepared to: a completion of that lease. -/
structure PreparedLease where
  leased : LeasedLibraryChange
  change : PreparedChange
  completes : (change.completion.changeId, change.completion.leaseGeneration) = leased.lease

/-- What a preparation of one leased change may give. -/
def PreparedFor (leased : LeasedLibraryChange) : Type :=
  { change : PreparedChange // (change.completion.changeId, change.completion.leaseGeneration) = leased.lease }

/-- A leased change that is to be retried, and why. -/
abbrev RetryEntry := LeasedLibraryChange × LibraryChangeFailure

/-! ## The ports -/

/-- What the repository, the publication namespace and the cancellation flag answer. -/
structure PassPorts (ω : Type) where
  cancellationRequested : StateT ω (Except ScanError) Bool
  loadIncrementalCatalogRoot : String → StateT ω (Except ScanError) (Option IncrementalCatalogRoot)
  leasePathLibraryChanges : PathLeaseSelection → String → LibraryRootGeneration → StateT ω (Except ScanError) LeasedBatch
  loadCandidateRootIdentity : String → LibraryRootGeneration → StateT ω (Except ScanError) (Option FileIdentityEvidence)
  openNamespace : String → FileIdentityEvidence → StateT ω (Except ScanError) (Except ScanError Unit)
  prepareChange : (leased : LeasedLibraryChange) →
    StateT ω (Except ScanError) (Except LibraryChangeFailure (PreparedFor leased))
  revalidateChange : PreparedChange → StateT ω (Except ScanError) (Except LibraryChangeFailure Unit)
  preparationIsCurrent : List PreparedChange → IncrementalCatalogRoot → IncrementalCatalogRoot →
    StateT ω (Except ScanError) Bool
  requireRootIdentity : FileIdentityEvidence → StateT ω (Except ScanError) Unit
  publishCatalogDelta : CatalogDeltaBatch → StateT ω (Except ScanError) (Except ScanError CatalogDeltaPublication)
  retryLibraryChange : Lease → LibraryChangeFailure → StateT ω (Except ScanError) LibraryChangeLeaseUpdateOutcome
  deferLibraryChange : Lease → StateT ω (Except ScanError) LibraryChangeLeaseUpdateOutcome
  deferLibraryChanges : List Lease → StateT ω (Except ScanError) (List LibraryChangeLeaseUpdateOutcome)

/-- What the calls of a pass note: what they leased and settled, and which of the answers were failures. -/
inductive PassEvent where
  | leased (lease : Lease)
  | completed (lease : Lease)
  | retried (lease : Lease)
  | deferred (lease : Lease)
  | preparationFailed (lease : Lease)
  | namespaceFailed
  deriving DecidableEq, Repr

/-- The state of a pass. -/
structure PassState (ω : Type) where
  world : ω
  report : IncrementalLibraryChangeReport
  events : List PassEvent
  deriving DecidableEq, Repr

/-- A part of a pass. -/
abbrev Pass (ω : Type) := StateT (PassState ω) (Except ScanError)

section

variable {ω : Type}

/-- A call of a port, which notes what its answer means. -/
def callNoting {α : Type} (port : StateT ω (Except ScanError) α) (events : α → List PassEvent) : Pass ω α := fun state =>
  (port state.world).map fun answer => (answer.1, { state with world := answer.2, events := state.events ++ events answer.1 })

/-- A call of a port that settles nothing and whose failure is an error of the pass. -/
def call {α : Type} (port : StateT ω (Except ScanError) α) : Pass ω α := callNoting port fun _ => []

/-- What is noted of a preparation or a revalidation. -/
def preparationEvents {α : Type} (lease : Lease) : Except LibraryChangeFailure α → List PassEvent
  | .ok _ => []
  | .error _ => [.preparationFailed lease]

/-- A change of the report, which fails when a count overflows. -/
def updateReport (f : IncrementalLibraryChangeReport → Except ScanError IncrementalLibraryChangeReport) : Pass ω Unit :=
  fun state => (f state.report).map fun report => ((), { state with report })

/-- `count_overflow` -/
def countOverflow (field : String) : ScanError :=
  ⟨"incremental_count_overflow", "The " ++ field ++ " exceeded the supported range"⟩

/-- `checked_add` on a count, and `bounded_count` -/
def addCount (count added : Nat) (field : String) : Except ScanError Nat :=
  if count + added < 2 ^ 32 then .ok (count + added) else .error (countOverflow field)

/-! ## Settling -/

/-- `record_lease_deferral`, also made by `defer_changes` -/
def recordLeaseDeferral (outcome : LibraryChangeLeaseUpdateOutcome) : Pass ω Unit :=
  updateReport fun report =>
    if outcome = .applied then do
      return { report with deferredCount := ← addCount report.deferredCount 1 "deferred change count" }
    else do return { report with supersededCount := ← addCount report.supersededCount 1 "superseded change count" }

variable (ports : PassPorts ω)

/-- One round of `retry_changes` -/
def retryOne (entry : RetryEntry) : Pass ω Unit := do
  let outcome ← callNoting (ports.retryLibraryChange entry.1.lease entry.2) fun _ => [.retried entry.1.lease]
  updateReport fun report =>
    if outcome = .applied then do
      return { report with retriedCount := ← addCount report.retriedCount 1 "retried change count" }
    else do return { report with supersededCount := ← addCount report.supersededCount 1 "superseded change count" }

/-- `retry_changes`, for a list of changes with their failures. -/
def retryChanges (entries : List RetryEntry) : Pass ω Unit := entries.forM (retryOne ports)

/-- One round of `defer_changes` -/
def deferOne (prepared : PreparedLease) : Pass ω Unit := do
  let outcome ← callNoting (ports.deferLibraryChange prepared.leased.lease) fun _ => [.deferred prepared.leased.lease]
  recordLeaseDeferral outcome

/-- `defer_changes` -/
def deferPrepared (ready : List PreparedLease) : Pass ω Unit := ready.forM (deferOne ports)

/-- `defer_cancelled_leases` -/
def deferCancelledLeases (leased : List LeasedLibraryChange) : Pass ω Unit := do
  let outcomes ← callNoting (ports.deferLibraryChanges (leased.map (·.lease)))
    fun _ => leased.map fun change => .deferred change.lease
  if outcomes.length ≠ leased.length then
    throw ⟨"change_queue_deferral_outcome_invalid", "The queue must return exactly one outcome for each deferred lease"⟩
  else outcomes.forM recordLeaseDeferral

/-! ## Preparing -/

/-- The prepared changes of a loop, and those to be retried. -/
structure Sorted where
  ready : List PreparedLease := []
  retries : List RetryEntry := []

/-- A change that a round has prepared, before the others. -/
def Sorted.keep (prepared : PreparedLease) (rest : Sorted) : Sorted := { rest with ready := prepared :: rest.ready }

/-- A change that a round has failed on, before the others. -/
def Sorted.fail (entry : RetryEntry) (rest : Sorted) : Sorted := { rest with retries := entry :: rest.retries }

/-- What a round makes of a leased change. -/
abbrev RoundResult := Except LibraryChangeFailure PreparedLease

/-- A loop over changes of which each round may fail; it stops with nothing when the pass is cancelled. -/
def sortChanges {α : Type} (ports : PassPorts ω) (leasedOf : α → LeasedLibraryChange) (round : α → Pass ω RoundResult) :
    List α → Pass ω (Option Sorted)
  | [] => return some {}
  | item :: rest => do
    if ← call ports.cancellationRequested then return none
    else
      match ← round item with
      | .ok prepared => return (← sortChanges ports leasedOf round rest).map (.keep prepared)
      | .error issue => return (← sortChanges ports leasedOf round rest).map (.fail (leasedOf item, issue))

/-- A round of the preparation. -/
def prepareRound (leased : LeasedLibraryChange) : Pass ω RoundResult := do
  let answer ← callNoting (ports.prepareChange leased) (preparationEvents leased.lease)
  return answer.map fun prepared => ⟨leased, prepared.1, prepared.2⟩

/-- A round of the revalidation. -/
def revalidateRound (prepared : PreparedLease) : Pass ω RoundResult := do
  let answer ← callNoting (ports.revalidateChange prepared.change) (preparationEvents prepared.leased.lease)
  return answer.map fun _ => prepared

/-- A round of the rebase: the change is prepared anew and revalidated. -/
def rebaseRound (prepared : PreparedLease) : Pass ω RoundResult := do
  match ← prepareRound ports prepared.leased with
  | .error issue => return .error issue
  | .ok fresh => revalidateRound ports fresh

/-- `refresh_preparation` -/
def refreshPreparation (ready : List PreparedLease) (previousRoot currentRoot : IncrementalCatalogRoot) :
    Pass ω (Option Sorted) := do
  let sourcesMatch ← call (ports.preparationIsCurrent (ready.map (·.change)) previousRoot currentRoot)
  if ← call ports.cancellationRequested then return none
  else if sourcesMatch then return some { ready }
  else sortChanges ports (·.leased) (rebaseRound ports) ready

/-! ## Publishing -/

/-- How the publication loop ends: the pass has returned, or the changes to be retried are left. -/
inductive PublicationEnd where
  | returned
  | left (retries : List RetryEntry)

/-- What is fixed in a pass once the changes are leased. -/
structure PassContext where
  rootId : String
  rootGeneration : LibraryRootGeneration
  rootPath : String
  canPublishDuringScan : Bool
  expectedRootIdentity : FileIdentityEvidence
  leased : List LeasedLibraryChange

variable (context : PassContext)

/-- The delta of the ready changes. -/
def deltaBatch (expectedCatalogRevision : Nat) (ready : List PreparedLease) : CatalogDeltaBatch :=
  ⟨context.rootId, context.rootGeneration, expectedCatalogRevision, ready.flatMap (·.change.mutations),
    ready.flatMap (·.change.terminalMediaEvidence), ready.map (·.change.completion)⟩

/-- The ready changes, to be retried because of one failure. -/
def retryAll (ready : List PreparedLease) (issue : LibraryChangeFailure) : List RetryEntry := ready.map fun r => (r.leased, issue)

/-- What is noted of a publication of the ready changes. -/
def publicationEvents (ready : List PreparedLease) : Except ScanError CatalogDeltaPublication → List PassEvent
  | .ok publication => if publication.status = .applied then ready.map fun r => .completed r.leased.lease else []
  | .error error => if isPublicationNamespaceFailure error then [.namespaceFailed] else []

/-- The counts of an applied publication. -/
def recordApplied (publication : CatalogDeltaPublication) : Pass ω Unit :=
  updateReport fun report => do
    return { report with
      completedCount := ← addCount report.completedCount publication.completedChangeCount "completed change count"
      appliedMutationCount :=
        ← addCount report.appliedMutationCount publication.appliedMutationCount "applied mutation count" }

/-- What is wrong with a root that was loaded again, if it can no longer be published to. -/
def rebaseRefusal (latestRoot : IncrementalCatalogRoot) : Option CatalogDeltaPublicationStatus :=
  if latestRoot.rootGeneration ≠ context.rootGeneration ∨ latestRoot.rootPath ≠ context.rootPath then
    some .rootGenerationChanged
  else if latestRoot.hasRunningScan ∧ !context.canPublishDuringScan then some .rootScanInProgress
  else if latestRoot.activeScanId.isNone then some .noPublishedCatalog
  else none

/-- A stale catalog revision: the root is loaded again, the preparation refreshed, and `again` tries to publish it. -/
def rebase (again : IncrementalCatalogRoot → Sorted → Pass ω PublicationEnd) (preparationRoot : IncrementalCatalogRoot)
    (state : Sorted) : Pass ω PublicationEnd := do
  match ← call (ports.loadIncrementalCatalogRoot context.rootId) with
  | none => return .left (state.retries ++ retryAll state.ready (publicationFailure .rootGenerationChanged))
  | some latestRoot =>
    match rebaseRefusal context latestRoot with
    | some status => return .left (state.retries ++ retryAll state.ready (publicationFailure status))
    | none =>
      match ← refreshPreparation ports state.ready preparationRoot latestRoot with
      | none =>
        deferCancelledLeases ports context.leased
        return .returned
      | some refreshed => again latestRoot ⟨refreshed.ready, state.retries ++ refreshed.retries⟩

/-- What follows a publication that did not fail; `stale` handles a stale catalog revision. -/
def concludePublication (stale : Pass ω PublicationEnd) (state : Sorted)
    (publication : CatalogDeltaPublication) : Pass ω PublicationEnd := do
  updateReport fun report => .ok { report with catalogRevision := publication.catalogRevision }
  match publication.status with
  | .applied =>
    recordApplied publication
    return .left state.retries
  | .rootScanInProgress | .noPublishedCatalog =>
    deferPrepared ports state.ready
    return .left state.retries
  | .staleCatalogRevision => stale
  | status => return .left (state.retries ++ retryAll state.ready (publicationFailure status))

/-- One turn of the publication loop. -/
def publishOnce (stale : Pass ω PublicationEnd)
    (preparationRoot : IncrementalCatalogRoot) (state : Sorted) : Pass ω PublicationEnd := do
  if state.ready.isEmpty then return .left state.retries
  else if ← call ports.cancellationRequested then
    deferCancelledLeases ports context.leased
    return .returned
  else
    call (ports.requireRootIdentity context.expectedRootIdentity)
    match ← callNoting (ports.publishCatalogDelta (deltaBatch context preparationRoot.catalogRevision state.ready))
        (publicationEvents state.ready) with
    | .error error =>
      if isPublicationNamespaceFailure error then
        retryChanges ports (retryAll state.ready (scanFailure error))
        return .returned
      else throw error
    | .ok publication => concludePublication ports stale state publication

/-- The publication loop, with the rebase attempts that are left. -/
def publishReady (ports : PassPorts ω) (context : PassContext) : Nat → IncrementalCatalogRoot → Sorted → Pass ω PublicationEnd
  | 0, root, state =>
    publishOnce ports context (return .left (state.retries ++ retryAll state.ready (publicationFailure .staleCatalogRevision)))
      root state
  | attempts + 1, root, state =>
    publishOnce ports context (rebase ports context (publishReady ports context attempts) root state) root state

/-! ## The pass -/

/-- The namespace a batch is published in, or why all of it is retried. -/
def expectedIdentity (selection : PathLeaseSelection) (root : IncrementalCatalogRoot) (rootId : String)
    (rootGeneration : LibraryRootGeneration) : Pass ω (Except LibraryChangeFailure FileIdentityEvidence) := do
  if selection = .ownedRecovery then
    match ← call (ports.loadCandidateRootIdentity rootId rootGeneration) with
    | none => throw ⟨"metadata_inventory_candidate_root_identity_missing",
        "Owned recovery candidates lack their durable pinned-root identity"⟩
    | some identity =>
      if root.publicationRootIdentity.any (· != identity) then
        return .error ⟨"root_publication_namespace_conflict",
          "Recovery evidence disagrees with the established configured-root namespace"⟩
      else return .ok identity
  else
    match root.publicationRootIdentity with
    | some identity => return .ok identity
    | none => return .error ⟨"root_publication_namespace_unproven",
        "The configured root has no trustworthy persistent namespace identity"⟩

/-- What follows the publication loop. -/
def finishPublication : PublicationEnd → Pass ω Unit
  | .returned => return ()
  | .left retries => retryChanges ports retries

/-- The pass from the preparation on. -/
def prepareAndPublish (root : IncrementalCatalogRoot) : Pass ω Unit := do
  match ← sortChanges ports id (prepareRound ports) context.leased with
  | none => deferCancelledLeases ports context.leased
  | some prepared =>
    match ← sortChanges ports (·.leased) (revalidateRound ports) prepared.ready with
    | none => deferCancelledLeases ports context.leased
    | some revalidated =>
      let fin ← publishReady ports context maxCatalogRevisionRebaseAttempts root
        ⟨revalidated.ready, prepared.retries ++ revalidated.retries⟩
      finishPublication ports fin

/-- The pass once a batch is leased. -/
def processLeased (selection : PathLeaseSelection) (root : IncrementalCatalogRoot) (rootId : String)
    (rootGeneration : LibraryRootGeneration) (canPublishDuringScan : Bool) (leased : List LeasedLibraryChange) :
    Pass ω Unit := do
  match ← expectedIdentity ports selection root rootId rootGeneration with
  | .error issue => retryChanges ports (leased.map (·, issue))
  | .ok identity =>
    match ← call (ports.openNamespace root.rootPath identity) with
    | .error error => retryChanges ports (leased.map (·, scanFailure error))
    | .ok () =>
      if ← call ports.cancellationRequested then deferCancelledLeases ports leased
      else prepareAndPublish ports ⟨rootId, rootGeneration, root.rootPath, canPublishDuringScan, identity, leased⟩ root

/-- `validate_request` -/
def validateRequest (rootId : String) (policy : LibraryChangeQueuePolicy) : Except ScanError Unit :=
  if trimIsEmpty rootId || contains rootId '\x00' then
    .error ⟨"incremental_root_id_invalid", "The incremental library root ID must be non-empty and contain no NUL bytes"⟩
  else if !policy.isValid then
    .error ⟨"change_queue_policy_invalid", "The durable change queue policy must stay within its absolute bounds"⟩
  else .ok ()

/-- Whether a root can be worked on now. -/
def isProcessable (root : IncrementalCatalogRoot) (rootGeneration : LibraryRootGeneration) (canPublishDuringScan : Bool) : Bool :=
  root.rootGeneration == rootGeneration && root.activeScanId.isSome && (!root.hasRunningScan || canPublishDuringScan)

/-- The lease of a pass, and what is done with it. -/
def leaseAndProcess (selection : PathLeaseSelection) (root : IncrementalCatalogRoot) (rootId : String)
    (rootGeneration : LibraryRootGeneration) (canPublishDuringScan : Bool) : Pass ω Unit := do
  let batch ← callNoting (ports.leasePathLibraryChanges selection rootId rootGeneration)
    fun batch => batch.changes.map fun change => .leased change.lease
  updateReport fun report => do
    return { report with leasedCount := ← addCount 0 batch.changes.length "leased change count" }
  if batch.changes.isEmpty then return ()
  else processLeased ports selection root rootId rootGeneration canPublishDuringScan batch.changes

/-- `process_ready_library_changes_internal`; the report is that of the state it ends in. -/
def processReadyLibraryChanges (rootId : String) (rootGeneration : LibraryRootGeneration)
    (selection : PathLeaseSelection) (policy : LibraryChangeQueuePolicy) : Pass ω Unit := do
  monadLift (validateRequest rootId policy)
  if ← call ports.cancellationRequested then return ()
  else
    match ← call (ports.loadIncrementalCatalogRoot rootId) with
    | none => return ()
    | some root =>
      updateReport fun report => .ok { report with catalogRevision := root.catalogRevision }
      let canPublishDuringScan := decide (selection = .lane .live)
      if isProcessable root rootGeneration canPublishDuringScan then
        if ← call ports.cancellationRequested then return ()
        else leaseAndProcess ports selection root rootId rootGeneration canPublishDuringScan
      else return ()

end

end Ame
