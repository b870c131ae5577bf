import Ame.Queue.Lifecycle
import Ame.Synchronization.Plan

/-!
# Handing a plan to the queue (`library_synchronization/observer_handoff.rs`)

An observer retains its plan until every intent of it is enqueued. `persist` offers all pending intents at once; if the queue
pushes back it offers the first half, a quarter, and so on, and keeps what follows the part that was taken for a later call. The
position in the line of writers is kept only while the database is busy.
-/

namespace Ame

/-- What is enqueued through `LibraryChangeIngress`: a call that succeeds enqueues the intents it was given, any other
nothing. -/
structure LibraryChangeIngress (Queue Reservation : Type) where
  reserveChangeIngress : List LibraryChangeIntent → Queue → Except ScanError Reservation × Queue
  tryEnqueueReservedChanges : Reservation → List LibraryChangeIntent → Int → LibraryChangeQueuePolicy → Queue →
    Except ScanError LibraryChangeEnqueueReport × Reservation × Queue
  enqueued : Queue → List LibraryChangeIntent
  reserve_enqueued (intents : List LibraryChangeIntent) (q : Queue) : enqueued (reserveChangeIngress intents q).2 = enqueued q
  enqueue_enqueued (reservation : Reservation) (intents : List LibraryChangeIntent) (now : Int)
    (policy : LibraryChangeQueuePolicy) (q : Queue) :
    enqueued (tryEnqueueReservedChanges reservation intents now policy q).2.2 = enqueued q ++
      if (tryEnqueueReservedChanges reservation intents now policy q).1.isOk then intents else []

/-- `is_transient_persistence_contention` -/
def isTransientPersistenceContention (code : String) : Bool :=
  code == "catalog_database_busy" || code == "catalog_database_locked"

/-- Whether the paths of a planned intent fit its kind and scope. -/
def plannedShapeIsValid (intent : LibraryChangeIntent) : Bool :=
  let hasPath := !intent.relativePath.isEmpty
  let hasPreviousPath := intent.previousRelativePath.any fun path => !path.isEmpty
  match intent.kind with
  | .freshnessUnknown => intent.scope == .root && !hasPath && !hasPreviousPath
  | .renameCandidate => intent.scope != .root && hasPath && hasPreviousPath
  | .reconcile =>
    match intent.scope with
    | .root => !hasPath && !hasPreviousPath
    | .path => hasPath && intent.previousRelativePath.all fun previous => !previous.isEmpty && previous != intent.relativePath
    | .subtree => hasPath && !hasPreviousPath

/-- `validate_intent` of `application/library_change_queue.rs` -/
def validatePlannedIntent (plan : LibraryChangePlanningResult) (intent : LibraryChangeIntent) : Except ScanError Unit :=
  if intent.rootId ≠ plan.rootId ∨ intent.rootGeneration ≠ plan.rootGeneration then
    .error ⟨"change_queue_plan_mismatch", "Every durable change intent must belong to the planned root generation"⟩
  else if intent.coalescedObservationCount = 0 ∨ intent.mostRecentObservedUnixMs < intent.firstObservedUnixMs ∨
      intent.mostRecentSequence < intent.firstSequence then
    .error ⟨"change_queue_evidence_invalid", "Durable change evidence must contain a non-empty ordered observation range"⟩
  else if !plannedShapeIsValid intent then
    .error ⟨"change_queue_intent_invalid", "The durable change intent does not match its normalized kind and scope"⟩
  else .ok ()

/-- `validate_library_change_plan` -/
def validateLibraryChangePlan (plan : LibraryChangePlanningResult) (policy : LibraryChangeQueuePolicy) :
    Except ScanError Unit :=
  if !policy.isValid then
    .error ⟨"change_queue_policy_invalid", "The durable change queue policy must stay within its absolute bounds"⟩
  else plan.intents.forM (validatePlannedIntent plan)

/-- `ObserverHandoff` with the queue it writes to, and the attempts of the present call with their results. -/
structure ObserverHandoff (Queue Reservation : Type) where
  pending : Option LibraryChangePlanningResult
  reservation : Option Reservation
  queue : Queue
  attempts : List (List LibraryChangeIntent × Except ScanError LibraryChangeEnqueueReport)

namespace ObserverHandoff

variable {Queue Reservation : Type} (ingress : LibraryChangeIngress Queue Reservation) (now : Int)
  (policy : LibraryChangeQueuePolicy) (s : ObserverHandoff Queue Reservation)

/-- The intents that are still pending. -/
def pendingIntents : List LibraryChangeIntent := s.pending.elim [] (·.intents)

/-- `release_admission` -/
def releaseAdmission : ObserverHandoff Queue Reservation :=
  { s with reservation := none }

/-- `retain` -/
def retain (plan : LibraryChangePlanningResult) : Except ScanError (ObserverHandoff Queue Reservation) :=
  if s.pending.isSome then
    .error ⟨"change_ingress_handoff_occupied", "Uncommitted observation evidence cannot be replaced by another plan"⟩
  else .ok { s with pending := some plan }

/-- The position in the line of writers: the one that was kept, or a new one. -/
def reserved (intents : List LibraryChangeIntent) (s : ObserverHandoff Queue Reservation) :
    Except ScanError Reservation × Queue :=
  match s.reservation with
  | some reservation => (.ok reservation, s.queue)
  | none => ingress.reserveChangeIngress intents s.queue

/-- `attempt`: offer the first intents. -/
def attempt (count : Nat) (s : ObserverHandoff Queue Reservation) :
    Except ScanError LibraryChangeEnqueueReport × ObserverHandoff Queue Reservation :=
  let intents := s.pendingIntents.take count
  match reserved ingress intents s with
  | (.error e, queue) => (.error e, { s with queue := queue, attempts := s.attempts ++ [(intents, .error e)] })
  | (.ok reservation, queue) =>
    let (result, reservation, queue) := ingress.tryEnqueueReservedChanges reservation intents now policy queue
    let keeps := match result with
      | .ok _ => false
      | .error e => isTransientPersistenceContention e.code
    (result, { s with
      reservation := if keeps then some reservation else none
      queue := queue
      attempts := s.attempts ++ [(intents, result)] })

/-- The queue pushes back. -/
def isBackpressure (e : ScanError) : Bool := e.code == "change_queue_backpressure"

/-- The loop of `persist`: offer a first part, and half of it while the queue pushes back. -/
def persistFront (first : ScanError) (count : Nat) (s : ObserverHandoff Queue Reservation) :
    ScanError × ObserverHandoff Queue Reservation :=
  match attempt ingress now policy count s with
  | (.ok _, s) => (first, { s with pending := s.pending.map fun plan => { plan with intents := plan.intents.drop count } })
  | (.error e, s) => if isBackpressure e ∧ 1 < count then persistFront first (max (count / 2) 1) s else (e, s)
termination_by count
decreasing_by omega

/-- `persist` -/
def persist : Except ScanError Unit × ObserverHandoff Queue Reservation :=
  let s := { s with attempts := [] }
  match s.pending with
  | none => (.ok (), s)
  | some plan =>
    match validateLibraryChangePlan plan policy with
    | .error e => (.error e, s.releaseAdmission)
    | .ok () =>
      let count := plan.intents.length
      if count = 0 then (.ok (), { s with pending := none })
      else
        match attempt ingress now policy count s with
        | (.ok _, s) => (.ok (), { s with pending := none })
        | (.error e, s) =>
          if isBackpressure e ∧ 1 < count then
            let (e, s) := persistFront ingress now policy e (max (count / 2) 1) s
            (.error e, s)
          else (.error e, s)

end ObserverHandoff

/-- A call of the observer. -/
inductive HandoffCall where
  | persist (now : Int) (policy : LibraryChangeQueuePolicy)
  | releaseAdmission

/-- What a call leaves. -/
def HandoffCall.apply {Queue Reservation : Type} (ingress : LibraryChangeIngress Queue Reservation)
    (s : ObserverHandoff Queue Reservation) : HandoffCall → ObserverHandoff Queue Reservation
  | .persist now policy => (s.persist ingress now policy).2
  | .releaseAdmission => s.releaseAdmission

end Ame
