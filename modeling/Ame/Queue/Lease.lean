import Ame.Queue.Enqueue
import Ame.Lib.Transition

/-!
# Leases, and the queue as a transition system

Between enqueues a worker leases unleased changes, and gives a lease back by a retry (`retry_leased_change_in_transaction`, also
when a lease expires) or by a deferral (`lease_deferral.rs`). Which of the ready changes a lease call takes depends on clocks,
attempt counts and tables outside this model: a lease step may take any unleased ones.
-/

namespace Ame

open Transition

/-- The row a lease writes. -/
def leasedRow (ids : List LibraryChangeId) (r : QueueRow) : QueueRow :=
  if ids.contains r.id && isUnleased r.status then { r with status := .leased } else r

/-- The update of `lease_matching_transaction`. -/
def leaseChanges (q : ChangeQueue) (ids : List LibraryChangeId) : ChangeQueue := q.modify (leasedRow ids)

/-- The row a retry writes: it waits, and remembers why. -/
def retriedRow (id : LibraryChangeId) (failureCode : String) (r : QueueRow) : QueueRow :=
  if r.id = id ∧ r.status = .leased then { r with status := .retryWait, lastFailureCode := some failureCode } else r

/-- `retry_leased_change_in_transaction` -/
def retryChange (q : ChangeQueue) (id : LibraryChangeId) (failureCode : String) : ChangeQueue :=
  q.modify (retriedRow id failureCode)

/-- The row a deferral writes: it is pending again. -/
def deferredRow (ids : List LibraryChangeId) (r : QueueRow) : QueueRow :=
  if ids.contains r.id && r.status == .leased then { r with status := .pending } else r

/-- `lease_deferral::defer` -/
def deferChanges (q : ChangeQueue) (ids : List LibraryChangeId) : ChangeQueue := q.modify (deferredRow ids)

/-- What can happen to the queue. -/
inductive QueueAction where
  | enqueue (incoming : LibraryChangeIntent) (ctx : EnqueueContext)
  | lease (ids : List LibraryChangeId)
  | retry (id : LibraryChangeId) (failureCode : String)
  | defer (ids : List LibraryChangeId)
  deriving DecidableEq, Repr

/-- One step: a successful enqueue of a valid intent, a lease, or a release. -/
inductive QueueStep : ChangeQueue → QueueAction → ChangeQueue → Prop where
  | enqueue {q q' : ChangeQueue} {incoming : LibraryChangeIntent} {ctx : EnqueueContext}
      {report report' : LibraryChangeEnqueueReport} {id : LibraryChangeId} (hvalid : BatchValid [incoming])
      (henqueue : enqueueOne incoming ctx q report = .ok (q', report', id)) : QueueStep q (.enqueue incoming ctx) q'
  | lease (q : ChangeQueue) (ids : List LibraryChangeId) : QueueStep q (.lease ids) (leaseChanges q ids)
  | retry (q : ChangeQueue) (id : LibraryChangeId) (failureCode : String) :
      QueueStep q (.retry id failureCode) (retryChange q id failureCode)
  | defer (q : ChangeQueue) (ids : List LibraryChangeId) : QueueStep q (.defer ids) (deferChanges q ids)

/-- The queues that any sequence of steps reaches from the empty one. -/
def ReachableQueue (q : ChangeQueue) : Prop := ∃ actions, Run QueueStep ChangeQueue.empty actions q

/-- What an action does to the queue, if it succeeds. -/
def QueueAction.apply (q : ChangeQueue) : QueueAction → Except ScanError ChangeQueue
  | .enqueue incoming ctx => do
    validateIntentBatch [incoming] incoming
    let (q, _, _) ← enqueueOne incoming ctx q {}
    return q
  | .lease ids => .ok (leaseChanges q ids)
  | .retry id failureCode => .ok (retryChange q id failureCode)
  | .defer ids => .ok (deferChanges q ids)

end Ame
