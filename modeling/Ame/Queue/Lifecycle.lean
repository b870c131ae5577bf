import Ame.Queue.Lease

/-!
# The rest of a change's life

A leased change is completed when its delta is published, and changes are superseded also outside of an enqueue: when a root
gets a new generation, a gap is promoted or a scan takes them over (`mark_superseded` without a successor). Together with the
enqueues, leases and releases these are the steps of the queue under one policy.
-/

namespace Ame

/-- `LibraryChangeQueuePolicy::is_valid`, for the limit that the admission reads. -/
def LibraryChangeQueuePolicy.isValid (policy : LibraryChangeQueuePolicy) : Bool :=
  decide (0 < policy.maxUnresolvedChanges) && decide (policy.maxUnresolvedChanges ≤ Ame.maxUnresolvedChanges)

/-- The row a completion writes. -/
def completedRow (ids : List LibraryChangeId) (r : QueueRow) : QueueRow :=
  if ids.contains r.id && r.status == .leased then { r with status := .completed } else r

/-- The completion of leased changes. -/
def completeChanges (q : ChangeQueue) (ids : List LibraryChangeId) : ChangeQueue := q.modify (completedRow ids)

/-- The row `mark_superseded` writes when the successor is optional. -/
def retiredRow (ids : List LibraryChangeId) (successor : Option LibraryChangeId) (r : QueueRow) : QueueRow :=
  if ids.contains r.id && successor != some r.id && r.status.isActive then
    { r with status := .superseded, supersededBy := successor }
  else r

/-- `mark_superseded`, outside of an enqueue. -/
def retireChanges (q : ChangeQueue) (ids : List LibraryChangeId) (successor : Option LibraryChangeId) : ChangeQueue :=
  q.modify (retiredRow ids successor)

/-- What can happen to the queue over the whole life of its changes. -/
inductive LifecycleAction where
  | queue (action : QueueAction)
  | complete (ids : List LibraryChangeId)
  | supersede (ids : List LibraryChangeId) (successor : Option LibraryChangeId)
  deriving DecidableEq, Repr

/-- The action is not an enqueue under another policy, or one that protects changes. -/
def QueueAction.follows (policy : LibraryChangeQueuePolicy) : QueueAction → Bool
  | .enqueue _ ctx => decide (ctx.policy = policy) && ctx.protectedChangeIds.isEmpty
  | _ => true

/-- One step of the queue under a policy, without protected changes. -/
inductive LifecycleStep (policy : LibraryChangeQueuePolicy) : ChangeQueue → LifecycleAction → ChangeQueue → Prop where
  | queue {q q' : ChangeQueue} {action : QueueAction} (hstep : QueueStep q action q') (hpolicy : action.follows policy = true) :
      LifecycleStep policy q (.queue action) q'
  | complete (q : ChangeQueue) (ids : List LibraryChangeId) : LifecycleStep policy q (.complete ids) (completeChanges q ids)
  | supersede (q : ChangeQueue) (ids : List LibraryChangeId) (successor : Option LibraryChangeId) :
      LifecycleStep policy q (.supersede ids successor) (retireChanges q ids successor)

end Ame
