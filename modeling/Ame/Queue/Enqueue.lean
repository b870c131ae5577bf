import Ame.Queue.Store
import Ame.Lib.Iter
import Mathlib

/-!
# Enqueueing an intent (`change_queue/coalescing.rs`)

`enqueue_one` puts an intent into the durable queue. It looks at the unresolved changes of the intent's lane and journal
watermark and takes one of these branches: leave an exact path to a lane of higher priority; widen everything to the root, when
a rename conflicts or a leased change overlaps in an ambiguous way; merge the intent into an unleased change that covers it; or
insert it, absorbing what it covers and what is leased and overlaps it, if the lane has room for it.
-/

namespace Ame

open Iter

/-- `LibraryChangeQueuePolicy`: of its limits, the one the queue's admission reads. -/
structure LibraryChangeQueuePolicy where
  maxUnresolvedChanges : Nat
  deriving DecidableEq, Repr

/-- `lane_capacity` -/
def LibraryChangeQueuePolicy.laneCapacity (policy : LibraryChangeQueuePolicy) (lane : LibraryChangeLane) : Nat :=
  let proportionalReserve := policy.maxUnresolvedChanges / 8
  let priorityReserve := if proportionalReserve = 0 then 1 else proportionalReserve
  let journalCapacity := policy.maxUnresolvedChanges - priorityReserve
  match lane with
  | .live => policy.maxUnresolvedChanges
  | .journal => journalCapacity
  | .recovery =>
    let journalReserve :=
      if 1 < journalCapacity then
        let available := journalCapacity - 1
        if priorityReserve < available then priorityReserve else available
      else 0
    journalCapacity - journalReserve

/-- `LibraryChangeEnqueueReport`: what an enqueue did, for its caller. -/
structure LibraryChangeEnqueueReport where
  insertedCount : Nat := 0
  coalescedCount : Nat := 0
  supersededCount : Nat := 0
  capacityDegraded : Bool := false
  freshnessUnknownEnqueued : Bool := false
  deriving DecidableEq, Repr

/-- `EnqueueContext` -/
structure EnqueueContext where
  policy : LibraryChangeQueuePolicy
  evidence : Option LibraryChangeCatchUpEvidence
  protectedChangeIds : List LibraryChangeId
  allowScopeDegradation : Bool
  deriving DecidableEq, Repr

/-- The saturating addition of the report's counters. -/
def saturatingAdd (a b : Nat) : Nat := min (a + b) u32Max

/-- `queue_backpressure` -/
def queueBackpressure : ScanError :=
  ⟨"change_queue_backpressure", "The durable path queue must drain before more live observations are retained"⟩

/-- `metadata_inventory_backpressure` -/
def metadataInventoryBackpressure : ScanError :=
  ⟨"metadata_inventory_backpressure", "The durable path queue must drain before inventory comparison continues"⟩

/-- `PERSISTENT_JOURNAL_CATCH_UP_SOURCE` -/
def persistentJournalCatchUpSource : String := "persistent_journal_v1"

/-- `LibraryChangeCapacityDeferral::MetadataInventoryLane.failure_code()` -/
def capacityDeferralFailureCode : String := "live_gap_p2_capacity_deferred"

/-- `is_typed_capacity_deferred_live_gap`: a live gap over the root or a subtree that waits for inventory capacity. The lane
table follows the origin. -/
def isTypedCapacityDeferredLiveGap (r : QueueRow) : Bool :=
  (r.status == .leased || r.status == .retryWait) && r.lastFailureCode == some capacityDeferralFailureCode &&
    r.intent.origin == .liveNotification && r.intent.previousRelativePath.isNone &&
    (r.intent.kind == .freshnessUnknown && r.intent.scope == .root && r.intent.relativePath.isEmpty ||
      r.intent.kind == .reconcile && r.intent.scope == .subtree && !r.intent.relativePath.isEmpty) &&
    !r.hasRecoveryClaim

/-- `preserves_inventory_control` -/
def preservesInventoryControl (incoming : LibraryChangeIntent) : Bool :=
  incoming.kind != .freshnessUnknown && !(incoming.origin == .startupCatchUp || incoming.origin == .consistencyAudit)

/-- The persistent-journal watermark of catch-up evidence. -/
def persistentWatermark (evidence : Option LibraryChangeCatchUpEvidence) : Option String :=
  (evidence.filter fun value => value.source == persistentJournalCatchUpSource).map (·.watermark)

/-- `exact_path_work_identity` -/
def exactPathWorkIdentity (left right : LibraryChangeIntent) : Bool :=
  left.scope == .path && right.scope == .path && left.relativePath == right.relativePath &&
    left.previousRelativePath == right.previousRelativePath

/-- `lane_priority` -/
def lanePriority : LibraryChangeLane → Nat
  | .live => 0
  | .journal => 1
  | .recovery => 2

/-- `capacity_deferred_gap_preserves_precise_work`: a deferred live gap is left alone by a precise live intent. -/
def capacityDeferredGapPreservesPreciseWork (change : QueueRow) (incoming : LibraryChangeIntent)
    (capacityDeferredGapIds : List LibraryChangeId) : Bool :=
  capacityDeferredGapIds.contains change.id && incoming.origin == .liveNotification && incoming.scope == .path &&
    incoming.kind != .freshnessUnknown

variable (active : List QueueRow)

/-- `has_ambiguous_leased_overlap` -/
def hasAmbiguousLeasedOverlap (incoming : LibraryChangeIntent) (capacityDeferredGapIds : List LibraryChangeId) : Bool :=
  active.any fun change =>
    change.status == .leased && !capacityDeferredGapPreservesPreciseWork change incoming capacityDeferredGapIds &&
      affectedPathsOverlap change.intent incoming && !intentCovers change.intent incoming &&
      !intentCovers incoming change.intent

/-! ## Admission -/

/-- `ActiveLaneCounts` -/
structure ActiveLaneCounts where
  live : Nat
  journal : Nat
  recovery : Nat
  deriving DecidableEq, Repr

section

variable (counts : ActiveLaneCounts) (lane : LibraryChangeLane)

/-- `ActiveLaneCounts::adding` -/
def ActiveLaneCounts.adding (count : Nat) : ActiveLaneCounts :=
  match lane with
  | .live => { counts with live := counts.live + count }
  | .journal => { counts with journal := counts.journal + count }
  | .recovery => { counts with recovery := counts.recovery + count }

/-- `ActiveLaneCounts::replacing` -/
def ActiveLaneCounts.replacing (absorbedCount : Nat) :
    ActiveLaneCounts :=
  match lane with
  | .live => { counts with live := counts.live - absorbedCount + 1 }
  | .journal => { counts with journal := counts.journal - absorbedCount + 1 }
  | .recovery => { counts with recovery := counts.recovery - absorbedCount + 1 }

end

/-- `active_lane_counts` -/
def activeLaneCounts : ActiveLaneCounts :=
  active.foldl (fun counts change => counts.adding change.intent.origin.lane 1) ⟨0, 0, 0⟩

/-- `lane_admission_allows` -/
def laneAdmissionAllows (policy : LibraryChangeQueuePolicy) (incomingLane : LibraryChangeLane) (counts : ActiveLaneCounts) :
    Bool :=
  if policy.maxUnresolvedChanges < counts.live + counts.journal + counts.recovery then false
  else
    match incomingLane with
    | .live => true
    | .journal => decide (counts.journal + counts.recovery ≤ policy.laneCapacity .journal)
    | .recovery =>
      decide (counts.journal + counts.recovery ≤ policy.laneCapacity .journal) &&
        decide (counts.recovery ≤ policy.laneCapacity .recovery)

/-! ## The branches -/

/-- What a branch returns: the queue, the report, and the change that owns the incoming work. -/
abbrev EnqueueResult := Except ScanError (ChangeQueue × LibraryChangeEnqueueReport × LibraryChangeId)

/-- The evidence a change keeps: the incoming evidence, or else that of the last absorbed change that has any. -/
def retainedEvidence (evidence : Option LibraryChangeCatchUpEvidence) (absorbed : List QueueRow) :
    Option LibraryChangeCatchUpEvidence :=
  evidence.or (absorbed.reverse.findSome? (·.catchUpEvidence))

/-- The intent `degrade_to_root` writes: the whole root, with the evidence of everything it replaces. -/
def rootIntent (incoming : LibraryChangeIntent) : LibraryChangeIntent :=
  active.foldl (fun root change => mergeOlderEvidence root change.intent) (widenToRoot incoming)

/-- The change `degrade_to_root` writes: an unleased change over the whole root if there is one, or else a new one. -/
def writeRoot (q : ChangeQueue) (active : List QueueRow) (root : LibraryChangeIntent)
    (retained : Option LibraryChangeCatchUpEvidence) (report : LibraryChangeEnqueueReport) : EnqueueResult :=
  match active.find? fun change =>
    isUnleased change.status && change.intent.scope == .root && change.intent.kind == .freshnessUnknown with
  | some existing => do
    let q ← updateChange q existing.id root retained
    return (q, { report with coalescedCount := saturatingAdd report.coalescedCount 1 }, existing.id)
  | none => do
    let (q, id) ← insertChange q root retained
    return (q, { report with insertedCount := saturatingAdd report.insertedCount 1 }, id)

/-- `degrade_to_root` -/
def degradeToRoot (q : ChangeQueue) (active : List QueueRow) (incoming : LibraryChangeIntent)
    (report : LibraryChangeEnqueueReport) (evidence : Option LibraryChangeCatchUpEvidence) (capacityDegraded : Bool) :
    EnqueueResult := do
  let (q, report, targetId) ← writeRoot q active (rootIntent active incoming) (retainedEvidence evidence active) report
  let q ← transferCatchUpLineage q (active.map (·.id)) targetId
  let (q, superseded) := markSuperseded q ((active.filter fun change => change.id != targetId).map (·.id)) targetId
  return (q, { report with
    supersededCount := saturatingAdd report.supersededCount superseded
    capacityDegraded := report.capacityDegraded || capacityDegraded
    freshnessUnknownEnqueued := true }, targetId)

/-- `supersede_recovery_candidates_covered_by_higher_lane` -/
def supersedeRecoveryCandidatesCoveredByHigherLane (q : ChangeQueue) (allActive : List QueueRow)
    (incomingLane : LibraryChangeLane) (targetId : LibraryChangeId) (target : LibraryChangeIntent)
    (report : LibraryChangeEnqueueReport) : ChangeQueue × LibraryChangeEnqueueReport :=
  if incomingLane = .recovery ∨ target.scope ≠ .path then (q, report)
  else
    let candidates := allActive.filter fun change =>
      change.intent.origin.lane == .recovery && exactPathWorkIdentity change.intent target
    let (q, superseded) := markSuperseded q (candidates.map (·.id)) targetId
    (q, { report with supersededCount := saturatingAdd report.supersededCount superseded })

/-- The merged intent of the covering branch before anything is absorbed. -/
def mergeIntoTarget (target : QueueRow) (incoming : LibraryChangeIntent) : LibraryChangeIntent :=
  let merged := mergeNewerEvidence target.intent incoming
  if incoming.kind = .freshnessUnknown then { merged with kind := .freshnessUnknown } else merged

/-- What the covering branch absorbs besides the target: unleased changes the merge covers and leased ones that overlap. -/
def absorbedByTarget (target : QueueRow) (incoming : LibraryChangeIntent) (gapIds : List LibraryChangeId) : List QueueRow :=
  active.filter fun change =>
    change.id != target.id && (isUnleased change.status && intentCovers (mergeIntoTarget target incoming) change.intent ||
        change.status == .leased && staleOverlap change.intent incoming) &&
      !capacityDeferredGapPreservesPreciseWork change incoming gapIds

/-- The covering branch of `enqueue_one`. -/
def enqueueCovered (q : ChangeQueue) (allActive active : List QueueRow) (target : QueueRow)
    (incoming : LibraryChangeIntent) (gapIds : List LibraryChangeId) (ctx : EnqueueContext)
    (report : LibraryChangeEnqueueReport) : EnqueueResult := do
  let absorbed := absorbedByTarget active target incoming gapIds
  let merged := absorbed.foldl (fun merged change => mergeOlderEvidence merged change.intent) (mergeIntoTarget target incoming)
  let q ← updateChange q target.id merged (retainedEvidence ctx.evidence absorbed)
  let q ← transferCatchUpLineage q (absorbed.map (·.id)) target.id
  let (q, superseded) := markSuperseded q (absorbed.map (·.id)) target.id
  let report := { report with
    coalescedCount := saturatingAdd report.coalescedCount 1
    supersededCount := saturatingAdd report.supersededCount superseded
    freshnessUnknownEnqueued := report.freshnessUnknownEnqueued || merged.kind == .freshnessUnknown }
  let (q, report) := supersedeRecoveryCandidatesCoveredByHigherLane q allActive incoming.origin.lane target.id merged report
  return (q, report, target.id)

/-- What the inserting branch absorbs: what the incoming intent covers, and leased changes that overlap it. -/
def absorbedByIncoming (incoming : LibraryChangeIntent) (gapIds : List LibraryChangeId) : List QueueRow :=
  active.filter fun change =>
    (intentCovers incoming change.intent || change.status == .leased && staleOverlap change.intent incoming) &&
      !capacityDeferredGapPreservesPreciseWork change incoming gapIds

section

variable (absorbed : List QueueRow) (incoming : LibraryChangeIntent)

/-- The strongest absorbed change that covers the incoming intent: `stronger`. -/
def strongestCovering : Option QueueRow :=
  maxByKey (fun change => intentStrength change.intent) (absorbed.filter fun change => intentCovers change.intent incoming)

/-- The merged intent of the inserting branch. -/
def mergeInserted : LibraryChangeIntent :=
  let stronger := strongestCovering absorbed incoming
  let merged := match stronger with
    | some change => mergeNewerEvidence change.intent incoming
    | none => incoming
  absorbed.foldl
    (fun merged change => if stronger.any (fun s => s.id == change.id) then merged else mergeOlderEvidence merged change.intent)
    merged

end

/-- The inserting branch of `enqueue_one`, once there is room. -/
def enqueueInserted (q : ChangeQueue) (allActive absorbed : List QueueRow) (incoming : LibraryChangeIntent)
    (ctx : EnqueueContext) (report : LibraryChangeEnqueueReport) : EnqueueResult := do
  let merged := mergeInserted absorbed incoming
  let (q, id) ← insertChange q merged (retainedEvidence ctx.evidence absorbed)
  let q ← transferCatchUpLineage q (absorbed.map (·.id)) id
  let (q, superseded) := markSuperseded q (absorbed.map (·.id)) id
  let report := { report with
    insertedCount := saturatingAdd report.insertedCount 1
    supersededCount := saturatingAdd report.supersededCount superseded
    freshnessUnknownEnqueued := report.freshnessUnknownEnqueued || merged.kind == .freshnessUnknown }
  let (q, report) := supersedeRecoveryCandidatesCoveredByHigherLane q allActive incoming.origin.lane id merged report
  return (q, report, id)

/-! ## `enqueue_one` -/

section

variable (allActive : List QueueRow)

/-- The changes of the incoming intent's lane and journal watermark: `same_lane`. -/
def sameLaneChanges (incoming : LibraryChangeIntent) (ctx : EnqueueContext) : List QueueRow :=
  allActive.filter fun change =>
    change.intent.origin.lane == incoming.origin.lane &&
      persistentWatermark change.catchUpEvidence == persistentWatermark ctx.evidence

/-- The changes the incoming intent may be merged with: `active`. -/
def mergeableChanges (incoming : LibraryChangeIntent) (ctx : EnqueueContext) : List QueueRow :=
  (sameLaneChanges allActive incoming ctx).filter fun change =>
    !preservesInventoryControl incoming || !ctx.protectedChangeIds.contains change.id

/-- The deferred live gaps: `capacity_deferred_gap_ids`. -/
def capacityDeferredGapIds : List LibraryChangeId :=
  (allActive.filter isTypedCapacityDeferredLiveGap).map (·.id)

/-- The change of a higher lane that owns exactly the incoming recovery path: `higher_priority`. -/
def higherPriorityOwner (incoming : LibraryChangeIntent) : Option QueueRow :=
  if incoming.origin.lane = .recovery then
    minByKey (fun change => toLex (lanePriority change.intent.origin.lane, change.id)) <| allActive.filter fun change =>
      change.intent.origin.lane != .recovery && exactPathWorkIdentity change.intent incoming
  else none

end

/-- The unleased change the incoming intent is merged into, if one covers it. -/
def coveringTarget (incoming : LibraryChangeIntent) (gapIds : List LibraryChangeId) : Option QueueRow :=
  active.find? fun change =>
    isUnleased change.status && intentCovers change.intent incoming &&
      !capacityDeferredGapPreservesPreciseWork change incoming gapIds

/-- Whether the lane has room for the incoming intent once `absorbedCount` changes are gone. -/
def admits (allActive : List QueueRow) (incoming : LibraryChangeIntent) (ctx : EnqueueContext) (absorbedCount : Nat) : Bool :=
  let quotaActive := allActive.filter fun change =>
    change.intent.origin.lane != incoming.origin.lane || !ctx.protectedChangeIds.contains change.id
  laneAdmissionAllows ctx.policy incoming.origin.lane
      ((activeLaneCounts quotaActive).replacing incoming.origin.lane absorbedCount) &&
    decide (allActive.length - absorbedCount + 1 ≤ maxUnresolvedChanges)

/-- The number of changes that a degradation for capacity would not reach: `protected_count`. -/
def protectedCount (allActive active : List QueueRow) (gapIds : List LibraryChangeId) (ctx : EnqueueContext) : Nat :=
  allActive.length - active.length + (gapIds.filter fun id => !ctx.protectedChangeIds.contains id).length

/-- The body of `enqueue_one`; `again` is its call to itself, on the queue that a degradation left. -/
def enqueueBody (again : ChangeQueue → LibraryChangeEnqueueReport → EnqueueResult) (incoming : LibraryChangeIntent)
    (ctx : EnqueueContext) (q : ChangeQueue) (report : LibraryChangeEnqueueReport) : EnqueueResult := do
  let allActive ← loadActiveChanges q incoming.rootId incoming.rootGeneration
  let gapIds := capacityDeferredGapIds allActive
  if incoming.origin.lane ≠ .live ∧ ctx.policy.laneCapacity incoming.origin.lane = 0 then throw queueBackpressure
  match higherPriorityOwner allActive incoming with
  | some owner => return (q, { report with coalescedCount := saturatingAdd report.coalescedCount 1 }, owner.id)
  | none =>
    let sameLane := sameLaneChanges allActive incoming ctx
    let active := mergeableChanges allActive incoming ctx
    if hasConflictingRename (active.map (·.intent)) incoming then
      if ctx.allowScopeDegradation then degradeToRoot q sameLane incoming report ctx.evidence false
      else throw metadataInventoryBackpressure
    else if hasAmbiguousLeasedOverlap active incoming gapIds then
      if ctx.allowScopeDegradation then do
        let (q, report, rootId) ← degradeToRoot q sameLane incoming report ctx.evidence false
        if isPreciseDirtyReconcile incoming then again q report else return (q, report, rootId)
      else throw metadataInventoryBackpressure
    else
      match coveringTarget active incoming gapIds with
      | some target => enqueueCovered q allActive active target incoming gapIds ctx report
      | none =>
        let absorbed := absorbedByIncoming active incoming gapIds
        if admits allActive incoming ctx absorbed.length then enqueueInserted q allActive absorbed incoming ctx report
        else if 0 < protectedCount allActive active gapIds ctx then
          throw (if ctx.allowScopeDegradation then queueBackpressure else metadataInventoryBackpressure)
        else if ctx.allowScopeDegradation then degradeToRoot q active incoming report ctx.evidence true
        else throw metadataInventoryBackpressure

/-- `enqueue_one`, with at most `fuel` calls of itself. -/
def enqueueOneFuel : Nat → LibraryChangeIntent → EnqueueContext → ChangeQueue → LibraryChangeEnqueueReport → EnqueueResult
  | 0, _, _, _, _ => .error ⟨"", ""⟩
  | fuel + 1, incoming, ctx, q, report => enqueueBody (enqueueOneFuel fuel incoming ctx) incoming ctx q report

/-- `enqueue_one`. After it has widened everything to the root it calls itself once, and finds nothing left to widen. -/
def enqueueOne (incoming : LibraryChangeIntent) (ctx : EnqueueContext) (q : ChangeQueue)
    (report : LibraryChangeEnqueueReport) : EnqueueResult :=
  enqueueOneFuel 2 incoming ctx q report

end Ame
