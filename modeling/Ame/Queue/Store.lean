import Ame.Queue.Coverage
import Mathlib

/-!
# The durable change queue (`change_queue/persistence.rs`)

The queue is a table of changes with ascending identifiers. A change is pending, leased or waiting for a retry while it is
active, and completed or superseded after that. The operations of this module are the statements the queue runs inside a
transaction: insert a change, update one, pass the catch-up lineage of some changes on to another, and supersede changes.

Left out are the columns that only decide when a change is leased (deadlines, attempts, lease generations, the catalog
revisions) and the tables that follow the queue's rows without being read here.
-/

namespace Ame

/-- `LibraryChangeId`: the row number of a change. -/
abbrev LibraryChangeId := Nat

/-- The states of a change. -/
inductive LibraryChangeQueueStatus where
  | pending | leased | retryWait | completed | superseded
  deriving DecidableEq, Repr

/-- A change is unresolved in the first three states. -/
def LibraryChangeQueueStatus.isActive : LibraryChangeQueueStatus → Bool
  | .pending | .leased | .retryWait => true
  | .completed | .superseded => false

/-- `is_unleased` -/
def isUnleased : LibraryChangeQueueStatus → Bool
  | .pending | .retryWait => true
  | _ => false

/-- Where a change was observed: a catch-up source and its watermark. -/
structure LibraryChangeCatchUpEvidence where
  source : String
  watermark : String
  deriving DecidableEq, Repr

/-- A stored change: the columns of its row that the queue's own logic reads, its rows in the lineage table, and whether a
live-gap recovery claim names it. -/
structure QueueRow where
  id : LibraryChangeId
  intent : LibraryChangeIntent
  status : LibraryChangeQueueStatus
  catchUpEvidence : Option LibraryChangeCatchUpEvidence
  catchUpLineage : List LibraryChangeCatchUpEvidence
  lastFailureCode : Option String
  supersededBy : Option LibraryChangeId
  hasRecoveryClaim : Bool
  deriving DecidableEq, Repr

/-- The table. Identifiers are handed out in ascending order and never twice. -/
structure ChangeQueue where
  rows : List QueueRow
  nextId : LibraryChangeId
  below : ∀ r ∈ rows, r.id < nextId
  distinct : (rows.map (·.id)).Nodup
  deriving DecidableEq

/-- The queue without changes. -/
def ChangeQueue.empty : ChangeQueue := ⟨[], 1, by simp, by simp⟩

variable (q : ChangeQueue)

/-- Rewrite the rows of the queue; a row keeps its identifier. -/
def ChangeQueue.modify (f : QueueRow → QueueRow) : ChangeQueue where
  rows := q.rows.map (fun r => { f r with id := r.id })
  nextId := q.nextId
  below := by
    intro r hr
    obtain ⟨r', hr', rfl⟩ := List.mem_map.mp hr
    exact q.below r' hr'
  distinct := by
    rw [List.map_map]
    exact q.distinct

/-- Append a row under the next identifier. -/
def ChangeQueue.insert (row : QueueRow) : ChangeQueue where
  rows := q.rows ++ [{ row with id := q.nextId }]
  nextId := q.nextId + 1
  below := by
    intro r hr
    rcases List.mem_append.mp hr with hr | hr
    · exact Nat.lt_succ_of_lt (q.below r hr)
    · rw [List.mem_singleton.mp hr]
      exact Nat.lt_succ_self _
  distinct := by
    rw [List.map_append, List.nodup_append]
    refine ⟨q.distinct, by simp, ?_⟩
    intro a ha b hb
    obtain ⟨r, hr, rfl⟩ := List.mem_map.mp ha
    have hb' : b = q.nextId := by simpa using hb
    exact hb' ▸ Nat.ne_of_lt (q.below r hr)

/-- `MAX_CATCH_UP_LINEAGE_PER_CHANGE` -/
def maxCatchUpLineagePerChange : Nat := 64

/-- `load_active_changes`: the unresolved changes of a root generation, by identifier. -/
def loadActiveChanges (rootId : String) (rootGeneration : LibraryRootGeneration) : Except ScanError (List QueueRow) :=
  let changes := q.rows.filter fun r =>
    r.intent.rootId == rootId && r.intent.rootGeneration == rootGeneration && r.status.isActive
  if maxUnresolvedChanges < changes.length then
    .error ⟨"change_queue_capacity_corrupt", "The durable change queue exceeds its absolute unresolved-work bound"⟩
  else .ok changes

variable (id : LibraryChangeId)

/-- `validate_catch_up_lineage_bound` -/
def validateCatchUpLineageBound : Except ScanError Unit :=
  if q.rows.any (fun r => r.id == id && decide (maxCatchUpLineagePerChange < r.catchUpLineage.length)) then
    .error ⟨"change_queue_catch_up_lineage_limit_exceeded",
      "One durable change accumulated too many unresolved catch-up watermarks"⟩
  else .ok ()

/-- Add rows to a change's lineage; the ones it has already are ignored. -/
def addLineage (lineage added : List LibraryChangeCatchUpEvidence) : List LibraryChangeCatchUpEvidence :=
  lineage ++ added.filter (fun e => !lineage.contains e)

/-- `attach_catch_up_lineage` -/
def attachCatchUpLineage (evidence : LibraryChangeCatchUpEvidence) : Except ScanError ChangeQueue := do
  let q := q.modify fun r => if r.id = id then { r with catchUpLineage := addLineage r.catchUpLineage [evidence] } else r
  validateCatchUpLineageBound q id
  return q

/-- The lineage row an insert or an update leaves, if it comes with evidence. -/
def attachOptional : Option LibraryChangeCatchUpEvidence → Except ScanError ChangeQueue
  | none => .ok q
  | some evidence => attachCatchUpLineage q id evidence

/-- `insert_change` -/
def insertChange (intent : LibraryChangeIntent) (evidence : Option LibraryChangeCatchUpEvidence) :
    Except ScanError (ChangeQueue × LibraryChangeId) := do
  let id := q.nextId
  let q ← attachOptional
    (q.insert { id := id, intent := intent, status := .pending, catchUpEvidence := evidence, catchUpLineage := [],
                lastFailureCode := none, supersededBy := none, hasRecoveryClaim := false }) id evidence
  return (q, id)

/-- The row `update_change` writes: the update reaches an unleased row only, and keeps the stored evidence if it brings
none. -/
def updatedRow (intent : LibraryChangeIntent) (evidence : Option LibraryChangeCatchUpEvidence) (r : QueueRow) : QueueRow :=
  if r.id = id ∧ isUnleased r.status then
    { r with
      intent := { intent with rootId := r.intent.rootId, rootGeneration := r.intent.rootGeneration }
      status := .pending
      supersededBy := none
      catchUpEvidence := evidence.or r.catchUpEvidence }
  else r

/-- `update_change` -/
def updateChange (intent : LibraryChangeIntent)
    (evidence : Option LibraryChangeCatchUpEvidence) : Except ScanError ChangeQueue :=
  attachOptional (q.modify (updatedRow id intent evidence)) id evidence

/-- One round of `transfer_catch_up_lineage`: the lineage of a change moves to the target. -/
def transferOne (target : LibraryChangeId) (q : ChangeQueue) (source : LibraryChangeId) : ChangeQueue :=
  if source = target then q
  else
    let moved := (q.rows.filter (fun r => r.id == source)).flatMap (·.catchUpLineage)
    q.modify fun r =>
      if r.id = target then { r with catchUpLineage := addLineage r.catchUpLineage moved }
      else if r.id = source then { r with catchUpLineage := [], catchUpEvidence := none }
      else r

/-- `transfer_catch_up_lineage` -/
def transferCatchUpLineage (sources : List LibraryChangeId) (target : LibraryChangeId) : Except ScanError ChangeQueue := do
  let q := sources.foldl (transferOne target) q
  validateCatchUpLineageBound q target
  return q

/-- The row `mark_superseded` writes. -/
def supersededRow (ids : List LibraryChangeId) (by_ : LibraryChangeId) (r : QueueRow) : QueueRow :=
  if ids.contains r.id && r.id != by_ && r.status.isActive then
    { r with status := .superseded, supersededBy := some by_ }
  else r

/-- `mark_superseded`, for a superseding change, with the number of changes it reached. -/
def markSuperseded (ids : List LibraryChangeId) (by_ : LibraryChangeId) : ChangeQueue × Nat :=
  (q.modify (supersededRow ids by_), (q.rows.filter fun r => ids.contains r.id && r.id != by_ && r.status.isActive).length)

end Ame
