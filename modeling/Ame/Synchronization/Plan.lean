import Ame.Incremental.Reconcile
import Ame.Lib.Iter
import Ame.Queue.Coverage
import Mathlib

/-!
# Planning what was observed (`application/directory_synchronization.rs`)

The watcher of a root reports observations. `plan_library_changes` turns a batch of them into intents: each observation is
normalized into one or two intents, intents with the same key are merged, and intents below a directory that is reconciled as
a whole are absorbed by it. Whatever cannot be planned exactly becomes one intent of unknown freshness over the root.
-/

namespace Ame

/-! ## Observations and plans (`domain/library_change.rs`) -/

/-- `LibraryChangeObservationKind` -/
inductive LibraryChangeObservationKind where
  | created | modified | removed
  | renamed (isReliablyPaired : Bool)
  | directoryChanged | evidenceGap
  deriving DecidableEq, Repr

/-- The kind is a rename, paired or not. -/
def LibraryChangeObservationKind.isRenamed : LibraryChangeObservationKind → Bool
  | .renamed _ => true
  | _ => false

/-- `LibraryChangeObservation` -/
structure LibraryChangeObservation where
  rootId : String
  rootGeneration : LibraryRootGeneration
  sequence : Nat
  observedUnixMs : Int
  kind : LibraryChangeObservationKind
  scope : LibraryChangeScope
  relativePath : String
  previousRelativePath : Option String
  origin : LibraryChangeOrigin
  deriving DecidableEq, Repr

/-- `LibraryRootAvailability` -/
inductive LibraryRootAvailability where
  | unknown | available | missing | inaccessible | offline
  deriving DecidableEq, Repr

/-- `LibraryChangeSourceHealth` -/
inductive LibraryChangeSourceHealth where
  | healthy | starting | degraded | failed | stopped | unsupported
  deriving DecidableEq, Repr

/-- `LibraryChangePlanningContext` -/
structure LibraryChangePlanningContext where
  rootId : String
  rootGeneration : LibraryRootGeneration
  availability : LibraryRootAvailability
  sourceHealth : LibraryChangeSourceHealth
  deriving DecidableEq, Repr

/-- `LibraryChangePlanningLimits` -/
structure LibraryChangePlanningLimits where
  maxObservations : Nat
  maxIntents : Nat
  deriving DecidableEq, Repr

/-- `LibraryChangePlanningLimits::MAX_OBSERVATIONS` -/
def maxPlannedObservations : Nat := 4096

/-- `LibraryChangePlanningLimits::MAX_INTENTS` -/
def maxPlannedIntents : Nat := 1024

/-- `LibraryChangePlanningIssue` -/
inductive LibraryChangePlanningIssue where
  | invalidRelativePath | observationLimitExceeded | intentLimitExceeded | changeEvidenceGap | changeSourceUnhealthy
  deriving DecidableEq, Repr

/-- The derived order of the issues. -/
def LibraryChangePlanningIssue.rank : LibraryChangePlanningIssue → Nat
  | .invalidRelativePath => 0
  | .observationLimitExceeded => 1
  | .intentLimitExceeded => 2
  | .changeEvidenceGap => 3
  | .changeSourceUnhealthy => 4

/-- `CatalogFreshnessState` -/
inductive CatalogFreshnessState where
  | synchronized | updating | needsReconciliation | unavailable
  deriving DecidableEq, Repr

/-- `CatalogFreshnessCause` -/
inductive CatalogFreshnessCause where
  | noPendingChanges | pendingChanges | rootUnavailable | changeSourceUnhealthy | evidenceGap | boundedCapacityExceeded
  deriving DecidableEq, Repr

/-- `LibraryChangePlanningResult` -/
structure LibraryChangePlanningResult where
  rootId : String
  rootGeneration : LibraryRootGeneration
  freshness : CatalogFreshnessState
  freshnessCause : CatalogFreshnessCause
  intents : List LibraryChangeIntent
  issues : List LibraryChangePlanningIssue
  receivedObservationCount : Nat
  supersededObservationCount : Nat
  deriving DecidableEq, Repr

/-- `LibraryChangePlanningError` -/
structure LibraryChangePlanningError where
  code : String
  message : String
  deriving DecidableEq, Repr

/-! ## Orders -/

/-- `origin_rank`, which is also the derived order of the origins. -/
def originRank : LibraryChangeOrigin → Nat
  | .liveNotification => 0
  | .metadataInventory => 1
  | .startupCatchUp => 2
  | .userRefresh => 3
  | .consistencyAudit => 4

/-- The derived order of the kinds. -/
def LibraryChangeObservationKind.rank : LibraryChangeObservationKind → Nat
  | .created => 0
  | .modified => 1
  | .removed => 2
  | .renamed isReliablyPaired => if isReliablyPaired then 4 else 3
  | .directoryChanged => 5
  | .evidenceGap => 6

/-- The derived order of the scopes. -/
def LibraryChangeScope.rank : LibraryChangeScope → Nat
  | .path => 0
  | .subtree => 1
  | .root => 2

/-- `observation_sort_order` -/
def observationSortOrder (left right : LibraryChangeObservation) : Ordering :=
  (compare left.sequence right.sequence).then <| (compare left.observedUnixMs right.observedUnixMs).then <|
    (compare (originRank left.origin) (originRank right.origin)).then <|
    (compare left.kind.rank right.kind.rank).then <|
    (compare left.scope.rank right.scope.rank).then <|
    (compare left.relativePath right.relativePath).then <|
    compare left.previousRelativePath right.previousRelativePath

/-- A piece of evidence is later than another one: by sequence, then by time, then by the rank of its origin. -/
def isLater (sequence : Nat) (observed : Int) (origin : LibraryChangeOrigin) (otherSequence : Nat) (otherObserved : Int)
    (otherOrigin : LibraryChangeOrigin) : Bool :=
  (compare sequence otherSequence).then ((compare observed otherObserved).then
    (compare (originRank origin) (originRank otherOrigin))) == .gt

/-- `IntentKey` -/
structure IntentKey where
  kind : Nat
  scope : Nat
  previousRelativePath : String
  relativePath : String
  deriving DecidableEq, Repr

/-- The derived order of the keys. -/
def IntentKey.compareTo (left right : IntentKey) : Ordering :=
  (compare left.kind right.kind).then <| (compare left.scope right.scope).then <|
    (compare left.previousRelativePath right.previousRelativePath).then <| compare left.relativePath right.relativePath

variable (intent : LibraryChangeIntent)

/-- `intent_key` -/
def intentKey : IntentKey where
  kind := match intent.kind with
    | .reconcile => 0
    | .renameCandidate => 1
    | .freshnessUnknown => 2
  scope := intent.scope.rank
  previousRelativePath := intent.previousRelativePath.getD ""
  relativePath := intent.relativePath

/-- `intent_sort_order` -/
def intentSortOrder (left right : LibraryChangeIntent) : Ordering :=
  (compare left.firstSequence right.firstSequence).then ((intentKey left).compareTo (intentKey right))

/-! ## From observations to intents -/

/-- `validate_planning_request` -/
def validatePlanningRequest (context : LibraryChangePlanningContext) (limits : LibraryChangePlanningLimits) :
    Except LibraryChangePlanningError Unit :=
  if trimIsEmpty context.rootId || contains context.rootId '\x00' then
    .error ⟨"change_root_id_invalid", "A library root identifier is required for change planning"⟩
  else if limits.maxObservations = 0 ∨ limits.maxIntents = 0 then
    .error ⟨"change_planning_limit_invalid", "Change planning limits must be greater than zero"⟩
  else if maxPlannedObservations < limits.maxObservations ∨ maxPlannedIntents < limits.maxIntents then
    .error ⟨"change_planning_limit_exceeded", "Change planning limits exceed the absolute capacity bound"⟩
  else .ok ()

/-- `new_intent` -/
def newIntent (context : LibraryChangePlanningContext) (observation : LibraryChangeObservation)
    (kind : LibraryChangeIntentKind) (scope : LibraryChangeScope) (relativePath : String)
    (previousRelativePath : Option String) : LibraryChangeIntent where
  rootId := context.rootId
  rootGeneration := context.rootGeneration
  kind := kind
  scope := scope
  relativePath := relativePath
  previousRelativePath := previousRelativePath
  origin := observation.origin
  firstObservedUnixMs := observation.observedUnixMs
  mostRecentObservedUnixMs := observation.observedUnixMs
  firstSequence := observation.sequence
  mostRecentSequence := observation.sequence
  coalescedObservationCount := 1

/-- The scope of the intents of an observation. -/
def plannedScope (observation : LibraryChangeObservation) (relativePath : String) : LibraryChangeScope :=
  if relativePath.isEmpty || observation.scope == .root then .root
  else
    match observation.kind with
    | .directoryChanged => .subtree
    | _ => observation.scope

/-- `normalized_intents` -/
def normalizedIntents (context : LibraryChangePlanningContext) (observation : LibraryChangeObservation)
    (relativePath : String) (previousRelativePath : Option String) : List LibraryChangeIntent :=
  let scope := plannedScope observation relativePath
  if scope = .root then [newIntent context observation .reconcile .root "" none]
  else
    match observation.kind with
    | .renamed isReliablyPaired =>
      if previousRelativePath = some relativePath then [newIntent context observation .reconcile scope relativePath none]
      else if isReliablyPaired && previousRelativePath.isSome then
        [newIntent context observation .renameCandidate scope relativePath previousRelativePath]
      else
        (previousRelativePath.toList.map fun previous => newIntent context observation .reconcile scope previous none) ++
          [newIntent context observation .reconcile scope relativePath none]
    | _ => [newIntent context observation .reconcile scope relativePath none]

/-- `ObservationEvidence` -/
structure ObservationEvidence where
  sequence : Nat
  observedUnixMs : Int
  origin : LibraryChangeOrigin
  deriving DecidableEq, Repr

/-- `AccumulatedIntent`: an intent and the observations it stands for, by their numbers. -/
structure AccumulatedIntent where
  intent : LibraryChangeIntent
  evidenceIds : List Nat
  deriving DecidableEq, Repr

/-- Put a number into an ascending list without repetitions. -/
def insertEvidenceId (evidenceIds : List Nat) (evidenceId : Nat) : List Nat :=
  if evidenceIds.contains evidenceId then evidenceIds else evidenceIds.orderedInsert (· ≤ ·) evidenceId

/-- The intent that `merge_intent` leaves when the key is known: the evidence of both. -/
def mergeIntoExisting (existing intent : LibraryChangeIntent) : LibraryChangeIntent :=
  let shouldReplaceOrigin := isLater intent.mostRecentSequence intent.mostRecentObservedUnixMs intent.origin
    existing.mostRecentSequence existing.mostRecentObservedUnixMs existing.origin
  { existing with
    firstObservedUnixMs := min existing.firstObservedUnixMs intent.firstObservedUnixMs
    mostRecentObservedUnixMs := max existing.mostRecentObservedUnixMs intent.mostRecentObservedUnixMs
    firstSequence := min existing.firstSequence intent.firstSequence
    mostRecentSequence := if shouldReplaceOrigin then intent.mostRecentSequence else existing.mostRecentSequence
    origin := if shouldReplaceOrigin then intent.origin else existing.origin
    coalescedObservationCount := min (existing.coalescedObservationCount + intent.coalescedObservationCount) u32Max }

variable (intents : List AccumulatedIntent)

/-- `merge_intent`, on the intents in the order of their keys. -/
def mergeIntent (intent : LibraryChangeIntent) (evidenceId : Nat) : List AccumulatedIntent :=
  if intents.any fun accumulated => intentKey accumulated.intent == intentKey intent then
    intents.map fun accumulated =>
      if intentKey accumulated.intent = intentKey intent then
        ⟨mergeIntoExisting accumulated.intent intent, insertEvidenceId accumulated.evidenceIds evidenceId⟩
      else accumulated
  else
    intents.orderedInsert (fun a b => (intentKey a.intent).compareTo (intentKey b.intent) ≠ .gt) ⟨intent, [evidenceId]⟩

/-- `ObservationRange` -/
structure ObservationRange where
  firstObservedUnixMs : Int
  mostRecentObservedUnixMs : Int
  firstSequence : Nat
  mostRecentSequence : Nat
  observationCount : Nat
  deriving DecidableEq, Repr

/-- `update_observation_range` -/
def updateObservationRange (range : Option ObservationRange) (observation : LibraryChangeObservation) : ObservationRange :=
  let range := range.getD
    ⟨observation.observedUnixMs, observation.observedUnixMs, observation.sequence, observation.sequence, 0⟩
  ⟨min range.firstObservedUnixMs observation.observedUnixMs, max range.mostRecentObservedUnixMs observation.observedUnixMs,
    min range.firstSequence observation.sequence, max range.mostRecentSequence observation.sequence,
    range.observationCount + 1⟩

/-- `update_latest_origin` -/
def updateLatestOrigin (latest : Option (Nat × Int × LibraryChangeOrigin)) (observation : LibraryChangeObservation) :
    Option (Nat × Int × LibraryChangeOrigin) :=
  match latest with
  | none => some (observation.sequence, observation.observedUnixMs, observation.origin)
  | some (sequence, observed, origin) =>
    if isLater observation.sequence observation.observedUnixMs observation.origin sequence observed origin then
      some (observation.sequence, observation.observedUnixMs, observation.origin)
    else latest

/-- `push_unique_issue` -/
def pushUniqueIssue (issues : List LibraryChangePlanningIssue) (issue : LibraryChangePlanningIssue) :
    List LibraryChangePlanningIssue :=
  if issues.contains issue then issues else issues ++ [issue]

/-- What the loop of `plan_library_changes` changes. -/
structure PlanState where
  issues : List LibraryChangePlanningIssue
  supersededObservationCount : Nat
  intents : List AccumulatedIntent
  observationEvidence : List ObservationEvidence
  mustReconcileRoot : Bool
  rootGapOrigin : Option (Nat × Int × LibraryChangeOrigin)
  observationRange : Option ObservationRange
  deriving DecidableEq, Repr

/-- The observation cannot be planned: the root is reconciled for the given reason. -/
def PlanState.giveUp (st : PlanState) (issue : LibraryChangePlanningIssue) : PlanState :=
  { st with mustReconcileRoot := true, issues := pushUniqueIssue st.issues issue }

/-- What an observation says about the paths, or why it cannot be planned. -/
def observedPaths (observation : LibraryChangeObservation) : Except LibraryChangePlanningIssue (String × Option String) :=
  if observation.kind = .evidenceGap then .error .changeEvidenceGap
  else
    match normalizeRelativePath observation.relativePath with
    | none => .error .invalidRelativePath
    | some relativePath =>
      if relativePath.isEmpty && observation.kind != .directoryChanged then .error .invalidRelativePath
      else if observation.kind.isRenamed && observation.scope != .root then
        match observation.previousRelativePath with
        | none => .error .changeEvidenceGap
        | some previous =>
          match normalizeNonemptyRelativePath previous with
          | none => .error .invalidRelativePath
          | some previous => .ok (relativePath, some previous)
      else .ok (relativePath, none)

/-- The observation belongs to the root generation of the context. -/
def LibraryChangePlanningContext.owns (context : LibraryChangePlanningContext) (observation : LibraryChangeObservation) :
    Bool :=
  observation.rootId == context.rootId && observation.rootGeneration == context.rootGeneration

/-- One round of the loop. -/
def planObservation (context : LibraryChangePlanningContext) (st : PlanState) (observation : LibraryChangeObservation) :
    PlanState :=
  if !context.owns observation then { st with supersededObservationCount := st.supersededObservationCount + 1 }
  else
    let st := { st with
      observationRange := some (updateObservationRange st.observationRange observation)
      rootGapOrigin := updateLatestOrigin st.rootGapOrigin observation }
    match observedPaths observation with
    | .error issue => st.giveUp issue
    | .ok (relativePath, previousRelativePath) =>
      { st with
        observationEvidence :=
          st.observationEvidence ++ [⟨observation.sequence, observation.observedUnixMs, observation.origin⟩]
        intents := (normalizedIntents context observation relativePath previousRelativePath).foldl
          (fun intents intent => mergeIntent intents intent st.observationEvidence.length) st.intents }

/-! ## Compaction -/

/-- `is_precise_dirty_reconcile` of the planner, which leaves the inventory out. -/
def isPreciseObservedReconcile : Bool :=
  intent.kind == .reconcile && intent.scope == .path && (intent.origin == .liveNotification || intent.origin == .startupCatchUp)

/-- `ancestor_paths`: the paths of the directories above a path, the shortest first, and the path itself. -/
def ancestorPaths (path : String) : List String :=
  ((path.toList.zipIdx.filter fun c => c.1 == '/').map fun c => String.ofList (path.toList.take c.2)) ++ [path]

/-- `is_within_subtree` of the planner, where the empty path is the root. -/
def isWithinPlannedSubtree (path subtree : String) : Bool := subtree.isEmpty || isWithinSubtree path subtree

/-- A reconcile of a whole directory. -/
def isSubtreeReconcile : Bool := intent.kind == .reconcile && intent.scope == .subtree

/-- `subtree_indexes`: the reconciled directories, with their positions. -/
def subtreeIndexes : List (String × Nat) :=
  (intents.zipIdx.filter fun accumulated => isSubtreeReconcile accumulated.1.intent).map fun accumulated =>
    (accumulated.1.intent.relativePath, accumulated.2)

/-- The position of a directory in the map; of two with one path the later one has replaced the earlier one. -/
def lookupSubtree (indexes : List (String × Nat)) (path : String) : Option Nat :=
  (indexes.reverse.find? fun entry => entry.1 == path).map (·.2)

/-- `covering_subtree_index` -/
def coveringSubtreeIndex (intentIndex : Nat) (intent : LibraryChangeIntent) (indexes : List (String × Nat)) : Option Nat :=
  if intent.scope = .root ∨ isPreciseObservedReconcile intent then none
  else
    let found := (ancestorPaths intent.relativePath).filterMap fun path => (lookupSubtree indexes path).map fun i => (path, i)
    (found.find? fun entry => entry.2 != intentIndex).bind fun entry =>
      if intent.previousRelativePath.all fun previous => isWithinPlannedSubtree previous entry.1 then some entry.2 else none

/-- The evidence of both. -/
def extendEvidenceIds (evidenceIds more : List Nat) : List Nat := more.foldl insertEvidenceId evidenceIds

/-- The root intent that a plan is reduced to, with the precise paths beside it. -/
def compactToRoot (root : AccumulatedIntent) (others : List AccumulatedIntent) : List AccumulatedIntent :=
  let absorbed := others.filter fun accumulated => !isPreciseObservedReconcile accumulated.intent
  let evidenceIds := absorbed.foldl (fun ids accumulated => extendEvidenceIds ids accumulated.evidenceIds) root.evidenceIds
  (others.filter fun accumulated => isPreciseObservedReconcile accumulated.intent) ++ [{ root with evidenceIds := evidenceIds }]

/-- The intents that no directory absorbs, with the evidence of those they absorb. -/
def compactToSubtrees : List AccumulatedIntent :=
  let indexes := subtreeIndexes intents
  let absorbedBy := fun (accumulated : AccumulatedIntent × Nat) =>
    coveringSubtreeIndex accumulated.2 accumulated.1.intent indexes
  (intents.zipIdx.filter fun accumulated => (absorbedBy accumulated).isNone).map fun accumulated =>
    { accumulated.1 with
      evidenceIds := (intents.zipIdx.filter fun other => absorbedBy other == some accumulated.2).foldl
        (fun ids other => extendEvidenceIds ids other.1.evidenceIds) accumulated.1.evidenceIds }

/-- The intent reconciles the whole root. -/
def isRootReconcile : Bool := intent.kind == .reconcile && intent.scope == .root

/-- `compact_intents` -/
def compactIntents : List AccumulatedIntent :=
  match intents.findIdx? fun accumulated => isRootReconcile accumulated.intent with
  | some rootIndex =>
    match intents[rootIndex]? with
    | some root => compactToRoot root (Iter.swapRemove intents rootIndex)
    | none => intents
  | none => compactToSubtrees intents

/-- `apply_evidence_summary` -/
def applyEvidenceSummary (evidenceIds : List Nat) (observationEvidence : List ObservationEvidence) : LibraryChangeIntent :=
  match evidenceIds.filterMap fun evidenceId => observationEvidence[evidenceId]? with
  | [] => intent
  | first :: evidence =>
    let latest := evidence.foldl (fun latest item =>
      if isLater item.sequence item.observedUnixMs item.origin latest.sequence latest.observedUnixMs latest.origin then item
      else latest) first
    { intent with
      firstSequence := evidence.foldl (fun value item => min value item.sequence) first.sequence
      firstObservedUnixMs := evidence.foldl (fun value item => min value item.observedUnixMs) first.observedUnixMs
      mostRecentSequence := evidence.foldl (fun value item => max value item.sequence) first.sequence
      mostRecentObservedUnixMs := evidence.foldl (fun value item => max value item.observedUnixMs) first.observedUnixMs
      coalescedObservationCount := min evidenceIds.length u32Max
      origin := latest.origin }

/-! ## The plan -/

section

variable (context : LibraryChangePlanningContext)

/-- `root_freshness_intent` -/
def rootFreshnessIntent (origin : LibraryChangeOrigin)
    (range : Option ObservationRange) (overflowObservationCount : Option Nat) : LibraryChangeIntent :=
  let range := range.getD ⟨0, 0, 0, 0, 1⟩
  { rootId := context.rootId, rootGeneration := context.rootGeneration, kind := .freshnessUnknown, scope := .root,
    relativePath := "", previousRelativePath := none, origin := origin,
    firstObservedUnixMs := range.firstObservedUnixMs, mostRecentObservedUnixMs := range.mostRecentObservedUnixMs,
    firstSequence := range.firstSequence, mostRecentSequence := range.mostRecentSequence,
    coalescedObservationCount := min (overflowObservationCount.getD range.observationCount) u32Max }

/-- `project_freshness` -/
def projectFreshness (intents : List LibraryChangeIntent)
    (issues : List LibraryChangePlanningIssue) (exceededObservationLimit : Bool) :
    CatalogFreshnessState × CatalogFreshnessCause :=
  if context.availability ≠ .available then (.unavailable, .rootUnavailable)
  else if exceededObservationLimit || issues.contains .intentLimitExceeded then
    (.needsReconciliation, .boundedCapacityExceeded)
  else if issues.contains .changeEvidenceGap || issues.contains .invalidRelativePath then (.needsReconciliation, .evidenceGap)
  else if context.sourceHealth ≠ .healthy then (.needsReconciliation, .changeSourceUnhealthy)
  else if intents.isEmpty then (.synchronized, .noPendingChanges)
  else (.updating, .pendingChanges)

/-- The state the loop starts with. -/
def PlanState.initial (exceededObservationLimit : Bool) : PlanState where
  issues := (if exceededObservationLimit then [.observationLimitExceeded] else []) ++
    (if context.sourceHealth ≠ .healthy then [.changeSourceUnhealthy] else [])
  supersededObservationCount := 0
  intents := []
  observationEvidence := []
  mustReconcileRoot := exceededObservationLimit || context.sourceHealth != .healthy
  rootGapOrigin := none
  observationRange := none

end

/-- The compacted intents of a plan, with their evidence summed up. -/
def PlanState.compacted (st : PlanState) : List LibraryChangeIntent :=
  (compactIntents st.intents).map fun accumulated =>
    applyEvidenceSummary accumulated.intent accumulated.evidenceIds st.observationEvidence

/-- The last part of `plan_library_changes`: what the loop has gathered becomes the result. -/
def finishPlan (context : LibraryChangePlanningContext) (limits : LibraryChangePlanningLimits) (received : Nat)
    (exceededObservationLimit : Bool) (gathered : PlanState) : LibraryChangePlanningResult :=
  let st := if limits.maxIntents < gathered.compacted.length then gathered.giveUp .intentLimitExceeded else gathered
  let plannedIntents :=
    if st.mustReconcileRoot then
      [rootFreshnessIntent context ((st.rootGapOrigin.map (·.2.2)).getD .liveNotification)
        (if exceededObservationLimit then none else st.observationRange)
        (if exceededObservationLimit then some received else none)]
    else st.compacted
  let issues := st.issues.insertionSort fun a b => a.rank ≤ b.rank
  let plannedIntents := plannedIntents.insertionSort fun a b => intentSortOrder a b ≠ .gt
  let (freshness, freshnessCause) := projectFreshness context plannedIntents issues exceededObservationLimit
  ⟨context.rootId, context.rootGeneration, freshness, freshnessCause, plannedIntents, issues, received,
    st.supersededObservationCount⟩

/-- `plan_library_changes` -/
def planLibraryChanges (context : LibraryChangePlanningContext) (observations : List LibraryChangeObservation)
    (limits : LibraryChangePlanningLimits) : Except LibraryChangePlanningError LibraryChangePlanningResult := do
  validatePlanningRequest context limits
  let exceededObservationLimit := decide (limits.maxObservations < observations.length)
  let boundedObservations := if exceededObservationLimit then [] else
    observations.insertionSort fun a b => observationSortOrder a b ≠ .gt
  return finishPlan context limits observations.length exceededObservationLimit
    (boundedObservations.foldl (planObservation context) (PlanState.initial context exceededObservationLimit))

end Ame
