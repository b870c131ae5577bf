import Ame.Domain.Text

/-!
# Change intents

`domain/library_change.rs`: the unit of dirty work the queue stores. An intent names one or two paths of a library root, or the
whole root, and carries the range of observations it was coalesced from.
-/

namespace Ame

/-- A root's generation: a nonzero counter. -/
structure LibraryRootGeneration where
  value : Nat
  nonzero : value ≠ 0
  deriving DecidableEq, Repr

/-- The generation a root starts with. -/
def LibraryRootGeneration.initial : LibraryRootGeneration := ⟨1, Nat.one_ne_zero⟩

/-- Who observed a change. -/
inductive LibraryChangeOrigin where
  | liveNotification | metadataInventory | startupCatchUp | userRefresh | consistencyAudit
  deriving DecidableEq, Repr

/-- The lanes of the queue, by priority. -/
inductive LibraryChangeLane where
  | live | journal | recovery
  deriving DecidableEq, Repr

/-- The lane a change is queued in. -/
def LibraryChangeOrigin.lane : LibraryChangeOrigin → LibraryChangeLane
  | .liveNotification => .live
  | .startupCatchUp => .journal
  | .metadataInventory | .consistencyAudit | .userRefresh => .recovery

/-- How far an intent reaches from the paths it names. -/
inductive LibraryChangeScope where
  | path | subtree | root
  deriving DecidableEq, Repr

/-- What is to be done for an intent. -/
inductive LibraryChangeIntentKind where
  | reconcile | renameCandidate | freshnessUnknown
  deriving DecidableEq, Repr

/-- A unit of dirty work of one root generation. -/
structure LibraryChangeIntent where
  rootId : String
  rootGeneration : LibraryRootGeneration
  kind : LibraryChangeIntentKind
  scope : LibraryChangeScope
  relativePath : String
  previousRelativePath : Option String
  origin : LibraryChangeOrigin
  firstObservedUnixMs : Int
  mostRecentObservedUnixMs : Int
  firstSequence : Nat
  mostRecentSequence : Nat
  coalescedObservationCount : Nat
  deriving DecidableEq, Repr

variable (intent : LibraryChangeIntent)

/-- The paths an intent names: its path and, if it has one, its previous path. -/
def affectedPaths : List String :=
  intent.relativePath :: intent.previousRelativePath.toList

/-- `domain/persistent_journal.rs`, `canonical_intent`: the text an intent is sorted and hashed by, its fields joined by NUL. -/
def canonicalIntent : String :=
  "\x00".intercalate [ intent.rootId, toString intent.rootGeneration.value,
    match intent.kind with
      | .reconcile => "reconcile"
      | .renameCandidate => "rename"
      | .freshnessUnknown => "freshness-unknown",
    match intent.scope with
      | .path => "path"
      | .subtree => "subtree"
      | .root => "root",
    intent.relativePath,
    intent.previousRelativePath.getD "",
    match intent.origin with
      | .liveNotification => "live"
      | .metadataInventory => "metadata-inventory"
      | .startupCatchUp => "startup"
      | .userRefresh => "user-refresh"
      | .consistencyAudit => "audit",
    toString intent.firstObservedUnixMs,
    toString intent.mostRecentObservedUnixMs,
    toString intent.firstSequence,
    toString intent.mostRecentSequence,
    toString intent.coalescedObservationCount]

/-! ## Validation (`change_queue/coalescing.rs`) -/

/-- `LibraryChangeQueuePolicy::MAX_UNRESOLVED_CHANGES` -/
def maxUnresolvedChanges : Nat := 4096

/-- `MAX_ROOT_ID_BYTES` -/
def maxRootIdBytes : Nat := 1024

/-- `MAX_RELATIVE_PATH_BYTES` -/
def maxRelativePathBytes : Nat := 131072

/-- A path in normal form: bounded, without the characters of other notations, and with no empty, `.` or `..` segment. -/
def validNormalizedPath (path : String) : Bool :=
  !path.isEmpty && decide (path.utf8ByteSize ≤ maxRelativePathBytes)
    && !(contains path '\x00' || contains path '\\' || contains path ':')
    && !startsWith path '/'
    && (split '/' path).all (fun segment => !(segment == "" || segment == "." || segment == ".."))

/-- Whether the paths of an intent fit its kind and scope. -/
def shapeIsValid : Bool :=
  let hasPath := validNormalizedPath intent.relativePath
  let hasPreviousPath := intent.previousRelativePath.any validNormalizedPath
  match intent.kind with
  | .freshnessUnknown =>
    intent.scope == .root && intent.relativePath.isEmpty && intent.previousRelativePath.isNone
  | .renameCandidate =>
    intent.scope != .root && hasPath && hasPreviousPath && intent.previousRelativePath != some intent.relativePath
  | .reconcile =>
    match intent.scope with
    | .root => intent.relativePath.isEmpty && intent.previousRelativePath.isNone
    | .path =>
      hasPath &&
        match intent.previousRelativePath with
        | none => true
        | some previous => hasPreviousPath && previous != intent.relativePath
    | .subtree => hasPath && intent.previousRelativePath.isNone

/-- `validate_intent_shape` -/
def validateIntentShape : Except ScanError Unit :=
  if shapeIsValid intent then .ok ()
  else .error ⟨"change_queue_intent_invalid", "The durable change intent does not match its normalized kind and scope"⟩

/-- `validate_root_id` -/
def validateRootId (rootId : String) : Except ScanError Unit :=
  if trimIsEmpty rootId || decide (maxRootIdBytes < rootId.utf8ByteSize) || contains rootId '\x00' then
    .error ⟨"change_queue_root_id_invalid", "A durable change requires a valid library root identifier"⟩
  else .ok ()

/-- One round of the loop of `validate_intent_batch`. -/
def validateBatchMember (first intent : LibraryChangeIntent) : Except ScanError Unit :=
  if intent.rootId ≠ first.rootId ∨ intent.rootGeneration ≠ first.rootGeneration then
    .error ⟨"change_queue_batch_mismatch", "One durable enqueue batch must belong to one root generation"⟩
  else if intent.coalescedObservationCount = 0 ∨ intent.mostRecentObservedUnixMs < intent.firstObservedUnixMs ∨
      intent.mostRecentSequence < intent.firstSequence then
    .error ⟨"change_queue_evidence_invalid", "Durable change evidence must contain a non-empty ordered observation range"⟩
  else validateIntentShape intent

/-- `validate_intent_batch` -/
def validateIntentBatch (intents : List LibraryChangeIntent) (first : LibraryChangeIntent) : Except ScanError Unit := do
  validateRootId first.rootId
  if maxUnresolvedChanges < intents.length then
    throw ⟨"change_queue_batch_limit_exceeded", "One durable enqueue batch exceeds the absolute unresolved-work bound"⟩
  intents.forM (validateBatchMember first)

/-- A batch the queue accepts: `validate_intent_batch` against its own first intent succeeds. The empty batch has none. -/
def BatchValid : List LibraryChangeIntent → Prop
  | [] => True
  | first :: rest => validateIntentBatch (first :: rest) first = .ok ()

instance : (intents : List LibraryChangeIntent) → Decidable (BatchValid intents)
  | [] => inferInstanceAs (Decidable True)
  | first :: rest => inferInstanceAs (Decidable (validateIntentBatch (first :: rest) first = .ok ()))

end Ame
