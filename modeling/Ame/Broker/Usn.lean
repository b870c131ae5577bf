import Ame.Broker.Wire
import Ame.Lib.Iter
import Mathlib

/-!
# The journal of a volume, as events of its roots (`journal_broker/windows/usn.rs`)

A page of journal records of one volume is turned into events for the roots on it. A rename shows as a record with the old name
and one with the new name. The pair is put together inside the page, or, if the old name was on an earlier page, with a carry
that the client sent along. A root that a path cannot be compared with is given up for the page (`candidates_by_root`), and the
renames it might have been part of limit how far the page may be covered (the barriers).
-/

namespace Ame

open Iter

/-- `FileReference` (`windows_usn.rs`): 8 or 16 bytes. -/
structure FileReference where
  bytes : List UInt8
  version : bytes.length = 8 ∨ bytes.length = 16
  deriving DecidableEq, Repr

/-- The derived order of file references: the short ones first, then byte by byte. -/
def FileReference.key (reference : FileReference) : List Nat :=
  reference.bytes.length :: reference.bytes.map UInt8.toNat

/-- `file_reference_from_bytes` -/
def fileReferenceFromBytes (bytes : List UInt8) : Except BackendError FileReference :=
  if h : bytes.length = 8 ∨ bytes.length = 16 then .ok ⟨bytes, h⟩ else .error .recordUnsupported

/-- `USN_REASON_RENAME_OLD_NAME` -/
def usnReasonRenameOldName : UInt32 := 0x1000

/-- `USN_REASON_RENAME_NEW_NAME` -/
def usnReasonRenameNewName : UInt32 := 0x2000

/-- `ResolvedRecord` -/
structure ResolvedRecord where
  path : List UInt16
  fileReference : FileReference
  usn : Int
  reason : UInt32
  isDirectory : Bool
  deriving DecidableEq, Repr

/-- The record has the old name of a rename. -/
def ResolvedRecord.isOldName (record : ResolvedRecord) : Bool := record.reason &&& usnReasonRenameOldName != 0

/-- The record has the new name of a rename. -/
def ResolvedRecord.isNewName (record : ResolvedRecord) : Bool := record.reason &&& usnReasonRenameNewName != 0

/-- `PinnedRootState`: what the pairing reads of it. -/
structure PinnedRootState where
  volumeId : String
  canonicalRootUtf16 : List UInt16
  componentSemantics : List NameComparisonSemantics
  deriving DecidableEq, Repr

/-- `NativePendingRenameCarry` -/
structure NativePendingRenameCarry where
  root : Option PinnedRootState
  readRootIndex : Option Nat
  fileReference : List UInt8
  oldUsn : Int
  previousRelativePath : String
  isDirectory : Bool
  deriving DecidableEq, Repr

/-! ## What an event holds -/

/-- `BackendJournalCandidate` -/
structure BackendJournalCandidate where
  volumeId : String
  absolutePathUtf16 : List UInt16
  previousAbsolutePathUtf16 : Option (List UInt16)
  fileReference : List UInt8
  usn : Int
  kind : CandidateKind
  isDirectory : Bool
  deriving DecidableEq, Repr

/-- Whether a path is one that `normalize_backend_path` accepts. -/
def isNormalizable (path : List UInt16) : Bool := (normalizeAbsolutePath path).isOk

/-- `BackendJournalCandidate::copy_from_bounded` -/
def BackendJournalCandidate.copyFromBounded (candidate : BackendJournalCandidate) :
    Except BackendError BackendJournalCandidate :=
  if candidate.volumeId.isEmpty || decide (maxVolumeIdBytes < candidate.volumeId.utf8ByteSize) ||
      decide (maxPathUtf16Units < candidate.absolutePathUtf16.length) ||
      (candidate.previousAbsolutePathUtf16.any fun path => decide (maxPathUtf16Units < path.length)) ||
      !(candidate.fileReference.length == 8 || candidate.fileReference.length == 16) || decide (candidate.usn < 0) ||
      candidate.previousAbsolutePathUtf16.isSome != (candidate.kind == .rename) ||
      candidate.kind == .subtree && !candidate.isDirectory ||
      !isNormalizable candidate.absolutePathUtf16 || !candidate.previousAbsolutePathUtf16.all isNormalizable then
    .error .recordUnsupported
  else .ok candidate

/-- `BackendJournalHandoff`: a file that moved from one root to another. -/
structure BackendJournalHandoff where
  previousRootIndex : Option Nat
  previousPendingIndex : Option Nat
  currentRootIndex : Nat
  previousAbsolutePathUtf16 : List UInt16
  currentAbsolutePathUtf16 : List UInt16
  fileReference : List UInt8
  oldUsn : Int
  usn : Int
  isDirectory : Bool
  deriving DecidableEq, Repr

/-- `BackendPendingRename`: an old name whose new name is not known yet. -/
structure BackendPendingRename where
  rootIndex : Nat
  previousAbsolutePathUtf16 : List UInt16
  fileReference : List UInt8
  oldUsn : Int
  isDirectory : Bool
  deriving DecidableEq, Repr

/-- `SemanticEvent` -/
structure SemanticEvent where
  usn : Int
  candidates : List (Nat × BackendJournalCandidate)
  handoff : Option BackendJournalHandoff
  pending : Option BackendPendingRename
  deriving DecidableEq, Repr

/-! ## The roots a path lies in -/

/-- `SemanticRootContext`: the roots, and where each one starts to read. The volume identifiers are the roots' own. -/
structure SemanticRootContext where
  roots : List PinnedRootState
  rootStartUsns : List Int
  deriving DecidableEq, Repr

/-- The candidates of each root, or why the page was given up for it. -/
abbrev RootCandidates := List (Except BackendError (List BackendJournalCandidate))

/-- What the pairing changes besides the events: the roots' results and the barriers. -/
structure RootReadState where
  candidatesByRoot : RootCandidates
  uncertaintyBarrier : Option Int
  renameBarriersByRoot : List (Option Int)
  deriving DecidableEq

/-- A root that the page has been given up for. -/
def rootFailed (candidatesByRoot : RootCandidates) (index : Nat) : Bool :=
  match candidatesByRoot[index]? with
  | some (.ok _) => false
  | _ => true

/-- The earlier of a barrier and a coordinate. -/
def lowerBarrier (barrier : Option Int) (usn : Int) : Option Int := some (barrier.elim usn fun old => min old usn)

section

variable (ordinalEquals : OrdinalEquals)

/-- `path_is_inside` -/
def pathIsInside (root : PinnedRootState) (path : List UInt16) : Except BackendError Bool := do
  let path ← (normalizeAbsolutePath path).mapError fun _ => .recordUnsupported
  let rootPath ← (normalizeAbsolutePath root.canonicalRootUtf16).mapError fun _ => .rootUnavailable
  let scope ← (scopeUnderRoot ordinalEquals path rootPath root.componentSemantics).mapError fun _ => .recordUnsupported
  return scope.isSome

variable (ctx : SemanticRootContext)

/-- Whether a path lies in the root of an index. -/
def isInside (index : Nat) (path : List UInt16) : Except BackendError Bool :=
  match ctx.roots[index]? with
  | some root => pathIsInside ordinalEquals root path
  | none => .ok false

/-- Whether a root starts to read after a coordinate. -/
def startsAfter (index : Nat) (usn : Int) : Bool := decide (usn < ctx.rootStartUsns.getD index 0)

/-- The loop of `roots_for_path_with`, over the indices that are left. -/
def rootsForPathWith (ctx : SemanticRootContext) (path : List UInt16) (usn : Int) : List Nat → RootCandidates →
      List Nat × RootCandidates
  | [], candidatesByRoot => ([], candidatesByRoot)
  | index :: rest, candidatesByRoot =>
    if rootFailed candidatesByRoot index || startsAfter ctx index usn then rootsForPathWith ctx path usn rest candidatesByRoot
    else
      match isInside ordinalEquals ctx index path with
      | .ok true =>
        let (inside, candidatesByRoot) := rootsForPathWith ctx path usn rest candidatesByRoot
        (index :: inside, candidatesByRoot)
      | .ok false => rootsForPathWith ctx path usn rest candidatesByRoot
      | .error error => rootsForPathWith ctx path usn rest (candidatesByRoot.set index (.error error))

/-- `roots_for_path` -/
def rootsForPath (path : List UInt16) (usn : Int) (st : RootReadState) : List Nat × RootReadState :=
  let (owners, candidatesByRoot) :=
    rootsForPathWith ordinalEquals ctx path usn (List.range ctx.roots.length) st.candidatesByRoot
  (owners, { st with candidatesByRoot := candidatesByRoot })

/-- The barriers after a rename touched a root. -/
def lowerRootBarrier (usn : Int) (barriers : List (Option Int)) (index : Nat) : List (Option Int) :=
  barriers.modify index fun barrier => lowerBarrier barrier usn

/-- `roots_for_rename_path`: the roots a name of a rename lies in, and whether one was lost over it. -/
def rootsForRenamePath (path : List UInt16) (usn : Int) (st : RootReadState) : (List Nat × Bool) × RootReadState :=
  let (owners, after) := rootsForPath ordinalEquals ctx path usn st
  let lost := (List.range st.candidatesByRoot.length).filter fun index =>
    !rootFailed st.candidatesByRoot index && rootFailed after.candidatesByRoot index
  let barriers := lost.foldl (lowerRootBarrier usn) (owners.foldl (lowerRootBarrier usn) after.renameBarriersByRoot)
  let uncertainty := if lost.isEmpty then after.uncertaintyBarrier else lowerBarrier after.uncertaintyBarrier usn
  ((owners, !lost.isEmpty), { after with uncertaintyBarrier := uncertainty, renameBarriersByRoot := barriers })

end

/-! ## Events -/

/-- The volume of the root of an index. -/
def volumeIdOf (ctx : SemanticRootContext) (index : Nat) : String := ((ctx.roots[index]?).map (·.volumeId)).getD ""

/-- `scoped_candidate_from_parts` -/
def scopedCandidate (ctx : SemanticRootContext) (index : Nat) (path : List UInt16) (fileReference : FileReference) (usn : Int)
    (isDirectory : Bool) : Except BackendError (Nat × BackendJournalCandidate) := do
  let candidate ← BackendJournalCandidate.copyFromBounded
    ⟨volumeIdOf ctx index, path, none, fileReference.bytes, usn, if isDirectory then .subtree else .path, isDirectory⟩
  return (index, candidate)

/-- `RenamePairEvent` -/
structure RenamePairEvent where
  previousPath : List UInt16
  previousUsn : Int
  previousRoots : List Nat
  previousPendingIndex : Option Nat
  current : ResolvedRecord
  deriving DecidableEq, Repr

/-- An old name that waits for a later page. -/
def pendingEvent (rootIndex : Nat) (path : List UInt16) (fileReference : FileReference) (usn : Int) (isDirectory : Bool) :
    SemanticEvent :=
  ⟨usn, [], none, some ⟨rootIndex, path, fileReference.bytes, usn, isDirectory⟩⟩

/-- The handoff of a pair whose new name lies in one root, if the old name lay in another one. -/
def pairHandoff (pair : RenamePairEvent) (currentRoots : List Nat) : Option BackendJournalHandoff :=
  match currentRoots with
  | [currentRootIndex] =>
    let previousRootIndex := pair.previousRoots.head?
    let isCrossRoot := pair.previousPendingIndex.isSome || previousRootIndex.any (· != currentRootIndex)
    if isCrossRoot && decide (pair.previousRoots.length ≤ 1) then
      some ⟨if pair.previousPendingIndex.isNone then previousRootIndex else none, pair.previousPendingIndex,
        currentRootIndex, pair.previousPath, pair.current.path, pair.current.fileReference.bytes, pair.previousUsn,
        pair.current.usn, pair.current.isDirectory⟩
    else none
  | _ => none

/-- The candidates of a pair that is not inside one root: the old name for its roots and the new name for its roots. -/
def pairCandidates (ctx : SemanticRootContext) (st : RootReadState) (pair : RenamePairEvent) (currentRoots : List Nat) :
    Except BackendError (List (Nat × BackendJournalCandidate)) := do
  let healthy := fun index => !rootFailed st.candidatesByRoot index
  let previous ← (pair.previousRoots.filter healthy).mapM fun index =>
    scopedCandidate ctx index pair.previousPath pair.current.fileReference pair.current.usn pair.current.isDirectory
  let current ← (currentRoots.filter healthy).mapM fun index =>
    scopedCandidate ctx index pair.current.path pair.current.fileReference pair.current.usn pair.current.isDirectory
  return previous ++ current

/-- `push_pair_event_with_current_roots`: the event a pair adds, if any. -/
def pairEvent (ctx : SemanticRootContext) (st : RootReadState) (pair : RenamePairEvent) (currentRoots : List Nat)
    (currentUncertain : Bool) : Except BackendError (List SemanticEvent) :=
  if currentUncertain && pair.previousPendingIndex.isNone then
    match pair.previousRoots with
    | [rootIndex] =>
      .ok [pendingEvent rootIndex pair.previousPath pair.current.fileReference pair.previousUsn pair.current.isDirectory]
    | _ => .ok []
  else if pair.previousRoots.length = 1 ∧ pair.previousRoots = currentRoots then do
    let rootIndex := currentRoots.headD 0
    let candidate ← BackendJournalCandidate.copyFromBounded
      ⟨volumeIdOf ctx rootIndex, pair.current.path, some pair.previousPath, pair.current.fileReference.bytes,
        pair.current.usn, .rename, pair.current.isDirectory⟩
    return [⟨pair.current.usn, [(rootIndex, candidate)], none, none⟩]
  else do
    let candidates ← pairCandidates ctx st pair currentRoots
    let handoff := pairHandoff pair currentRoots
    return if candidates.isEmpty && handoff.isNone then [] else [⟨pair.current.usn, candidates, handoff, none⟩]

/-! ## The loop over the records -/

/-- The carry a new name is put together with: of the same file and kind, with the latest old name before it. -/
def selectCarry (pendingRenames : List NativePendingRenameCarry) (current : ResolvedRecord) :
    Option (Nat × NativePendingRenameCarry) :=
  maxByKey (fun carry => carry.2.oldUsn) <| (pendingRenames.zipIdx.map fun carry => (carry.2, carry.1)).filter fun carry =>
    carry.2.fileReference == current.fileReference.bytes && decide (carry.2.oldUsn < current.usn) &&
      carry.2.isDirectory == current.isDirectory

/-- The state of the loop: the events so far, the old names that wait for their new name, by file reference, and the roots. -/
structure PairingState where
  events : List SemanticEvent
  oldNames : List ResolvedRecord
  rootState : RootReadState
  deriving DecidableEq

/-- Put a record into the map of old names. -/
def insertOldName (record : ResolvedRecord) (oldNames : List ResolvedRecord) : List ResolvedRecord :=
  (oldNames.filter fun old => old.fileReference != record.fileReference).orderedInsert
    (fun a b => a.fileReference.key ≤ b.fileReference.key) record

section

variable (ordinalEquals : OrdinalEquals)

/-- A new name whose old name is in the page: `push_pair_event`. -/
def pairInPage (ctx : SemanticRootContext) (st : PairingState) (previous current : ResolvedRecord) :
    Except BackendError PairingState := do
  let ((previousRoots, _), rootState) := rootsForRenamePath ordinalEquals ctx previous.path previous.usn st.rootState
  let ((currentRoots, uncertain), rootState) := rootsForRenamePath ordinalEquals ctx current.path current.usn rootState
  let events ← pairEvent ctx rootState ⟨previous.path, previous.usn, previousRoots, none, current⟩ currentRoots uncertain
  return ⟨st.events ++ events, st.oldNames.filter fun old => old.fileReference != current.fileReference, rootState⟩

/-- A new name whose old name was carried over from an earlier page. -/
def pairWithCarry (ctx : SemanticRootContext) (st : PairingState) (index : Nat) (carry : NativePendingRenameCarry)
    (current : ResolvedRecord) : Except BackendError PairingState :=
  let ((currentRoots, uncertain), rootState) := rootsForRenamePath ordinalEquals ctx current.path current.usn st.rootState
  match carry.root with
  | none =>
    .ok { st with rootState := { rootState with uncertaintyBarrier := lowerBarrier rootState.uncertaintyBarrier current.usn } }
  | some previousRoot => do
    let previousPath ← joinRootRelative previousRoot.canonicalRootUtf16 carry.previousRelativePath
    let events ← pairEvent ctx rootState ⟨previousPath, carry.oldUsn, carry.readRootIndex.toList, some index, current⟩
      currentRoots uncertain
    return { st with events := st.events ++ events, rootState := rootState }

/-- A record that is no rename, or a new name with nothing to put it together with. -/
def plainEvent (ctx : SemanticRootContext) (st : PairingState) (current : ResolvedRecord) :
    Except BackendError PairingState := do
  let (currentRoots, rootState) := rootsForPath ordinalEquals ctx current.path current.usn st.rootState
  let candidates ← currentRoots.mapM fun index =>
    scopedCandidate ctx index current.path current.fileReference current.usn current.isDirectory
  return { st with
    events := st.events ++ (if candidates.isEmpty then [] else [⟨current.usn, candidates, none, none⟩])
    rootState := rootState }

/-- One round of the loop of `semantic_events`. -/
def pairRecord (ctx : SemanticRootContext) (pendingRenames : List NativePendingRenameCarry) (st : PairingState)
    (current : ResolvedRecord) : Except BackendError PairingState :=
  if current.isOldName then .ok { st with oldNames := insertOldName current st.oldNames }
  else if current.isNewName then
    match st.oldNames.find? fun old => old.fileReference == current.fileReference with
    | some previous => pairInPage ordinalEquals ctx st previous current
    | none =>
      match selectCarry pendingRenames current with
      | some (index, carry) => pairWithCarry ordinalEquals ctx st index carry current
      | none => plainEvent ordinalEquals ctx st current
  else plainEvent ordinalEquals ctx st current

/-- An old name that is left when the page ends: it waits for the next page, or its roots are given up. -/
def leaveOldName (ctx : SemanticRootContext) (st : PairingState) (previous : ResolvedRecord) : PairingState :=
  let ((previousRoots, _), rootState) := rootsForRenamePath ordinalEquals ctx previous.path previous.usn st.rootState
  match previousRoots with
  | [] => { st with rootState := rootState }
  | [rootIndex] =>
    { st with
      events := st.events ++
        [pendingEvent rootIndex previous.path previous.fileReference previous.usn previous.isDirectory]
      rootState := rootState }
  | _ =>
    let candidatesByRoot := previousRoots.foldl (fun candidates index => candidates.set index (.error .rootUnavailable))
      rootState.candidatesByRoot
    { st with rootState := { rootState with candidatesByRoot := candidatesByRoot } }

/-- `semantic_events`: the events of a page, in the order they are found, and the state of the roots after it. -/
def semanticEvents (ctx : SemanticRootContext) (pendingRenames : List NativePendingRenameCarry)
    (records : List ResolvedRecord) (rootState : RootReadState) :
    Except BackendError (List SemanticEvent × RootReadState) := do
  pendingRenames.forM fun pending => do
    let _ ← fileReferenceFromBytes pending.fileReference
  let st ← records.foldlM (pairRecord ordinalEquals ctx pendingRenames) ⟨[], [], rootState⟩
  let st := st.oldNames.foldl (leaveOldName ordinalEquals ctx) st
  return (st.events, st.rootState)

end

end Ame
