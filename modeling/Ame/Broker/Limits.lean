import Ame.Broker.Usn

/-!
# How much of a page is kept (`journal_broker/windows/usn.rs`)

The events of a page are put into the order of the journal and handed to their roots one by one, until the first one behind the
uncertainty barrier or the first one that the answer has no room for. An event that is too large for an empty answer, at the
start of the range, gives its roots up instead.
-/

namespace Ame

/-- `BackendJournalCandidate::evidence_bytes` -/
def BackendJournalCandidate.evidenceBytes (candidate : BackendJournalCandidate) : Nat :=
  candidate.absolutePathUtf16.length * 2 + (candidate.previousAbsolutePathUtf16.elim 0 fun path => path.length * 2) +
    candidate.fileReference.length

/-- The evidence of a handoff in `SemanticEvent::costs`. -/
def BackendJournalHandoff.evidenceBytes (handoff : BackendJournalHandoff) : Nat :=
  handoff.previousAbsolutePathUtf16.length * 2 + handoff.currentAbsolutePathUtf16.length * 2 + handoff.fileReference.length

/-- The evidence of an old name in `SemanticEvent::costs`. -/
def BackendPendingRename.evidenceBytes (pending : BackendPendingRename) : Nat :=
  pending.previousAbsolutePathUtf16.length * 2 + pending.fileReference.length

/-- `SemanticEvent::costs`: the records and the bytes of an event. The sums are far from the range of a machine word, and a sum
that left it would be over every limit. -/
def SemanticEvent.costs (event : SemanticEvent) : Nat × Nat :=
  (event.candidates.length + event.handoff.toList.length + event.pending.toList.length,
    (event.candidates.map (·.2.evidenceBytes)).sum + (event.handoff.elim 0 (·.evidenceBytes)) +
      (event.pending.elim 0 (·.evidenceBytes)))

/-- `SemanticEvent::affected_roots` -/
def SemanticEvent.affectedRoots (event : SemanticEvent) : List Nat :=
  event.candidates.map (·.1) ++
    event.handoff.elim [] (fun handoff => handoff.previousRootIndex.toList ++ [handoff.currentRootIndex]) ++
    event.pending.elim [] (fun pending => [pending.rootIndex])

/-- What is left of an event when the roots that were given up are taken out of it. -/
def SemanticEvent.retainHealthy (event : SemanticEvent) (candidatesByRoot : RootCandidates) : SemanticEvent :=
  { event with
    candidates := event.candidates.filter fun candidate => !rootFailed candidatesByRoot candidate.1
    handoff := event.handoff.filter fun handoff =>
      !(rootFailed candidatesByRoot handoff.currentRootIndex || handoff.previousRootIndex.any (rootFailed candidatesByRoot))
    pending := event.pending.filter fun pending => !rootFailed candidatesByRoot pending.rootIndex }

/-- An event that has nothing left. -/
def SemanticEvent.isEmpty (event : SemanticEvent) : Bool :=
  event.candidates.isEmpty && event.handoff.isNone && event.pending.isNone

/-- The page as far as it has been kept. -/
structure LimitedPage where
  candidatesByRoot : RootCandidates
  coveredUntilUsn : Int
  handoffs : List BackendJournalHandoff
  pendingRenames : List BackendPendingRename
  totalRecords : Nat
  totalEvidence : Nat
  deriving DecidableEq

/-- Give a candidate to its root. -/
def pushCandidate (candidatesByRoot : RootCandidates) (candidate : Nat × BackendJournalCandidate) : RootCandidates :=
  candidatesByRoot.modify candidate.1 fun candidates => candidates.map (· ++ [candidate.2])

/-- Keep an event. -/
def LimitedPage.accept (page : LimitedPage) (event : SemanticEvent) : LimitedPage :=
  { page with
    candidatesByRoot := event.candidates.foldl pushCandidate page.candidatesByRoot
    handoffs := page.handoffs ++ event.handoff.toList
    pendingRenames := page.pendingRenames ++ event.pending.toList
    totalRecords := page.totalRecords + event.costs.1
    totalEvidence := page.totalEvidence + event.costs.2 }

/-- Give the roots of an event up, because it is too large for any page. -/
def LimitedPage.exceed (page : LimitedPage) (event : SemanticEvent) : LimitedPage :=
  { page with
    candidatesByRoot := event.affectedRoots.foldl (fun candidates index => candidates.set index (.error .evidenceLimitExceeded))
      page.candidatesByRoot }

/-- The earliest start of a root that is still read. -/
def minimumStart (rootStartUsns : List Int) (candidatesByRoot : RootCandidates) : Option Int :=
  ((rootStartUsns.zipIdx.filter fun start => !rootFailed candidatesByRoot start.2).map (·.1)).min?

/-- What the loop of `apply_semantic_limits` reads and does not change. -/
structure PageLimits where
  rawCoveredUntilUsn : Int
  uncertaintyBarrier : Option Int
  rootStartUsns : List Int
  maxRecords : Nat
  maxEvidenceBytes : Nat
  deriving DecidableEq, Repr

/-- The event lies behind the uncertainty barrier. -/
def PageLimits.stopsAt (limits : PageLimits) (usn : Int) : Bool :=
  limits.uncertaintyBarrier.any fun barrier => decide (barrier ≤ usn)

/-- The page has no room for the event. -/
def PageLimits.exceededBy (limits : PageLimits) (page : LimitedPage) (event : SemanticEvent) : Bool :=
  decide (limits.maxRecords < page.totalRecords + event.costs.1) ||
    decide (limits.maxEvidenceBytes < page.totalEvidence + event.costs.2)

/-- The loop of `apply_semantic_limits`. -/
def limitEvents (limits : PageLimits) : List SemanticEvent → LimitedPage → Except BackendError LimitedPage
  | [], page => .ok page
  | found :: rest, page =>
    if limits.stopsAt found.usn then .ok page
    else
      let event := found.retainHealthy page.candidatesByRoot
      if event.isEmpty then limitEvents limits rest page
      else if limits.exceededBy page event then
        match minimumStart limits.rootStartUsns page.candidatesByRoot with
        | none => .error .rootUnavailable
        | some start =>
          if page.totalRecords = 0 ∧ event.usn ≤ start then limitEvents limits rest (page.exceed event)
          else .ok { page with coveredUntilUsn := min event.usn limits.rawCoveredUntilUsn }
      else limitEvents limits rest (page.accept event)

/-- `apply_semantic_limits` -/
def applySemanticLimits (limits : PageLimits) (candidatesByRoot : RootCandidates)
    (events : List SemanticEvent) : Except BackendError LimitedPage :=
  limitEvents limits events
    ⟨candidatesByRoot, limits.uncertaintyBarrier.elim limits.rawCoveredUntilUsn (min limits.rawCoveredUntilUsn), [], [], 0, 0⟩

/-- `events.sort_by_key(|event| event.usn)`, which keeps the order of events with one coordinate. -/
def sortEvents (events : List SemanticEvent) : List SemanticEvent := events.insertionSort fun a b => a.usn ≤ b.usn

section

variable (ordinalEquals : OrdinalEquals)

/-- The last part of `read_existing_journal_volume_page`, from the resolved records to the kept page. -/
def keepPage (ctx : SemanticRootContext) (pendingRenames : List NativePendingRenameCarry) (records : List ResolvedRecord)
    (rootState : RootReadState) (rawCoveredUntilUsn : Int) (maxRecords maxEvidenceBytes : Nat) :
    Except BackendError LimitedPage := do
  let (events, after) ← semanticEvents ordinalEquals ctx pendingRenames records rootState
  applySemanticLimits ⟨rawCoveredUntilUsn, after.uncertaintyBarrier, ctx.rootStartUsns, maxRecords, maxEvidenceBytes⟩
    after.candidatesByRoot (sortEvents events)

end

end Ame
