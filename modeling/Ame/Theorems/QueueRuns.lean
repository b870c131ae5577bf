import Ame.Queue.Lease
import Ame.Theorems.Normalize
import Ame.Theorems.QueueConservation

/-!
# The queue along its runs

Every queue that enqueues, leases and releases reach holds valid shapes only, so the conservation of
`Ame.Theorems.QueueConservation` holds at each of its enqueues that takes over what it replaces.
-/

namespace Ame

open List

open Transition Result

variable {q q' : ChangeQueue}

/-! ## Shapes along a run -/

/-- A step that rewrites rows without touching their intents keeps the shapes valid. -/
theorem shapedQueue_modify {f : QueueRow → QueueRow} (hq : ShapedQueue q)
    (hf : ∀ r, (f r).intent = r.intent) : ShapedQueue (q.modify f) := by
  intro r' hr'
  obtain ⟨r, hr, rfl⟩ := ChangeQueue.mem_modify.mp hr'
  exact (hf r).symm ▸ hq r hr

/-- A valid batch of one has a valid shape. -/
theorem shaped_of_valid {inc : LibraryChangeIntent} (h : BatchValid [inc]) : Shaped inc :=
  shaped_of_batchValid h inc (by simp)

/-- Every step keeps the shapes valid. -/
theorem QueueStep.shapedQueue {action : QueueAction} (h : QueueStep q action q') (hq : ShapedQueue q) : ShapedQueue q' := by
  cases h with
  | enqueue hv he => exact enqueueOneFuel_shaped (shaped_of_valid hv) 2 hq he
  | lease ids => exact shapedQueue_modify hq fun r => by unfold leasedRow; split <;> rfl
  | retry id code => exact shapedQueue_modify hq fun r => by unfold retriedRow; split <;> rfl
  | defer ids => exact shapedQueue_modify hq fun r => by unfold deferredRow; split <;> rfl

/-- Every reachable queue holds valid shapes. -/
theorem ReachableQueue.shapedQueue (h : ReachableQueue q) : ShapedQueue q := by
  obtain ⟨actions, hru⟩ := h
  refine hru.state_invariant (I := ShapedQueue) ?_ fun q action q' hq hs => hs.shapedQueue hq
  intro r hr
  cases hr

/-! ## Work along a run -/

/-- At every enqueue of a run that takes over whatever it replaces, no path is lost: what was dirty before, and what the intent
denotes, is dirty after. If the kept change does not denote a path that only replaced changes of a wider scope denote, the path is
lost. -/
theorem enqueue_conserves {q q' : ChangeQueue} {incoming : LibraryChangeIntent} {ctx : EnqueueContext}
    {report report' : LibraryChangeEnqueueReport} {id : LibraryChangeId} (hq : ReachableQueue q)
    (hvalid : BatchValid [incoming]) (h : enqueueOne incoming ctx q report = .ok (q', report', id)) :
    (ReplacesWhole q incoming ctx → Conserves q incoming q') ∧
    ∀ allActive kept, loadActiveChanges q incoming.rootId incoming.rootGeneration = .ok allActive →
      Merges allActive incoming ctx → keptChange allActive incoming ctx = some kept →
      ∀ path, (∃ c ∈ allActive, c.intent.denote path) → ¬kept.intent.denote path →
        (∀ c ∈ allActive, c.intent.denote path → c.intent.scope ≠ .path ∧ IsReplaced allActive incoming ctx c) →
        ¬Conserves q incoming q' := by
  have hi := shaped_of_valid hvalid
  refine ⟨fun hwhole => enqueueOneFuel_conserves hi 2 hq.shapedQueue hwhole h, ?_⟩
  rintro allActive kept hload hm hk path ⟨c, hc, hd⟩ hp hr hcon
  obtain ⟨hcr, h1, h2, ha⟩ := (mem_of_loadActiveChanges hload c).mp hc
  exact enqueueOneFuel_loses hi hq.shapedQueue hload hm hk hp hr h (hcon _ _ path (.inl ⟨c, hcr, ha, h1, h2, hd⟩))

/-- Actions that all succeed lead from a reachable queue to a reachable queue. -/
theorem ReachableQueue.foldlM (hq : ReachableQueue q) (actions : List QueueAction)
    (h : actions.foldlM QueueAction.apply q = .ok q') : ReachableQueue q' := by
  induction actions generalizing q with
  | nil => exact Except.ok.inj h ▸ hq
  | cons action actions ih =>
    obtain ⟨q1, h1, h⟩ := bind_ok h
    refine ih ?_ h
    obtain ⟨labels, hr⟩ := hq
    refine ⟨_, hr.snoc (l := action) ?_⟩
    cases action with
    | enqueue inc ctx =>
      obtain ⟨_, hv, h1⟩ := bind_ok h1
      obtain ⟨⟨q2, report', id⟩, he, h1⟩ := bind_ok h1
      obtain rfl : q2 = q1 := by simpa [pure, Except.pure] using h1
      exact .enqueue hv he
    | lease ids => exact Except.ok.inj h1 ▸ .lease q ids
    | retry id code => exact Except.ok.inj h1 ▸ .retry q id code
    | defer ids => exact Except.ok.inj h1 ▸ .defer q ids

/-- The empty queue is reachable. -/
theorem ReachableQueue.empty : ReachableQueue ChangeQueue.empty := ⟨[], .nil⟩

/-! ## Two runs -/

/-- An intent of the live watcher. -/
def sampleIntent (kind : LibraryChangeIntentKind) (scope : LibraryChangeScope) (path : String) (previous : Option String)
    (sequence : Nat) : LibraryChangeIntent :=
  { rootId := "root", rootGeneration := .initial, kind := kind, scope := scope, relativePath := path,
    previousRelativePath := previous, origin := .liveNotification, firstObservedUnixMs := 0, mostRecentObservedUnixMs := 0,
    firstSequence := sequence, mostRecentSequence := sequence, coalescedObservationCount := 1 }

/-- The context of an observation of the live watcher. -/
def sampleContext : EnqueueContext := ⟨⟨4096⟩, none, [], true⟩

/-- A row without evidence. -/
def sampleRow (id : LibraryChangeId) (intent : LibraryChangeIntent) (status : LibraryChangeQueueStatus)
    (supersededBy : Option LibraryChangeId) : QueueRow :=
  ⟨id, intent, status, none, [], none, supersededBy, false⟩

/-- The rename of a file in directory `a`. -/
def renameInside (sequence : Nat) : LibraryChangeIntent :=
  sampleIntent .renameCandidate .path "a/x" (some "a/y") sequence

/-- A queue in which a worker has leased the directory. -/
def directoryLeased : ChangeQueue where
  rows := [sampleRow 1 (sampleIntent .reconcile .subtree "a" none 1) .leased none]
  nextId := 2
  below := by decide
  distinct := by decide

/-- It is reachable. -/
theorem reachable_directoryLeased : ReachableQueue directoryLeased := ReachableQueue.empty.foldlM
  [.enqueue (sampleIntent .reconcile .subtree "a" none 1) sampleContext, .lease [1]] (by decide)

/-- The directory of `directoryLeased` takes over a rename inside it. -/
theorem replacesWhole_directoryLeased : ReplacesWhole directoryLeased (renameInside 2) sampleContext := by
  intro allA kept hl _ hk
  obtain rfl : directoryLeased.rows = allA := Except.ok.inj hl
  have hr : keptChange directoryLeased.rows (renameInside 2) sampleContext =
      some (sampleRow 1 (sampleIntent .reconcile .subtree "a" none 1) .leased none) := by decide
  obtain rfl := Option.some.inj (hr.symm.trans hk)
  refine ⟨fun c hc p hp => ?_, fun hu => by cases hu⟩
  have hc' := mergeable_active c hc.mergeable
  exact mem_singleton.mp hc' ▸ hp

/-- The directory of `directoryLeased` takes over a rename inside it: nothing is lost. -/
theorem enqueue_conserves_directoryLeased :
    ∃ q' report' id, enqueueOne (renameInside 2) sampleContext directoryLeased {} = .ok (q', report', id) ∧
      Conserves directoryLeased (renameInside 2) q' := by
  have hok : ∃ res, enqueueOne (renameInside 2) sampleContext directoryLeased {} = .ok res := ⟨_, rfl⟩
  obtain ⟨⟨q', report', id⟩, hok⟩ := hok
  exact ⟨q', report', id, hok, (enqueue_conserves reachable_directoryLeased (by decide) hok).1 replacesWhole_directoryLeased⟩

/-- A queue in which a renamed file is pending and its directory is leased. -/
def fileAndDirectory : ChangeQueue where
  rows := [sampleRow 1 (sampleIntent .reconcile .path "a/x" none 1) .superseded (some 2),
    sampleRow 2 { sampleIntent .reconcile .path "a/x" (some "a/y") 1 with
      mostRecentSequence := 2, coalescedObservationCount := 2 } .pending none,
    sampleRow 3 (sampleIntent .reconcile .subtree "a" none 3) .leased none]
  nextId := 4
  below := by decide
  distinct := by decide

/-- What is left when the rename is observed once more: the file alone. -/
def fileOnly : ChangeQueue where
  rows := [sampleRow 1 (sampleIntent .reconcile .path "a/x" none 1) .superseded (some 2),
    sampleRow 2 { sampleIntent .reconcile .path "a/x" (some "a/y") 1 with
      mostRecentSequence := 4, coalescedObservationCount := 4 } .pending none,
    sampleRow 3 (sampleIntent .reconcile .subtree "a" none 3) .superseded (some 2)]
  nextId := 4
  below := by decide
  distinct := by decide

/-- A file changes and is found to be renamed, its directory changes and is leased, and the rename is observed once more: the
pending file supersedes the leased directory, and the rest of the directory is forgotten. -/
theorem enqueue_loses_leased_directory : ReachableQueue fileAndDirectory ∧ BatchValid [renameInside 4] ∧
      enqueueOne (renameInside 4) sampleContext fileAndDirectory {} =
        .ok (fileOnly, { coalescedCount := 1, supersededCount := 1 }, 2) ∧
      ¬Conserves fileAndDirectory (renameInside 4) fileOnly := by
  refine ⟨?_, by decide, by decide, ?_⟩
  · exact ReachableQueue.empty.foldlM
      [.enqueue (sampleIntent .reconcile .path "a/x" none 1) sampleContext, .enqueue (renameInside 2) sampleContext,
        .enqueue (sampleIntent .reconcile .subtree "a" none 3) sampleContext, .lease [3]] (by decide)
  · intro h
    have hdi : Dirty fileAndDirectory "root" .initial "a/z" :=
      ⟨_, mem_of_getLast? rfl, rfl, rfl, rfl, (denote_subtree_iff rfl "a/z").mpr (by decide)⟩
    obtain ⟨r, hr, ha, _, _, hd⟩ := h "root" .initial "a/z" (Or.inl hdi)
    simp only [fileOnly, mem_cons, not_mem_nil, or_false] at hr
    rcases hr with rfl | rfl | rfl
    · cases ha
    · rw [denote_path_iff rfl] at hd
      revert hd
      decide
    · cases ha

end Ame
