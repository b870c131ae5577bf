import Ame.Theorems.QueueRuns

/-!
# New evidence waits for work that has not begun

An enqueue in the live or the journal lane always writes a change, and the change it writes is pending: it denotes everything the
incoming intent denotes, so a worker that begins later looks at it. A leased change, whose worker may have looked already, never
stands in for the incoming intent.
-/

namespace Ame

open List

variable {q q' : ChangeQueue} {incoming inc : LibraryChangeIntent} {ctx : EnqueueContext}
  {report report' : LibraryChangeEnqueueReport} {id : LibraryChangeId}

/-- The change `id` of the queue is pending, lies in the root of the incoming intent and denotes all that the intent does. -/
def WaitsFor (q : ChangeQueue) (incoming : LibraryChangeIntent) (id : LibraryChangeId) : Prop :=
  ∃ r ∈ q.rows, r.id = id ∧ r.status = .pending ∧ r.intent.rootId = incoming.rootId ∧
    r.intent.rootGeneration = incoming.rootGeneration ∧ ∀ path, incoming.denote path → r.intent.denote path

/-- The change an effect writes waits for the incoming intent, if it denotes it. -/
theorem Effect.waitsFor {ids : List LibraryChangeId} {m : LibraryChangeIntent} (h : Effect q q' ids id m)
    (hro : m.rootId = inc.rootId ∧ m.rootGeneration = inc.rootGeneration)
    (hd : ∀ path, inc.denote path → m.denote path) : WaitsFor q' inc id := by
  obtain ⟨r, hr, hid, rfl, hs⟩ := h.target
  exact ⟨r, hr, hid, hs, hro.1, hro.2, hd⟩

/-- Widening to the root leaves a pending change over all of it. -/
theorem degradeToRoot_waitsFor {allA rows : List QueueRow} {evid : Option LibraryChangeCatchUpEvidence} {flag : Bool}
    (hq : ShapedQueue q) (hl : loadActiveChanges q inc.rootId inc.rootGeneration = .ok allA) (hsu : ∀ c ∈ rows, c ∈ allA)
    (h : degradeToRoot q rows inc report evid flag = .ok (q', report', id)) : WaitsFor q' inc id := by
  have hr := fun c hc => (mem_of_loadActiveChanges hl c).mp (hsu c hc)
  have hsh : ∀ c ∈ rows, Shaped c.intent := fun c hc => hq c (hr c hc).1
  obtain ⟨-, he⟩ := degradeToRoot_effect (fun c hc => (hr c hc).1) (fun c hc => ⟨(hr c hc).2.1, (hr c hc).2.2.1⟩) hsh h
  obtain ⟨-, hs, hro, hg, -⟩ := rootIntent_spec hsh inc
  exact he.waitsFor ⟨hro, hg⟩ fun path _ => denote_of_root hs path

/-- Outside the recovery lane no other lane owns the incoming path. -/
theorem higherPriorityOwner_eq_none {allA : List QueueRow} (hl : inc.origin.lane ≠ .recovery) :
    higherPriorityOwner allA inc = none := if_neg hl

/-- `enqueue_one` leaves a pending change that denotes the incoming intent. -/
theorem enqueueOneFuel_waitsFor (hi : Shaped inc) (hla : inc.origin.lane ≠ .recovery) (fuel : Nat)
    (hq : ShapedQueue q) (h : enqueueOneFuel fuel inc ctx q report = .ok (q', report', id)) : WaitsFor q' inc id := by
  induction fuel generalizing q report with
  | zero => cases h
  | succ fuel ih =>
    obtain ⟨allA, hl, hca⟩ := enqueueBody_cases h
    cases hca with
    | owned owner ho _ =>
      rw [higherPriorityOwner_eq_none hla] at ho
      cases ho
    | conflicting hd => exact degradeToRoot_waitsFor hq hl sameLaneChanges_subset hd
    | ambiguous hd => exact degradeToRoot_waitsFor hq hl sameLaneChanges_subset hd
    | again middle hd _ ha => exact ih (degradeToRoot_conserves hq hl sameLaneChanges_subset hd).2 ha
    | covered target _ hco _ ht hru =>
      have htm := mem_of_find?_eq_some ht
      have htp := find?_some ht
      simp only [Bool.and_eq_true] at htp
      obtain ⟨⟨hu, hcov⟩, -⟩ := htp
      obtain ⟨htr, -, hr, hg⟩ := mergeable_spec hq hl htm
      obtain ⟨more, rfl, he, -⟩ := enqueueCovered_effect htr hu hru
      obtain ⟨hro, hge⟩ := coveredIntent_root (mergeableChanges allA inc ctx) target inc (capacityDeferredGapIds allA)
      exact he.waitsFor ⟨hro.trans hr, hge.trans hg⟩ fun path hp => coveredIntent_denote hq hi hl hco htm hcov (.inl hp)
    | inserted _ hco _ _ hru =>
      obtain ⟨more, -, he, -⟩ := enqueueInserted_effect hru
      have hs := fun c (hc : c ∈ absorbedByIncoming (mergeableChanges allA inc ctx) inc
        (capacityDeferredGapIds allA)) => mergeable_spec hq hl (mem_filter.mp hc).1
      exact he.waitsFor (mergeInserted_root fun c hc => (hs c hc).2.2) fun path hp =>
        mergeInserted_denote hi (fun c hc => ⟨(mem_filter.mp hc).1, (hs c hc).2.1⟩) hco hp
    | full hd => exact degradeToRoot_waitsFor hq hl mergeable_active hd

/-- Whatever enqueues, leases and releases came before: when a valid intent of the live or the journal lane is enqueued, every path
it denotes is denoted by an active change that is not leased. -/
theorem enqueue_denoted_unleased (hq : ReachableQueue q) (hvalid : BatchValid [incoming])
    (hlane : incoming.origin.lane = .live ∨ incoming.origin.lane = .journal)
    (h : enqueueOne incoming ctx q report = .ok (q', report', id)) (path : String) (hpath : incoming.denote path) :
    ∃ r ∈ q'.rows, isUnleased r.status = true ∧ r.intent.rootId = incoming.rootId ∧
      r.intent.rootGeneration = incoming.rootGeneration ∧ r.intent.denote path := by
  have hlane' : incoming.origin.lane ≠ .recovery := by rcases hlane with h | h <;> simp [h]
  obtain ⟨r, hr, -, hs, hro, hg, hd⟩ :=
    enqueueOneFuel_waitsFor (shaped_of_valid hvalid) hlane' 2 hq.shapedQueue h
  exact ⟨r, hr, by rw [hs]; rfl, hro, hg, hd path hpath⟩

/-- A rename inside a directory that a worker has leased. -/
theorem enqueue_denoted_unleased_directory :
    ∃ q' report' id, enqueueOne (renameInside 2) sampleContext directoryLeased {} = .ok (q', report', id) ∧
      ∃ r ∈ q'.rows, isUnleased r.status = true ∧ r.intent.rootId = "root" ∧ r.intent.rootGeneration = .initial ∧
        r.intent.denote "a/x" := by
  have hok : ∃ res, enqueueOne (renameInside 2) sampleContext directoryLeased {} = .ok res := ⟨_, rfl⟩
  obtain ⟨⟨q', report', id⟩, hok⟩ := hok
  exact ⟨q', report', id, hok, enqueue_denoted_unleased reachable_directoryLeased (by decide) (.inl rfl) hok "a/x"
    ((denote_path_iff rfl "a/x").mpr (by decide))⟩

end Ame
