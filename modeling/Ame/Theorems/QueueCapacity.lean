import Ame.Queue.Lifecycle
import Ame.Theorems.QueueRuns

/-!
# The capacity of the queue

The admission of a change looks at the counts before anything is absorbed, widened or superseded. The bounds hold along every
run all the same: each branch either replaces at least one change of the incoming lane by one change of that lane, or inserts
one after the admission has counted it.
-/

namespace Ame

open List Transition LibraryChangeIntent ActiveLaneCounts

/-- The unresolved changes of a root generation, in some lanes. -/
def activeIn (q : ChangeQueue) (rootId : String) (rootGeneration : LibraryRootGeneration) (lanes : LibraryChangeLane → Bool) :
    List QueueRow :=
  q.rows.filter fun r =>
    r.intent.rootId == rootId && r.intent.rootGeneration == rootGeneration && r.status.isActive && lanes r.intent.origin.lane

/-- The bounds of a policy: on all changes of a root generation, on its recovery changes, and on its journal and recovery
changes together. -/
structure WithinCapacity (policy : LibraryChangeQueuePolicy) (q : ChangeQueue) (rootId : String)
    (rootGeneration : LibraryRootGeneration) : Prop where
  total : (activeIn q rootId rootGeneration fun _ => true).length ≤ policy.maxUnresolvedChanges
  recovery : (activeIn q rootId rootGeneration (· == .recovery)).length ≤ policy.laneCapacity .recovery
  lower : (activeIn q rootId rootGeneration (· == .journal)).length +
    (activeIn q rootId rootGeneration (· == .recovery)).length ≤ policy.laneCapacity .journal

/-! ## Counting -/

section

variable {q q' : ChangeQueue} {rootId : String} {gen : LibraryRootGeneration} {lanes : LibraryChangeLane → Bool}
  {ids : List LibraryChangeId} {tid : LibraryChangeId}

theorem mem_activeIn {r : QueueRow} : r ∈ activeIn q rootId gen lanes ↔
    r ∈ q.rows ∧ r.intent.rootId = rootId ∧ r.intent.rootGeneration = gen ∧ r.status.isActive = true ∧
      lanes r.intent.origin.lane = true := by
  simp [activeIn, and_assoc]

/-- The identifiers of the unresolved changes differ. -/
theorem activeIn_nodup (q : ChangeQueue) (rootId : String) (gen : LibraryRootGeneration)
    (lanes : LibraryChangeLane → Bool) : ((activeIn q rootId gen lanes).map (·.id)).Nodup :=
  (filter_sublist.map _).nodup q.distinct

/-- A list of changes is no longer than a list of identifiers that has theirs. -/
theorem activeIn_length_le (h : ∀ r ∈ activeIn q rootId gen lanes, r.id ∈ ids) :
    (activeIn q rootId gen lanes).length ≤ ids.length := by
  have hs : (activeIn q rootId gen lanes).map (·.id) ⊆ ids := by
    intro x hx
    obtain ⟨r, hr, rfl⟩ := mem_map.mp hx
    exact h r hr
  have hle := (subperm_of_subset (activeIn_nodup q rootId gen lanes) hs).length_le
  rwa [length_map] at hle

/-- Nothing has more unresolved changes than before. -/
def AddsNothing (q q' : ChangeQueue) : Prop :=
  ∀ rootId gen lanes, (activeIn q' rootId gen lanes).length ≤ (activeIn q rootId gen lanes).length

/-- A rewriting that makes no change active and keeps the intents adds nothing. -/
theorem addsNothing_modify {f : QueueRow → QueueRow}
    (hf : ∀ r, (f r).intent = r.intent ∧ ((f r).status.isActive = true → r.status.isActive = true)) :
    AddsNothing q (q.modify f) := by
  intro rootId gen lanes
  have hle : (activeIn (q.modify f) rootId gen lanes).length ≤ ((activeIn q rootId gen lanes).map (·.id)).length := by
    refine activeIn_length_le ?_
    intro r' hr'
    obtain ⟨hrow, hro, hg, ha, hl⟩ := mem_activeIn.mp hr'
    obtain ⟨r, hr, rfl⟩ := ChangeQueue.mem_modify.mp hrow
    rw [(hf r).1] at hro hg hl
    exact mem_map.mpr ⟨r, mem_activeIn.mpr ⟨hr, hro, hg, (hf r).2 ha, hl⟩, rfl⟩
  simpa using hle

/-- An intent counts for a root generation and some lanes. -/
def LibraryChangeIntent.countsFor (intent : LibraryChangeIntent) (rootId : String) (rootGeneration : LibraryRootGeneration)
    (lanes : LibraryChangeLane → Bool) : Bool :=
  intent.rootId == rootId && intent.rootGeneration == rootGeneration && lanes intent.origin.lane

/-- After a branch: what it left alone, and the target. -/
theorem Effect.activeIn_le {m : LibraryChangeIntent} (h : Effect q q' ids tid m) (rootId : String)
    (gen : LibraryRootGeneration) (lanes : LibraryChangeLane → Bool) :
    (activeIn q' rootId gen lanes).length ≤
      ((activeIn q rootId gen lanes).filter fun r => !ids.contains r.id && r.id != tid).length +
        if m.countsFor rootId gen lanes then 1 else 0 := by
  have hle : (activeIn q' rootId gen lanes).length ≤
      ((((activeIn q rootId gen lanes).filter fun r => !ids.contains r.id && r.id != tid).map (·.id)) ++
        if m.countsFor rootId gen lanes then [tid] else []).length := by
    refine activeIn_length_le ?_
    intro r' hr'
    obtain ⟨hrow, hro, hg, hac, hl⟩ := mem_activeIn.mp hr'
    by_cases ht : r'.id = tid
    · obtain ⟨r, hr, hid, hi, -⟩ := h.target
      obtain rfl := q'.eq_of_id hrow hr (ht.trans hid.symm)
      rw [hi] at hro hg hl
      have hc : m.countsFor rootId gen lanes = true := by
        simp [countsFor, hro, hg, hl]
      rw [if_pos hc]
      simp [ht]
    · obtain ⟨r, hr, hst⟩ := h.backward r' hrow ht
      rw [hst.intent] at hro hg hl
      have hk : r.id ∉ ids := by
        intro hin
        simp [hst.gone hin] at hac
      have ha : r.status.isActive = true := by
        rcases hst.status with hs | ⟨hin, -⟩
        · exact hs ▸ hac
        · exact absurd hin hk
      have hne : r.id ≠ tid := hst.id ▸ ht
      refine mem_append_left _ (mem_map.mpr ⟨r, mem_filter.mpr ⟨?_, ?_⟩, hst.id.symm⟩)
      · exact mem_activeIn.mpr ⟨hr, hro, hg, ha, hl⟩
      · simp [hk, hne]
  refine hle.trans ?_
  split <;> simp

/-- A branch that replaces a change which counts for whatever the target counts for adds nothing. -/
theorem Effect.addsNothing {m : LibraryChangeIntent}
    (h : Effect q q' ids tid m) {c : QueueRow} (hc : c ∈ q.rows) (ha : c.status.isActive = true)
    (hr : m.rootId = c.intent.rootId ∧ m.rootGeneration = c.intent.rootGeneration)
    (hl : m.origin.lane = c.intent.origin.lane) (hg : c.id ∈ ids ∨ c.id = tid) : AddsNothing q q' := by
  intro rootId gen lanes
  have hle := h.activeIn_le rootId gen lanes
  by_cases hco : m.countsFor rootId gen lanes = true
  · rw [if_pos hco] at hle
    simp only [countsFor, hr.1, hr.2, hl, Bool.and_eq_true, beq_iff_eq] at hco
    obtain ⟨⟨h1, h2⟩, h3⟩ := hco
    have hlt : ((activeIn q rootId gen lanes).filter fun r => !ids.contains r.id && r.id != tid).length <
        (activeIn q rootId gen lanes).length := by
      refine length_filter_lt_length_iff_exists.mpr ⟨c, mem_activeIn.mpr ⟨hc, h1, h2, ha, h3⟩, ?_⟩
      rcases hg with hg | hg <;> simp [hg]
    omega
  · rw [if_neg hco] at hle
    exact hle.trans (length_filter_le _ _)

/-- The bounds survive whatever adds nothing. -/
theorem WithinCapacity.of_le {policy : LibraryChangeQueuePolicy} (h : WithinCapacity policy q rootId gen)
    (hle : ∀ lanes, (activeIn q' rootId gen lanes).length ≤ (activeIn q rootId gen lanes).length) :
    WithinCapacity policy q' rootId gen where
  total := (hle _).trans h.total
  recovery := (hle _).trans h.recovery
  lower := (Nat.add_le_add (hle _) (hle _)).trans h.lower

end

/-! ## The branches -/

section

variable {q q' : ChangeQueue} {inc : LibraryChangeIntent} {ctx : EnqueueContext} {allA : List QueueRow}
  {report report' : LibraryChangeEnqueueReport} {id : LibraryChangeId} {rootId : String}
  {gen : LibraryRootGeneration}

/-- The inserted change has the lane of the intent. -/
theorem mergeInserted_origin (abs : List QueueRow) (inc : LibraryChangeIntent) :
    (mergeInserted abs inc).origin = inc.origin := by
  have hf (s : Option QueueRow) (m : LibraryChangeIntent) :
      (abs.foldl (fun merged change => if s.any (fun s => s.id == change.id) then merged
        else mergeOlderEvidence merged change.intent) m).origin = m.origin := by
    refine foldl_keeps (fun m : LibraryChangeIntent => m.origin) ?_ _ _
    intro m c
    split
    · rfl
    · exact mergeOlderEvidence_origin m c.intent
  unfold mergeInserted
  cases strongestCovering abs inc with
  | none => exact hf none inc
  | some s => exact hf (some s) (mergeNewerEvidence s.intent inc)

/-- The counts that the admission takes. -/
theorem activeLaneCounts_eq (rows : List QueueRow) :
    activeLaneCounts rows = ⟨rows.countP (·.intent.origin.lane == .live), rows.countP (·.intent.origin.lane == .journal),
      rows.countP (·.intent.origin.lane == .recovery)⟩ := by
  have hf : ∀ (rows : List QueueRow) (counts : ActiveLaneCounts),
      rows.foldl (fun counts change => counts.adding change.intent.origin.lane 1) counts =
        ⟨counts.live + rows.countP (·.intent.origin.lane == .live),
          counts.journal + rows.countP (·.intent.origin.lane == .journal),
          counts.recovery + rows.countP (·.intent.origin.lane == .recovery)⟩ := by
    intro rows
    induction rows with
    | nil => simp
    | cons row rows ih =>
      intro counts
      rw [foldl_cons, ih]
      cases hl : row.intent.origin.lane <;> simp [adding, hl] <;> omega
  unfold activeLaneCounts
  rw [hf]
  simp

/-- Every change is in one of the three lanes. -/
theorem countP_lanes (rows : List QueueRow) : rows.countP (fun _ => true) = rows.countP (·.intent.origin.lane == .live) +
      rows.countP (·.intent.origin.lane == .journal) + rows.countP (·.intent.origin.lane == .recovery) := by
  induction rows with
  | nil => rfl
  | cons row rows ih =>
    simp only [countP_cons, ih]
    cases row.intent.origin.lane <;> simp <;> omega

section

variable (hlo : loadActiveChanges q inc.rootId inc.rootGeneration = .ok allA)

include hlo

/-- What is known about a change of the incoming lane. -/
theorem sameLane_spec {c : QueueRow} (hc : c ∈ sameLaneChanges allA inc ctx) : c ∈ q.rows ∧ c.status.isActive = true ∧
      (c.intent.rootId = inc.rootId ∧ c.intent.rootGeneration = inc.rootGeneration) ∧
      c.intent.origin.lane = inc.origin.lane := by
  obtain ⟨hal, hp⟩ := mem_filter.mp hc
  obtain ⟨hr, h1, h2, ha⟩ := (mem_of_loadActiveChanges hlo c).mp hal
  simp only [Bool.and_eq_true, beq_iff_eq] at hp
  exact ⟨hr, ha, ⟨h1, h2⟩, hp.1⟩

/-- Widening a nonempty part of the lane to the root adds nothing. -/
theorem degradeToRoot_addsNothing {rows : List QueueRow} {evid : Option LibraryChangeCatchUpEvidence} {flag : Bool}
    (hq : ShapedQueue q) (hsu : ∀ c ∈ rows, c ∈ sameLaneChanges allA inc ctx) (hne : rows ≠ [])
    (h : degradeToRoot q rows inc report evid flag = .ok (q', report', id)) : AddsNothing q q' := by
  have hs : ∀ c ∈ rows, _ := fun c hc => sameLane_spec hlo (hsu c hc)
  have hsh : ∀ c ∈ rows, Shaped c.intent := fun c hc => hq c (hs c hc).1
  obtain ⟨-, he⟩ := degradeToRoot_effect (fun c hc => (hs c hc).1) (fun c hc => (hs c hc).2.2.1) hsh h
  obtain ⟨-, -, hr1, hr2, ho⟩ := rootIntent_spec hsh inc
  obtain ⟨c, hc⟩ := exists_mem_of_ne_nil rows hne
  obtain ⟨hro, ha, hr, hl⟩ := hs c hc
  refine he.addsNothing hro ha ⟨hr1.trans hr.1.symm, hr2.trans hr.2.symm⟩ ?_ ?_
  · rw [ho, hl]
  · by_cases hid : c.id = id
    · exact .inr hid
    · exact .inl (mem_map.mpr ⟨c, mem_filter.mpr ⟨hc, by simpa using hid⟩, rfl⟩)

/-- Merging into a change that covers the intent adds nothing. -/
theorem enqueueCovered_addsNothing {target : QueueRow}
    (ht : coveringTarget (mergeableChanges allA inc ctx) inc (capacityDeferredGapIds allA) = some target)
    (h : enqueueCovered q allA (mergeableChanges allA inc ctx) target inc
      (capacityDeferredGapIds allA) ctx report = .ok (q', report', id)) : AddsNothing q q' := by
  have hm := mergeableChanges_subset target (mem_of_find?_eq_some ht)
  have hu : isUnleased target.status = true := by
    have := find?_some ht
    simp only [Bool.and_eq_true] at this
    exact this.1.1
  obtain ⟨hr, ha, -, hl⟩ := sameLane_spec hlo hm
  obtain ⟨more, -, he, -⟩ := enqueueCovered_effect hr hu h
  refine he.addsNothing hr ha (coveredIntent_root _ _ _ _) ?_ (.inr rfl)
  have ho : (coveredIntent (mergeableChanges allA inc ctx) target inc (capacityDeferredGapIds allA)).origin = inc.origin := by
    refine (foldl_keeps (·.origin) (fun a (b : QueueRow) => mergeOlderEvidence_origin a b.intent) _ _).trans ?_
    unfold mergeIntoTarget
    split <;> rfl
  rw [ho, hl]

/-- The unresolved changes in some lanes, by the loaded changes. -/
theorem activeIn_length_eq (lanes : LibraryChangeLane → Bool) : (activeIn q inc.rootId inc.rootGeneration lanes).length =
      allA.countP (fun c => lanes c.intent.origin.lane) := by
  rw [loadActiveChanges_eq hlo, countP_filter, countP_eq_length_filter]
  refine congrArg List.length (filter_congr ?_)
  intro r _
  rw [Bool.and_comm]

/-- Inserting takes the absorbed changes off the lane and puts one change on it. -/
theorem enqueueInserted_activeIn_le {abs : List QueueRow} (ha : abs.Sublist (sameLaneChanges allA inc ctx))
    (h : enqueueInserted q allA abs inc ctx report = .ok (q', report', id)) (lanes : LibraryChangeLane → Bool) :
    (inc.countsFor rootId gen lanes = false → (activeIn q' rootId gen lanes).length ≤ (activeIn q rootId gen lanes).length) ∧
    (inc.countsFor rootId gen lanes = true → abs.length + (activeIn q' rootId gen lanes).length ≤
        (activeIn q rootId gen lanes).length + 1) := by
  have hs : ∀ c ∈ abs, _ := fun c hc => sameLane_spec hlo (ha.subset hc)
  obtain ⟨more, -, he, -⟩ := enqueueInserted_effect h
  have hle := he.activeIn_le rootId gen lanes
  have hco : (mergeInserted abs inc).countsFor rootId gen lanes = inc.countsFor rootId gen lanes := by
    obtain ⟨h1, h2⟩ := mergeInserted_root fun c hc => (hs c hc).2.2.1
    rw [countsFor, h1, h2, mergeInserted_origin, countsFor]
  rw [hco] at hle
  refine ⟨fun hno => ?_, fun hy => ?_⟩
  · rw [hno] at hle
    exact hle.trans (length_filter_le _ _)
  · -- the absorbed changes and the ones that are left are different changes of the lane
    rw [if_pos hy] at hle
    simp only [countsFor, Bool.and_eq_true, beq_iff_eq] at hy
    obtain ⟨⟨h1, h2⟩, h3⟩ := hy
    have hn : allA.Nodup := by
      rw [loadActiveChanges_eq hlo]
      exact (List.Nodup.of_map _ q.distinct).filter _
    have hd : (abs ++ (activeIn q rootId gen lanes).filter fun r =>
        !(abs.map (·.id) ++ more).contains r.id && r.id != id).Nodup := by
      refine List.Nodup.append ((ha.trans filter_sublist).nodup hn) ?_ ?_
      · exact (List.Nodup.of_map _ (activeIn_nodup q rootId gen lanes)).filter _
      · intro c hc hlef
        have hnot := (mem_filter.mp hlef).2
        have hin : c.id ∈ abs.map (·.id) := mem_map_of_mem hc
        simp [hin] at hnot
    have hsu : abs ++ (activeIn q rootId gen lanes).filter (fun r =>
        !(abs.map (·.id) ++ more).contains r.id && r.id != id) ⊆ activeIn q rootId gen lanes := by
      intro c hc
      rcases mem_append.mp hc with hc | hc
      · obtain ⟨hro, hac, hr, hla⟩ := hs c hc
        exact mem_activeIn.mpr ⟨hro, hr.1.trans h1, hr.2.trans h2, hac, hla ▸ h3⟩
      · exact (mem_filter.mp hc).1
    have hl := (subperm_of_subset hd hsu).length_le
    rw [length_append] at hl
    omega

/-- Inserting keeps the bounds, because the admission counted it. -/
theorem enqueueInserted_withinCapacity {abs : List QueueRow} (hp : ctx.protectedChangeIds = [])
    (hab : abs.Sublist (sameLaneChanges allA inc ctx))
    (had : admits allA inc ctx abs.length = true) (h : enqueueInserted q allA abs inc ctx report = .ok (q', report', id))
    (hq : WithinCapacity ctx.policy q rootId gen) : WithinCapacity ctx.policy q' rootId gen := by
  by_cases hro : inc.rootId = rootId ∧ inc.rootGeneration = gen
  swap
  · -- another root generation
    refine hq.of_le fun lanes => (enqueueInserted_activeIn_le hlo hab h lanes).1 ?_
    rw [countsFor, Bool.and_eq_false_imp]
    intro hb
    exact absurd (by simpa using hb) hro
  obtain ⟨rfl, rfl⟩ := hro
  have hco (lanes : LibraryChangeLane → Bool) : inc.countsFor inc.rootId inc.rootGeneration lanes =
      lanes inc.origin.lane := by simp [countsFor]
  have hs (lanes : LibraryChangeLane → Bool) := @enqueueInserted_activeIn_le q q' inc ctx allA report report' id
    inc.rootId inc.rootGeneration hlo abs hab h lanes
  simp only [hco] at hs
  have hqu : (allA.filter fun change =>
      change.intent.origin.lane != inc.origin.lane || !ctx.protectedChangeIds.contains change.id) = allA := by
    simp [hp]
  have hla : abs.length ≤ (activeIn q inc.rootId inc.rootGeneration (· == inc.origin.lane)).length := by
    rw [activeIn_length_eq hlo, countP_eq_length_filter]
    refine (hab.trans (monotone_filter_right _ ?_)).length_le
    intro c hc
    simp only [Bool.and_eq_true] at hc
    exact hc.1
  simp only [admits, hqu, activeLaneCounts_eq, Bool.and_eq_true] at had
  have ha := had.1
  have ht := (activeIn_length_eq hlo fun _ => true).trans (countP_lanes allA)
  rw [← activeIn_length_eq hlo (· == .journal), ← activeIn_length_eq hlo (· == .recovery)] at ha ht
  have hal := (hs fun _ => true).2 rfl
  have hj := hs (· == .journal)
  have hr := hs (· == .recovery)
  obtain ⟨-, hbr, hbj⟩ := hq
  cases hi : inc.origin.lane with
  | live =>
    simp only [hi, replacing, laneAdmissionAllows] at ha hla hj hr
    split at ha
    · cases ha
    · have hjo := hj.1 rfl
      have hre := hr.1 rfl
      exact ⟨by omega, by omega, by omega⟩
  | journal =>
    simp only [hi, replacing, laneAdmissionAllows] at ha hla hj hr
    split at ha
    · cases ha
    · have hjo := hj.2 rfl
      have hre := hr.1 rfl
      have hl := of_decide_eq_true ha
      exact ⟨by omega, by omega, by omega⟩
  | recovery =>
    simp only [hi, replacing, laneAdmissionAllows] at ha hla hj hr
    split at ha
    · cases ha
    · have hjo := hj.1 rfl
      have hre := hr.2 rfl
      simp only [Bool.and_eq_true, decide_eq_true_eq] at ha
      exact ⟨by omega, by omega, by omega⟩

end

/-! ## Whole enqueues and whole runs -/

/-- The recovery lane has no more room than the journal lane. -/
theorem recovery_capacity_le (policy : LibraryChangeQueuePolicy) :
    policy.laneCapacity .recovery ≤ policy.laneCapacity .journal := by
  simp only [LibraryChangeQueuePolicy.laneCapacity]
  omega

/-- An empty root generation has room for a change, if the lane has any at all. -/
theorem admits_of_empty (hv : ctx.policy.isValid = true)
    (hl : inc.origin.lane ≠ .live → ctx.policy.laneCapacity inc.origin.lane ≠ 0) : admits [] inc ctx 0 = true := by
  simp only [LibraryChangeQueuePolicy.isValid, Bool.and_eq_true, decide_eq_true_eq] at hv
  have hle := recovery_capacity_le ctx.policy
  cases hi : inc.origin.lane with
  | live => simp [admits, activeLaneCounts, replacing, laneAdmissionAllows, hi]; omega
  | journal =>
    have hr := hl (by simp [hi])
    rw [hi] at hr
    simp [admits, activeLaneCounts, replacing, laneAdmissionAllows, hi]
    omega
  | recovery =>
    have hr := hl (by simp [hi])
    rw [hi] at hr
    simp [admits, activeLaneCounts, replacing, laneAdmissionAllows, hi]
    omega

/-- `enqueue_one` keeps the bounds. -/
theorem enqueueOneFuel_withinCapacity (hv : ctx.policy.isValid = true) (hp : ctx.protectedChangeIds = []) (fuel : Nat)
    (hs : ShapedQueue q) (hq : WithinCapacity ctx.policy q rootId gen)
    (h : enqueueOneFuel fuel inc ctx q report = .ok (q', report', id)) : WithinCapacity ctx.policy q' rootId gen := by
  induction fuel generalizing q q' report report' id with
  | zero => cases h
  | succ fuel ih =>
    obtain ⟨allA, hl, hca⟩ := enqueueBody_cases h
    have hm : mergeableChanges allA inc ctx = sameLaneChanges allA inc ctx := by
      simp [mergeableChanges, hp]
    have hco (hcon : hasConflictingRename ((mergeableChanges allA inc ctx).map (·.intent)) inc = true) :
        sameLaneChanges allA inc ctx ≠ [] := by
      intro hni
      rw [hm, hni] at hcon
      simp [hasConflictingRename] at hcon
    have ho (ham : hasAmbiguousLeasedOverlap (mergeableChanges allA inc ctx) inc
        (capacityDeferredGapIds allA) = true) : sameLaneChanges allA inc ctx ≠ [] := by
      intro hni
      rw [hm, hni] at ham
      simp [hasAmbiguousLeasedOverlap] at ham
    cases hca with
    | owned owner how hsa =>
      obtain rfl : q' = q := hsa
      exact hq
    | conflicting hd hcon =>
      exact hq.of_le (degradeToRoot_addsNothing hl hs (fun c hc => hc) (hco hcon) hd _ _)
    | ambiguous hd ham =>
      exact hq.of_le (degradeToRoot_addsNothing hl hs (fun c hc => hc) (ho ham) hd _ _)
    | again middle hd hpr hag ham =>
      have hmi := hq.of_le (degradeToRoot_addsNothing hl hs (fun c hc => hc) (ho ham) hd _ _)
      exact ih (degradeToRoot_conserves hs hl sameLaneChanges_subset hd).2 hmi hag
    | covered target how hcon ham ht hr =>
      exact hq.of_le (enqueueCovered_addsNothing hl ht hr _ _)
    | inserted how hcon ham ht hr ha =>
      refine enqueueInserted_withinCapacity hl hp ?_ ha hr hq
      rw [hm]
      exact filter_sublist
    | full hd ha hn hla =>
      refine hq.of_le (degradeToRoot_addsNothing hl hs mergeableChanges_subset ?_ hd _ _)
      intro hni
      -- nothing would be widened: then nothing is unresolved, and there was room
      rw [hni] at hn ha
      have he : allA = [] := by
        refine eq_nil_of_length_eq_zero ?_
        simp only [protectedCount, length_nil] at hn
        omega
      rw [he] at ha
      simp [absorbedByIncoming, admits_of_empty hv hla] at ha

end

/-- Every step keeps the bounds and the shapes. -/
theorem LifecycleStep.withinCapacity {policy : LibraryChangeQueuePolicy} (hv : policy.isValid = true) {q q' : ChangeQueue}
    {action : LifecycleAction} (h : LifecycleStep policy q action q') {rootId : String} {gen : LibraryRootGeneration}
    (hq : ShapedQueue q ∧ WithinCapacity policy q rootId gen) : ShapedQueue q' ∧ WithinCapacity policy q' rootId gen := by
  obtain ⟨hsh, hq⟩ := hq
  cases h with
  | queue hst hp =>
    refine ⟨hst.shapedQueue hsh, ?_⟩
    cases hst with
    | enqueue hb he =>
      simp only [QueueAction.follows, Bool.and_eq_true, decide_eq_true_eq, List.isEmpty_iff] at hp
      obtain ⟨rfl, hpr⟩ := hp
      exact enqueueOneFuel_withinCapacity hv hpr 2 hsh hq he
    | lease ids =>
      refine hq.of_le (addsNothing_modify (fun r => ?_) _ _)
      unfold leasedRow
      split
      · next hr =>
        cases hs : r.status <;> simp_all [isUnleased, LibraryChangeQueueStatus.isActive]
      · exact ⟨rfl, fun ha => ha⟩
    | retry id code =>
      refine hq.of_le (addsNothing_modify (fun r => ?_) _ _)
      unfold retriedRow
      split
      · next hr => exact ⟨rfl, fun _ => by rw [hr.2]; rfl⟩
      · exact ⟨rfl, fun ha => ha⟩
    | defer ids =>
      refine hq.of_le (addsNothing_modify (fun r => ?_) _ _)
      unfold deferredRow
      split
      · next hr =>
        simp only [Bool.and_eq_true, beq_iff_eq] at hr
        exact ⟨rfl, fun _ => by rw [hr.2]; rfl⟩
      · exact ⟨rfl, fun ha => ha⟩
  | complete ids =>
    have hr (r : QueueRow) : (completedRow ids r).intent = r.intent ∧
        ((completedRow ids r).status.isActive = true → r.status.isActive = true) := by
      unfold completedRow
      split
      · exact ⟨rfl, fun ha => by cases ha⟩
      · exact ⟨rfl, fun ha => ha⟩
    exact ⟨shapedQueue_modify hsh fun r => (hr r).1, hq.of_le (addsNothing_modify hr _ _)⟩
  | supersede ids successor =>
    have hr (r : QueueRow) : (retiredRow ids successor r).intent = r.intent ∧
        ((retiredRow ids successor r).status.isActive = true → r.status.isActive = true) := by
      unfold retiredRow
      split
      · exact ⟨rfl, fun ha => by cases ha⟩
      · exact ⟨rfl, fun ha => ha⟩
    exact ⟨shapedQueue_modify hsh fun r => (hr r).1, hq.of_le (addsNothing_modify hr _ _)⟩

/-- Along every run from the empty queue, under a valid policy and without protected changes, the unresolved changes of every
root generation stay within the bounds of the policy. -/
theorem capacity_along_runs {policy : LibraryChangeQueuePolicy} (hvalid : policy.isValid = true) {actions : List LifecycleAction}
    {q : ChangeQueue} (h : Run (LifecycleStep policy) ChangeQueue.empty actions q) (rootId : String)
    (rootGeneration : LibraryRootGeneration) : WithinCapacity policy q rootId rootGeneration := by
  have hi := h.state_invariant (I := fun q => ShapedQueue q ∧ WithinCapacity policy q rootId rootGeneration) ?_
    fun q action q' hq hs => hs.withinCapacity hvalid hq
  · exact hi.2
  · exact ⟨ReachableQueue.empty.shapedQueue, Nat.zero_le _, Nat.zero_le _, Nat.zero_le _⟩

/-- An insert, a lease, a completion and another insert, whose change is unresolved at the end. -/
theorem capacity_along_runs_completed : ∃ q, Run (LifecycleStep ⟨2⟩) ChangeQueue.empty
      [.queue (.enqueue (sampleIntent .reconcile .path "a" none 1) ⟨⟨2⟩, none, [], true⟩), .queue (.lease [1]), .complete [1],
        .queue (.enqueue (sampleIntent .reconcile .path "b" none 2) ⟨⟨2⟩, none, [], true⟩)] q ∧
    q.rows.map (·.status) = [.completed, .pending] ∧ WithinCapacity ⟨2⟩ q "root" .initial := by
  have hok : ∃ q report id q' report' id', enqueueOne (sampleIntent .reconcile .path "a" none 1) ⟨⟨2⟩, none, [], true⟩
      ChangeQueue.empty {} = .ok (q, report, id) ∧ enqueueOne (sampleIntent .reconcile .path "b" none 2) ⟨⟨2⟩, none, [], true⟩
      (completeChanges (leaseChanges q [1]) [1]) {} = .ok (q', report', id') ∧
        q'.rows.map (·.status) = [.completed, .pending] := ⟨_, _, _, _, _, _, rfl, rfl, rfl⟩
  obtain ⟨q, report, id, q', report', id', he, he', hs⟩ := hok
  have hr : Run (LifecycleStep ⟨2⟩) _ _ q' := (((Run.nil.snoc (.queue (.enqueue (by decide) he) rfl)).snoc
    (.queue (.lease q [1]) rfl)).snoc (.complete _ [1])).snoc (.queue (.enqueue (by decide) he') rfl)
  exact ⟨_, hr, hs, capacity_along_runs (by decide) hr "root" .initial⟩

end Ame
