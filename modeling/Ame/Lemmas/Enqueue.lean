import Ame.Lemmas.Coverage
import Ame.Lemmas.Store
import Ame.Queue.Enqueue

/-!
# The branches of `enqueue_one`, as effects

For each branch: which change it writes, with which intent, and which changes it supersedes.
-/

namespace Ame

open List Iter Result

variable {q q' : ChangeQueue} {inc : LibraryChangeIntent} {ctx : EnqueueContext}
  {report report' : LibraryChangeEnqueueReport} {id : LibraryChangeId} {allA active : List QueueRow}
  {gapIds : List LibraryChangeId}

/-- The intent a degradation writes is a valid intent over the incoming intent's root. -/
theorem rootIntent_spec (hsh : ∀ c ∈ active, Shaped c.intent) (inc : LibraryChangeIntent) :
    Shaped (rootIntent active inc) ∧ (rootIntent active inc).scope = .root ∧ (rootIntent active inc).rootId = inc.rootId ∧
      (rootIntent active inc).rootGeneration = inc.rootGeneration ∧
      (rootIntent active inc).origin = inc.origin := by
  have hm := (MergedFrom.refl (shaped_widenToRoot inc)).foldl (f := fun root change =>
    mergeOlderEvidence root change.intent) (g := fun c : QueueRow => c.intent) active
    (fun m c hc hm => Or.inr (mergeOlderEvidence_mergesFrom hm (hsh c hc)))
  refine ⟨hm.shaped, hm.scope, ?_, ?_, ?_⟩
  · exact foldl_keeps (·.rootId) (fun a b => mergeOlderEvidence_rootId a b.intent) active _
  · exact foldl_keeps (·.rootGeneration) (fun a b => mergeOlderEvidence_rootGeneration a b.intent) active _
  · exact foldl_keeps (·.origin) (fun a b => mergeOlderEvidence_origin a b.intent) active _

/-- `degrade_to_root` writes a change over the whole root and supersedes the rest of the list it is given. -/
theorem degradeToRoot_effect {evid : Option LibraryChangeCatchUpEvidence} {flag : Bool} (hm : ∀ c ∈ active, c ∈ q.rows)
    (hro : ∀ c ∈ active, c.intent.rootId = inc.rootId ∧ c.intent.rootGeneration = inc.rootGeneration)
    (hsh : ∀ c ∈ active, Shaped c.intent) (h : degradeToRoot q active inc report evid flag = .ok (q', report', id)) :
    (id ∈ active.map (·.id) ∨ id = q.nextId) ∧
      Effect q q' ((active.filter fun change => change.id != id).map (·.id)) id (rootIntent active inc) := by
  obtain ⟨⟨q1, rep1, id1⟩, h1, h⟩ := bind_ok h
  obtain ⟨q2, h2, h⟩ := bind_ok h
  obtain ⟨rfl, -, rfl⟩ : (markSuperseded q2 ((active.filter fun change => change.id != id1).map (·.id)) id1).1 = q' ∧
      _ ∧ id1 = id := by simpa [pure, Except.pure] using h
  have hsu : ∀ x ∈ active.map (·.id), x ≠ id1 → x ∈ (active.filter fun change => change.id != id1).map (·.id) := by
    intro x hx hne
    obtain ⟨c, hc, rfl⟩ := mem_map.mp hx
    exact mem_map.mpr ⟨c, mem_filter.mpr ⟨hc, by simpa using hne⟩, rfl⟩
  have hs := rootIntent_spec hsh inc
  suffices ht : (id1 ∈ active.map (·.id) ∨ id1 = q.nextId) ∧ TargetOnly q q1 id1 (rootIntent active inc) from
    ⟨ht.1, ht.2.supersede h2 hsu⟩
  unfold writeRoot at h1
  split at h1
  · rename_i existing hf
    obtain ⟨q0, h0, h1⟩ := bind_ok h1
    obtain ⟨rfl, -, rfl⟩ : q0 = q1 ∧ _ ∧ existing.id = id1 := by simpa [pure, Except.pure] using h1
    have hex := mem_of_find?_eq_some hf
    have hp := find?_some hf
    simp only [Bool.and_eq_true] at hp
    have hr := hro existing hex
    exact ⟨Or.inl (mem_map_of_mem hex), updateChange_targetOnly (hm existing hex) hp.1.1
      ⟨hs.2.2.1.trans hr.1.symm, hs.2.2.2.1.trans hr.2.symm⟩ h0⟩
  · obtain ⟨⟨q0, id0⟩, h0, h1⟩ := bind_ok h1
    obtain ⟨rfl, -, rfl⟩ : q0 = q1 ∧ _ ∧ id0 = id1 := by simpa [pure, Except.pure] using h1
    obtain ⟨hid, ht⟩ := insertChange_targetOnly h0
    exact ⟨Or.inr hid, ht⟩

/-- Superseding the recovery changes of exactly the target's path. -/
theorem Effect.supersedeRecovery {q1 : ChangeQueue} {ids : List LibraryChangeId} {tid : LibraryChangeId}
    {m : LibraryChangeIntent} (h : Effect q q1 ids tid m) (allA : List QueueRow) (lane : LibraryChangeLane)
    (report : LibraryChangeEnqueueReport) :
    ∃ more, Effect q (supersedeRecoveryCandidatesCoveredByHigherLane q1 allA lane tid m report).1 (ids ++ more) tid m ∧
      ∀ x ∈ more, ∃ c ∈ allA, c.id = x ∧ lane ≠ .recovery ∧ c.intent.origin.lane = .recovery ∧
        exactPathWorkIdentity c.intent m = true := by
  unfold supersedeRecoveryCandidatesCoveredByHigherLane
  split
  · exact ⟨[], by simpa using h, by simp⟩
  · rename_i hla
    refine ⟨_, h.supersede _, ?_⟩
    intro x hx
    obtain ⟨c, hc, rfl⟩ := mem_map.mp hx
    obtain ⟨hc, hp⟩ := mem_filter.mp hc
    simp only [Bool.and_eq_true, beq_iff_eq] at hp
    exact ⟨c, hc, rfl, fun hl => hla (Or.inl hl), hp.1, hp.2⟩

/-- The intent the covering branch writes. -/
def coveredIntent (active : List QueueRow) (target : QueueRow) (incoming : LibraryChangeIntent)
    (gapIds : List LibraryChangeId) : LibraryChangeIntent :=
  (absorbedByTarget active target incoming gapIds).foldl (fun merged change => mergeOlderEvidence merged change.intent)
    (mergeIntoTarget target incoming)

/-- The covering branch leaves its target in its root. -/
theorem coveredIntent_root (active : List QueueRow) (target : QueueRow) (inc : LibraryChangeIntent)
    (gapIds : List LibraryChangeId) :
    (coveredIntent active target inc gapIds).rootId = target.intent.rootId ∧
      (coveredIntent active target inc gapIds).rootGeneration = target.intent.rootGeneration := by
  have h0 : (mergeIntoTarget target inc).rootId = target.intent.rootId ∧
      (mergeIntoTarget target inc).rootGeneration = target.intent.rootGeneration := by
    unfold mergeIntoTarget
    split <;> exact ⟨mergeNewerEvidence_rootId _ _, mergeNewerEvidence_rootGeneration _ _⟩
  exact ⟨(foldl_keeps (·.rootId) (fun a (b : QueueRow) => mergeOlderEvidence_rootId a b.intent) _ _).trans h0.1,
    (foldl_keeps (·.rootGeneration) (fun a (b : QueueRow) => mergeOlderEvidence_rootGeneration a b.intent) _ _).trans h0.2⟩

/-- The covering branch writes the target and supersedes what it absorbs, and the recovery changes of the target's path. -/
theorem enqueueCovered_effect {target : QueueRow} (ht : target ∈ q.rows) (hu : isUnleased target.status = true)
    (h : enqueueCovered q allA active target inc gapIds ctx report = .ok (q', report', id)) :
    ∃ more, id = target.id ∧ Effect q q' ((absorbedByTarget active target inc gapIds).map (·.id) ++ more) target.id
        (coveredIntent active target inc gapIds) ∧
      ∀ x ∈ more, ∃ c ∈ allA, c.id = x ∧ inc.origin.lane ≠ .recovery ∧ c.intent.origin.lane = .recovery ∧
        exactPathWorkIdentity c.intent (coveredIntent active target inc gapIds) = true := by
  obtain ⟨q1, h1, h⟩ := bind_ok h
  obtain ⟨q2, h2, h⟩ := bind_ok h
  have he := (updateChange_targetOnly ht hu (coveredIntent_root active target inc gapIds) h1).supersede h2 (fun x hx _ => hx)
  obtain ⟨rfl, -, rfl⟩ : (supersedeRecoveryCandidatesCoveredByHigherLane _ allA _ _ _ _).1 = q' ∧ _ ∧
      target.id = id := by simpa [pure, Except.pure] using h
  obtain ⟨more, hm, hx⟩ := he.supersedeRecovery allA inc.origin.lane _
  exact ⟨more, rfl, hm, hx⟩

/-- The inserting branch adds a change and supersedes what it absorbs, and the recovery changes of the change's path. -/
theorem enqueueInserted_effect {abs : List QueueRow} (h : enqueueInserted q allA abs inc ctx report = .ok (q', report', id)) :
    ∃ more, id = q.nextId ∧ Effect q q' (abs.map (·.id) ++ more) id (mergeInserted abs inc) ∧
      ∀ x ∈ more, ∃ c ∈ allA, c.id = x ∧ inc.origin.lane ≠ .recovery ∧ c.intent.origin.lane = .recovery ∧
        exactPathWorkIdentity c.intent (mergeInserted abs inc) = true := by
  obtain ⟨⟨q1, id1⟩, h1, h⟩ := bind_ok h
  obtain ⟨q2, h2, h⟩ := bind_ok h
  obtain ⟨hid, ht⟩ := insertChange_targetOnly h1
  have he := ht.supersede h2 (fun x hx _ => hx)
  obtain ⟨rfl, -, rfl⟩ : (supersedeRecoveryCandidatesCoveredByHigherLane _ allA _ _ _ _).1 = q' ∧ _ ∧ id1 = id := by
    simpa [pure, Except.pure] using h
  obtain ⟨more, hm, hx⟩ := he.supersedeRecovery allA inc.origin.lane _
  exact ⟨more, hid, hm, hx⟩

/-! ## The body -/

/-- How `enqueue_one` succeeds. -/
inductive EnqueueCase (again : ChangeQueue → LibraryChangeEnqueueReport → EnqueueResult) (incoming : LibraryChangeIntent)
    (ctx : EnqueueContext) (q : ChangeQueue) (report : LibraryChangeEnqueueReport) (allActive : List QueueRow)
    (result : ChangeQueue × LibraryChangeEnqueueReport × LibraryChangeId) : Prop where
  /-- A lane of higher priority owns exactly this path. -/
  | owned (owner : QueueRow) (howner : higherPriorityOwner allActive incoming = some owner) (hq : result.1 = q)
  /-- A rename conflicts: the lane becomes the root. -/
  | conflicting
      (hdegrade : degradeToRoot q (sameLaneChanges allActive incoming ctx) incoming report ctx.evidence false = .ok result)
      (hconf : hasConflictingRename ((mergeableChanges allActive incoming ctx).map (·.intent)) incoming = true)
  /-- A leased change overlaps ambiguously: the lane becomes the root. -/
  | ambiguous (hdegrade : degradeToRoot q (sameLaneChanges allActive incoming ctx) incoming report ctx.evidence false =
      .ok result)
      (hamb : hasAmbiguousLeasedOverlap (mergeableChanges allActive incoming ctx) incoming
        (capacityDeferredGapIds allActive) = true)
  /-- The same, and a precise intent is enqueued next to the root. -/
  | again (middle : ChangeQueue × LibraryChangeEnqueueReport × LibraryChangeId)
      (hdegrade : degradeToRoot q (sameLaneChanges allActive incoming ctx) incoming report ctx.evidence false = .ok middle)
      (hprecise : isPreciseDirtyReconcile incoming = true) (hagain : again middle.1 middle.2.1 = .ok result)
      (hamb : hasAmbiguousLeasedOverlap (mergeableChanges allActive incoming ctx) incoming
        (capacityDeferredGapIds allActive) = true)
  /-- An unleased change covers the intent. -/
  | covered (target : QueueRow) (howner : higherPriorityOwner allActive incoming = none)
      (hconf : hasConflictingRename ((mergeableChanges allActive incoming ctx).map (·.intent)) incoming = false)
      (hamb : hasAmbiguousLeasedOverlap (mergeableChanges allActive incoming ctx) incoming
        (capacityDeferredGapIds allActive) = false)
      (htarget : coveringTarget (mergeableChanges allActive incoming ctx) incoming (capacityDeferredGapIds allActive) =
        some target)
      (hrun : enqueueCovered q allActive (mergeableChanges allActive incoming ctx) target incoming
        (capacityDeferredGapIds allActive) ctx report = .ok result)
  /-- The intent is inserted. -/
  | inserted (howner : higherPriorityOwner allActive incoming = none)
      (hconf : hasConflictingRename ((mergeableChanges allActive incoming ctx).map (·.intent)) incoming = false)
      (hamb : hasAmbiguousLeasedOverlap (mergeableChanges allActive incoming ctx) incoming
        (capacityDeferredGapIds allActive) = false)
      (htarget : coveringTarget (mergeableChanges allActive incoming ctx) incoming (capacityDeferredGapIds allActive) = none)
      (hrun : enqueueInserted q allActive (absorbedByIncoming (mergeableChanges allActive incoming ctx) incoming
        (capacityDeferredGapIds allActive)) incoming ctx report = .ok result)
      (hadmits : admits allActive incoming ctx (absorbedByIncoming (mergeableChanges allActive incoming ctx) incoming
        (capacityDeferredGapIds allActive)).length = true)
  /-- There is no room: the mergeable changes become the root. -/
  | full (hdegrade : degradeToRoot q (mergeableChanges allActive incoming ctx) incoming report ctx.evidence true = .ok result)
      (hadmits : admits allActive incoming ctx (absorbedByIncoming (mergeableChanges allActive incoming ctx) incoming
        (capacityDeferredGapIds allActive)).length = false)
      (hprotected : protectedCount allActive (mergeableChanges allActive incoming ctx) (capacityDeferredGapIds allActive) ctx = 0)
      (hlane : incoming.origin.lane ≠ .live → ctx.policy.laneCapacity incoming.origin.lane ≠ 0)
      (htarget : coveringTarget (mergeableChanges allActive incoming ctx) incoming (capacityDeferredGapIds allActive) = none)

/-- Every success of the body is one of the cases. -/
theorem enqueueBody_cases {again : ChangeQueue → LibraryChangeEnqueueReport → EnqueueResult}
    {res : ChangeQueue × LibraryChangeEnqueueReport × LibraryChangeId} (h : enqueueBody again inc ctx q report = .ok res) :
    ∃ allA, loadActiveChanges q inc.rootId inc.rootGeneration = .ok allA ∧ EnqueueCase again inc ctx q report allA res := by
  obtain ⟨allA, hlo, h⟩ := bind_ok h
  refine ⟨allA, hlo, ?_⟩
  simp only at h
  split at h
  · cases h
  rename_i hca
  simp only [bind, Except.bind, pure, Except.pure] at h
  split at h
  · rename_i owner ho
    exact .owned owner ho (by rw [← Except.ok.inj h])
  rename_i ho
  split at h
  · split at h
    · rename_i hc _
      exact .conflicting h hc
    · cases h
  rename_i hc
  rw [Bool.not_eq_true] at hc
  split at h
  · rename_i ham
    split at h
    · cases hd : degradeToRoot q (sameLaneChanges allA inc ctx) inc report ctx.evidence false with
      | error e => simp [hd] at h
      | ok middle =>
        simp only [hd] at h
        split at h
        · rename_i hpr
          exact .again middle hd hpr h ham
        · exact .ambiguous (hd.trans h) ham
    · cases h
  rename_i ham
  rw [Bool.not_eq_true] at ham
  split at h
  · rename_i target ht
    exact .covered target ho hc ham ht h
  · rename_i ht
    split at h
    · rename_i ha
      exact .inserted ho hc ham ht h ha
    · rename_i ha
      split at h
      · cases h
      · rename_i hp
        split at h
        · exact .full h (Bool.eq_false_iff.mpr ha) (Nat.eq_zero_of_not_pos hp) (fun hl hz => hca ⟨hl, hz⟩) ht
        · cases h

/-- The body calls itself only after it has widened the lane because of an ambiguous overlap. -/
theorem enqueueBody_congr {again again' : ChangeQueue → LibraryChangeEnqueueReport → EnqueueResult}
    (h : ∀ allA middle, loadActiveChanges q inc.rootId inc.rootGeneration = .ok allA →
      hasAmbiguousLeasedOverlap (mergeableChanges allA inc ctx) inc (capacityDeferredGapIds allA) = true →
      degradeToRoot q (sameLaneChanges allA inc ctx) inc report ctx.evidence false = .ok middle →
      isPreciseDirtyReconcile inc = true → again middle.1 middle.2.1 = again' middle.1 middle.2.1) :
    enqueueBody again inc ctx q report = enqueueBody again' inc ctx q report := by
  unfold enqueueBody
  cases hl : loadActiveChanges q inc.rootId inc.rootGeneration with
  | error e => rfl
  | ok allA =>
    cases ha : hasAmbiguousLeasedOverlap (mergeableChanges allA inc ctx) inc (capacityDeferredGapIds allA) with
    | false => simp [bind, Except.bind, ha]
    | true =>
      cases hd : degradeToRoot q (sameLaneChanges allA inc ctx) inc report ctx.evidence false with
      | error e => simp [bind, Except.bind, ha, hd]
      | ok middle =>
        cases hp : isPreciseDirtyReconcile inc with
        | false => simp [bind, Except.bind, ha, hd]
        | true => simp [bind, Except.bind, ha, hd, h allA middle hl ha hd hp]

end Ame
