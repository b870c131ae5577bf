import Ame.Lemmas.Enqueue
import Ame.Lemmas.Normalize

/-!
# What the queue keeps when an intent is enqueued

A path is dirty while an active change denotes it (`Dirty`). An enqueue conserves the queue's work when every path that was
dirty, and every path the incoming intent denotes, is dirty after it (`Conserves`). The proof goes branch by branch, over the
effects of `Ame.Lemmas.Enqueue`: whatever a branch supersedes has to be denoted by the change it writes. Widening to the root
denotes everything. In the other branches this can fail in one way: the branch supersedes a leased change because it covers the
incoming intent, and keeps a narrower one (`TakesOverWhole`). Then a path that only such leased changes denote is lost.
-/

namespace Ame

open List Iter

/-- A path that an active change of a root generation denotes. -/
def Dirty (q : ChangeQueue) (rootId : String) (rootGeneration : LibraryRootGeneration) (path : String) : Prop :=
  ∃ r ∈ q.rows, r.status.isActive = true ∧ r.intent.rootId = rootId ∧ r.intent.rootGeneration = rootGeneration ∧
    r.intent.denote path

/-- No work is lost from `q` to `q'` when `incoming` is enqueued. -/
def Conserves (q : ChangeQueue) (incoming : LibraryChangeIntent) (q' : ChangeQueue) : Prop :=
  ∀ rootId rootGeneration path, Dirty q rootId rootGeneration path ∨
      incoming.rootId = rootId ∧ incoming.rootGeneration = rootGeneration ∧ incoming.denote path →
    Dirty q' rootId rootGeneration path

/-- Every stored intent has a valid shape. -/
def ShapedQueue (q : ChangeQueue) : Prop := ∀ r ∈ q.rows, Shaped r.intent

/-! ## Effects and work -/

variable {q q' : ChangeQueue} {inc m : LibraryChangeIntent} {ids : List LibraryChangeId} {id tid : LibraryChangeId}
  {ctx : EnqueueContext} {allA active : List QueueRow} {c target : QueueRow} {p : String}
  {report report' : LibraryChangeEnqueueReport}

/-- An effect conserves the work if the change it writes denotes the incoming intent and everything that is superseded or
overwritten. -/
theorem Effect.conserves (h : Effect q q' ids tid m) (hro : m.rootId = inc.rootId ∧ m.rootGeneration = inc.rootGeneration)
    (hin : ∀ p, inc.denote p → m.denote p) (hgo : ∀ r ∈ q.rows, r.status.isActive = true → r.id ∈ ids ∨ r.id = tid →
      r.intent.rootId = inc.rootId ∧ r.intent.rootGeneration = inc.rootGeneration ∧
        ∀ p, r.intent.denote p → m.denote p) : Conserves q inc q' := by
  intro rootId gen p hp
  obtain ⟨t, ht, _, htm, hts⟩ := h.target
  have owned : inc.rootId = rootId → inc.rootGeneration = gen → m.denote p → Dirty q' rootId gen p := by
    intro h1 h2 h3
    exact ⟨t, ht, by rw [hts]; rfl, by rw [htm, hro.1, h1], by rw [htm, hro.2, h2], by rw [htm]; exact h3⟩
  rcases hp with ⟨r, hr, ha, h1, h2, h3⟩ | ⟨h1, h2, h3⟩
  · by_cases hg : r.id ∈ ids ∨ r.id = tid
    · obtain ⟨g1, g2, g3⟩ := hgo r hr ha hg
      exact owned (g1.symm.trans h1) (g2.symm.trans h2) (g3 p h3)
    · obtain ⟨hn, hne⟩ := not_or.mp hg
      obtain ⟨r', hr', hs⟩ := h.forward r hr hne
      have hst : r'.status = r.status := hs.status.resolve_right (fun hx => hn hx.1)
      exact ⟨r', hr', by rw [hst]; exact ha, by rw [hs.intent]; exact h1, by rw [hs.intent]; exact h2,
        by rw [hs.intent]; exact h3⟩
  · exact owned h1 h2 (hin p h3)

/-- An effect loses a path that the change it writes does not denote, if it supersedes every change that does. -/
theorem Effect.not_dirty {rootId : String} {gen : LibraryRootGeneration} (h : Effect q q' ids tid m) (hm : ¬m.denote p)
    (hgo : ∀ r ∈ q.rows, r.status.isActive = true → r.intent.rootId = rootId → r.intent.rootGeneration = gen →
      r.intent.denote p → r.id ∈ ids) : ¬Dirty q' rootId gen p := by
  rintro ⟨r', hr', ha, h1, h2, h3⟩
  by_cases hid : r'.id = tid
  · obtain ⟨t, ht, hti, htm, -⟩ := h.target
    rw [q'.eq_of_id hr' ht (hid.trans hti.symm), htm] at h3
    exact hm h3
  · obtain ⟨r, hr, hs⟩ := h.backward r' hr' hid
    have hn : r.id ∉ ids := fun hin => by
      rw [hs.gone hin] at ha
      cases ha
    have hst := hs.status.resolve_right fun hx => hn hx.1
    rw [hs.intent] at h1 h2 h3
    exact hn (hgo r hr (hst ▸ ha) h1 h2 h3)

/-- An effect keeps the shapes valid if the change it writes has a valid shape. -/
theorem Effect.shapedQueue (h : Effect q q' ids tid m) (hq : ShapedQueue q) (hm : Shaped m) : ShapedQueue q' := by
  intro r' hr'
  by_cases hid : r'.id = tid
  · obtain ⟨t, ht, hti, htm, _⟩ := h.target
    rw [q'.eq_of_id hr' ht (hid.trans hti.symm), htm]
    exact hm
  · obtain ⟨r, hr, hs⟩ := h.backward r' hr' hid
    rw [hs.intent]
    exact hq r hr

section

variable {rootId : String} {gen : LibraryRootGeneration} (h : loadActiveChanges q rootId gen = .ok allA)

include h

/-- The loaded changes are the active rows of the root generation. -/
theorem loadActiveChanges_eq : allA = q.rows.filter fun r =>
    r.intent.rootId == rootId && r.intent.rootGeneration == gen && r.status.isActive := by
  unfold loadActiveChanges at h
  simp only at h
  split at h
  · cases h
  · exact (Except.ok.inj h).symm

theorem mem_of_loadActiveChanges (r : QueueRow) :
    r ∈ allA ↔ r ∈ q.rows ∧ r.intent.rootId = rootId ∧ r.intent.rootGeneration = gen ∧ r.status.isActive = true := by
  simp [loadActiveChanges_eq h, and_assoc]

end

/-- Changes of the lane are loaded changes. -/
theorem sameLaneChanges_subset : ∀ c ∈ sameLaneChanges allA inc ctx, c ∈ allA :=
  fun _ hc => (mem_filter.mp hc).1

/-- Mergeable changes are changes of the lane. -/
theorem mergeableChanges_subset : ∀ c ∈ mergeableChanges allA inc ctx, c ∈ sameLaneChanges allA inc ctx :=
  fun _ hc => (mem_filter.mp hc).1

/-- So they are loaded changes. -/
theorem mergeable_active : ∀ c ∈ mergeableChanges allA inc ctx, c ∈ allA :=
  fun c hc => sameLaneChanges_subset c (mergeableChanges_subset c hc)

/-! ## What the branches write -/

/-- The first merge of the covering branch. -/
theorem mergeIntoTarget_mergedFrom (ht : Shaped target.intent) (hi : Shaped inc) (hc : intentCovers target.intent inc = true) :
    MergedFrom target.intent [inc] (mergeIntoTarget target inc) := by
  have hm := (MergedFrom.refl ht).snoc (mergeNewerEvidence_mergesFrom ht hi)
  unfold mergeIntoTarget
  split
  · rename_i hk
    exact hm.unknown (scope_of_covers_root ht hi (hi.unknownRoot hk) hc)
  · exact hm

/-- The covering branch writes the work of its target. -/
theorem coveredIntent_mergedFrom (gapIds : List LibraryChangeId) (hsh : ∀ c ∈ active, Shaped c.intent) (ht : Shaped target.intent)
    (hi : Shaped inc)
    (hco : intentCovers target.intent inc = true) :
    MergedFrom (mergeIntoTarget target inc) ((absorbedByTarget active target inc gapIds).map (·.intent))
      (coveredIntent active target inc gapIds) := by
  have hf := (MergedFrom.refl (mergeIntoTarget_mergedFrom ht hi hco).shaped).foldl (f := fun merged change =>
    mergeOlderEvidence merged change.intent) (g := fun c : QueueRow => c.intent)
    (absorbedByTarget active target inc gapIds)
    (fun m c hc hm => Or.inr (mergeOlderEvidence_mergesFrom hm (hsh c (mem_filter.mp hc).1)))
  simpa [coveredIntent] using hf

/-- The inserting branch writes the work of the strongest change that covers the incoming intent, or else its own. -/
theorem mergeInserted_mergedFrom {abs : List QueueRow} (hsh : ∀ c ∈ abs, Shaped c.intent) (hi : Shaped inc) :
    MergedFrom (((strongestCovering abs inc).map (·.intent)).getD inc) (inc :: abs.map (·.intent)) (mergeInserted abs inc) := by
  have hr : ∀ (s : Option QueueRow) (m : LibraryChangeIntent) (c : QueueRow), c ∈ abs → Shaped m →
      (if s.any (fun s => s.id == c.id) then m else mergeOlderEvidence m c.intent) = m ∨
        MergesFrom m c.intent (if s.any (fun s => s.id == c.id) then m else mergeOlderEvidence m c.intent) := by
    intro s m c hc hm
    split
    · exact Or.inl rfl
    · exact Or.inr (mergeOlderEvidence_mergesFrom hm (hsh c hc))
  unfold mergeInserted
  cases hs : strongestCovering abs inc with
  | none =>
    have hf := (MergedFrom.refl hi).foldl (g := fun c : QueueRow => c.intent) abs (hr none)
    exact hf.mono (subset_cons_self _ _)
  | some s =>
    have hmem := (mem_filter.mp (maxByKey_mem hs)).1
    have hf := (MergedFrom.refl (hsh s hmem)).snoc (mergeNewerEvidence_mergesFrom (hsh s hmem) hi)
    exact hf.foldl (g := fun c : QueueRow => c.intent) abs (hr (some s))

/-- The inserted intent stays in the root of the incoming one. -/
theorem mergeInserted_root {abs : List QueueRow} (hr : ∀ c ∈ abs,
    c.intent.rootId = inc.rootId ∧ c.intent.rootGeneration = inc.rootGeneration) :
    (mergeInserted abs inc).rootId = inc.rootId ∧ (mergeInserted abs inc).rootGeneration = inc.rootGeneration := by
  have hf : ∀ (s : Option QueueRow) (m : LibraryChangeIntent),
      (abs.foldl (fun merged change => if s.any (fun s => s.id == change.id) then merged
        else mergeOlderEvidence merged change.intent) m).rootId = m.rootId ∧
      (abs.foldl (fun merged change => if s.any (fun s => s.id == change.id) then merged
        else mergeOlderEvidence merged change.intent) m).rootGeneration = m.rootGeneration := by
    intro s m
    constructor
    · refine foldl_keeps (·.rootId) (fun a b => ?_) abs m
      split <;> simp
    · refine foldl_keeps (·.rootGeneration) (fun a b => ?_) abs m
      split <;> simp
  unfold mergeInserted
  cases hs : strongestCovering abs inc with
  | none => exact hf none inc
  | some s =>
    obtain ⟨h1, h2⟩ := hr s (mem_filter.mp (maxByKey_mem hs)).1
    obtain ⟨h3, h4⟩ := hf (some s) (mergeNewerEvidence s.intent inc)
    exact ⟨h3.trans ((mergeNewerEvidence_rootId _ _).trans h1), h4.trans ((mergeNewerEvidence_rootGeneration _ _).trans h2)⟩

/-! ## When nothing is lost -/

/-- The change whose work is kept if one covers the incoming intent: the unleased change it is merged into, or the strongest of
the leased ones. -/
def keptChange (allActive : List QueueRow) (incoming : LibraryChangeIntent) (ctx : EnqueueContext) : Option QueueRow :=
  let active := mergeableChanges allActive incoming ctx
  let gapIds := capacityDeferredGapIds allActive
  (coveringTarget active incoming gapIds).or (strongestCovering (absorbedByIncoming active incoming gapIds) incoming)

section

variable (allActive : List QueueRow) (incoming : LibraryChangeIntent) (ctx : EnqueueContext)

/-- The incoming intent is merged or inserted: no other lane owns it, nothing widens it to the root beforehand, and its lane has
room for it if no unleased change covers it. -/
structure Merges : Prop where
  noOwner : higherPriorityOwner allActive incoming = none
  noConflict : hasConflictingRename ((mergeableChanges allActive incoming ctx).map (·.intent)) incoming = false
  noAmbiguity : hasAmbiguousLeasedOverlap (mergeableChanges allActive incoming ctx) incoming
    (capacityDeferredGapIds allActive) = false
  admitted : coveringTarget (mergeableChanges allActive incoming ctx) incoming (capacityDeferredGapIds allActive) ≠ none ∨
    admits allActive incoming ctx (absorbedByIncoming (mergeableChanges allActive incoming ctx) incoming
      (capacityDeferredGapIds allActive)).length = true

/-- A leased change that is superseded because it covers the incoming intent. -/
structure IsReplaced (c : QueueRow) : Prop where
  mergeable : c ∈ mergeableChanges allActive incoming ctx
  leased : c.status = .leased
  covers : intentCovers c.intent incoming = true
  notDeferred : capacityDeferredGapPreservesPreciseWork c incoming (capacityDeferredGapIds allActive) = false

/-- The kept change takes over all the work it replaces: what every leased change that covers the incoming intent denotes, and,
if it is unleased itself, no unleased reconcile of its path that remembers another previous path. -/
structure TakesOverWhole (kept : QueueRow) : Prop where
  leased : ∀ c, IsReplaced allActive incoming ctx c → ∀ p, c.intent.denote p → kept.intent.denote p
  lineage : isUnleased kept.status = true → ∀ c ∈ mergeableChanges allActive incoming ctx, isUnleased c.status = true →
    c.intent.kind = .reconcile →
    capacityDeferredGapPreservesPreciseWork c incoming (capacityDeferredGapIds allActive) = false →
    ¬LineageClash kept.intent c.intent

end

/-- Enqueueing `incoming` in this state of the queue takes over whatever it replaces. -/
def ReplacesWhole (q : ChangeQueue) (incoming : LibraryChangeIntent) (ctx : EnqueueContext) : Prop :=
  ∀ allActive kept, loadActiveChanges q incoming.rootId incoming.rootGeneration = .ok allActive →
    Merges allActive incoming ctx → keptChange allActive incoming ctx = some kept →
    TakesOverWhole allActive incoming ctx kept

/-! ## The branches lose nothing -/

/-- A change with exactly the path work of another denotes the same paths. -/
theorem denote_of_exactPathWorkIdentity {a b : LibraryChangeIntent} (h : exactPathWorkIdentity a b = true) (p : String) :
    a.denote p ↔ b.denote p := by
  simp only [exactPathWorkIdentity, Bool.and_eq_true, beq_iff_eq] at h
  exact denote_congr (h.1.1.1.trans h.1.1.2.symm) h.1.2 h.2 p

/-- Widening to the root loses nothing. -/
theorem degradeToRoot_conserves {rows : List QueueRow} {evid : Option LibraryChangeCatchUpEvidence} {flag : Bool}
    (hq : ShapedQueue q) (hload : loadActiveChanges q inc.rootId inc.rootGeneration = .ok allA)
    (hsu : ∀ c ∈ rows, c ∈ allA) (h : degradeToRoot q rows inc report evid flag = .ok (q', report', id)) :
    Conserves q inc q' ∧ ShapedQueue q' := by
  have hmem : ∀ c ∈ rows, c ∈ q.rows := fun c hc => ((mem_of_loadActiveChanges hload c).mp (hsu c hc)).1
  have hro : ∀ c ∈ rows, c.intent.rootId = inc.rootId ∧ c.intent.rootGeneration = inc.rootGeneration := by
    intro c hc
    obtain ⟨_, h1, h2, _⟩ := (mem_of_loadActiveChanges hload c).mp (hsu c hc)
    exact ⟨h1, h2⟩
  have hsh : ∀ c ∈ rows, Shaped c.intent := fun c hc => hq c (hmem c hc)
  obtain ⟨hid, he⟩ := degradeToRoot_effect hmem hro hsh h
  obtain ⟨hsha, hs, hr1, hr2, _⟩ := rootIntent_spec hsh inc
  refine ⟨he.conserves ⟨hr1, hr2⟩ (fun p _ => denote_of_root hs p) ?_, he.shapedQueue hq hsha⟩
  intro r hr _ hg
  have hin : r ∈ rows := by
    refine q.mem_of_id_mem hr hmem ?_
    rcases hg with hg | rfl
    · obtain ⟨c, hc, hci⟩ := mem_map.mp hg
      exact hci ▸ mem_map_of_mem (mem_filter.mp hc).1
    · exact hid.resolve_right (fun hx => Nat.ne_of_lt (q.below r hr) hx)
  exact ⟨(hro r hin).1, (hro r hin).2, fun p _ => denote_of_root hs p⟩

section

variable (hm : Merges allA inc ctx) (hmem : c ∈ mergeableChanges allA inc ctx)

include hm hmem

/-- A leased change that overlaps the incoming intent, and is not ambiguous, lies inside it or covers it. -/
theorem denote_of_staleOverlap (hc : Shaped c.intent) (hi : Shaped inc) (hl : c.status = .leased)
    (hf : capacityDeferredGapPreservesPreciseWork c inc (capacityDeferredGapIds allA) = false)
    (hs : staleOverlap c.intent inc = true) :
    intentCovers c.intent inc = true ∨ ∀ p, c.intent.denote p → inc.denote p := by
  have hcl := not_clash_of_not_conflicting hc hi (mem_map_of_mem hmem) hm.noConflict
  have hin : intentCovers inc c.intent = true → ∀ p, c.intent.denote p → inc.denote p :=
    fun hco p => denote_of_covers hi hc hco fun hx => hcl hx.symm
  simp only [staleOverlap, Bool.or_eq_true] at hs
  rcases hs with (hco | hco) | ho
  · exact Or.inl hco
  · exact Or.inr (hin hco)
  · have ha := hm.noAmbiguity
    simp only [hasAmbiguousLeasedOverlap, any_eq_false] at ha
    have ht := ha c hmem
    simp only [hl, hf, ho, beq_self_eq_true, Bool.not_false, Bool.and_self, Bool.true_and, Bool.and_eq_true,
      Bool.not_eq_true', not_and, Bool.not_eq_false] at ht
    cases hco : intentCovers c.intent inc with
    | true => exact Or.inl rfl
    | false => exact Or.inr (hin (ht hco))

/-- What the merge of the covering branch covers among the unleased changes, it denotes. -/
theorem denote_of_mergeIntoTarget (ht : Shaped target.intent) (hc : Shaped c.intent) (hi : Shaped inc)
    (hco : intentCovers target.intent inc = true) (hl : c.intent.kind = .reconcile → ¬LineageClash target.intent c.intent)
    (h : intentCovers (mergeIntoTarget target inc) c.intent = true) (p : String) (hp : c.intent.denote p) :
    (mergeIntoTarget target inc).denote p := by
  have hme := mergeIntoTarget_mergedFrom ht hi hco
  have hcl := not_clash_of_not_conflicting hc hi (mem_map_of_mem hmem) hm.noConflict
  by_cases hk : c.intent.kind = .reconcile
  · refine denote_of_covers hme.shaped hc h ?_ hp
    rintro ⟨hs, hcs, hre, hpr, hcp, hne⟩
    obtain ⟨x, hx⟩ := Option.isSome_iff_exists.mp hpr
    rcases hme.lineage x hx with htx | ⟨_, e, he, hes, hr, hex⟩
    · exact hl hk ⟨hme.scope ▸ hs, hcs, hme.relativePath ▸ hre, by simp [htx], hcp, by rw [htx, ← hx]; exact hne⟩
    · obtain rfl := mem_singleton.mp he
      exact hcl ⟨hcs, hes, hre.symm.trans (hme.relativePath.trans hr), hcp, by simp [hex], by
        rw [hex, ← hx]; exact hne.symm⟩
  · cases hs : (mergeIntoTarget target inc).scope with
    | path =>
      rcases covers_of_path hs h with hke | ⟨_, hrec, _, _⟩
      · exact (denote_of_sameWorkKey hme.shaped hc hke p).mpr hp
      · exact absurd hrec hk
    | root => exact denote_of_root hs p
    | subtree => exact denote_of_covers hme.shaped hc h (fun hx => by simp [hx.1] at hs) hp

end

/-- Loaded changes are stored with valid shapes, in the root of the incoming intent. -/
theorem mergeable_spec (hq : ShapedQueue q) (hload : loadActiveChanges q inc.rootId inc.rootGeneration = .ok allA)
    (hc : c ∈ mergeableChanges allA inc ctx) :
    c ∈ q.rows ∧ Shaped c.intent ∧ c.intent.rootId = inc.rootId ∧ c.intent.rootGeneration = inc.rootGeneration := by
  obtain ⟨h1, h2, h3, _⟩ := (mem_of_loadActiveChanges hload c).mp (mergeable_active c hc)
  exact ⟨h1, hq c h1, h2, h3⟩

/-- The inserting branch writes what the incoming intent denotes. -/
theorem mergeInserted_denote {abs : List QueueRow} (hi : Shaped inc)
    (hsu : ∀ c ∈ abs, c ∈ mergeableChanges allA inc ctx ∧ Shaped c.intent)
    (hco : hasConflictingRename ((mergeableChanges allA inc ctx).map (·.intent)) inc = false)
    (hp : inc.denote p) : (mergeInserted abs inc).denote p := by
  have hm := mergeInserted_mergedFrom (fun c hc => (hsu c hc).2) hi
  refine hm.target p ?_
  cases hs : strongestCovering abs inc with
  | none => exact hp
  | some s =>
    obtain ⟨hsm, hsc⟩ := mem_filter.mp (maxByKey_mem hs)
    obtain ⟨hmem, hsh⟩ := hsu s hsm
    have hn := not_clash_of_not_conflicting hsh hi (mem_map_of_mem hmem) hco
    exact denote_of_covers hsh hi hsc hn hp

section

variable (hq : ShapedQueue q) (hi : Shaped inc) (hload : loadActiveChanges q inc.rootId inc.rootGeneration = .ok allA)

include hq hi hload

/-- The covering branch writes what its target denotes, and with it the incoming intent. -/
theorem coveredIntent_denote (hco : hasConflictingRename ((mergeableChanges allA inc ctx).map (·.intent)) inc = false)
    (htm : target ∈ mergeableChanges allA inc ctx) (hcov : intentCovers target.intent inc = true)
    (hp : inc.denote p ∨ target.intent.denote p) :
    (coveredIntent (mergeableChanges allA inc ctx) target inc (capacityDeferredGapIds allA)).denote p := by
  obtain ⟨-, ht, -⟩ := mergeable_spec hq hload htm
  have hf := mergeIntoTarget_mergedFrom ht hi hcov
  have hl := coveredIntent_mergedFrom (capacityDeferredGapIds allA)
    (fun c (hc : c ∈ mergeableChanges allA inc ctx) => (mergeable_spec hq hload hc).2.1) ht hi hcov
  have hcl := not_clash_of_not_conflicting ht hi (mem_map_of_mem htm) hco
  exact hl.target p (hf.target p (hp.elim (denote_of_covers ht hi hcov hcl) id))

/-- The covering branch keeps the shapes valid. -/
theorem enqueueCovered_shaped
    (hta : coveringTarget (mergeableChanges allA inc ctx) inc (capacityDeferredGapIds allA) = some target)
    (h : enqueueCovered q allA (mergeableChanges allA inc ctx) target inc
      (capacityDeferredGapIds allA) ctx report = .ok (q', report', id)) : ShapedQueue q' := by
  have htp := find?_some hta
  simp only [Bool.and_eq_true] at htp
  have hs := fun c (hc : c ∈ mergeableChanges allA inc ctx) => mergeable_spec hq hload hc
  obtain ⟨htr, ht, _⟩ := hs target (mem_of_find?_eq_some hta)
  obtain ⟨more, -, he, _⟩ := enqueueCovered_effect htr htp.1.1 h
  have hm := coveredIntent_mergedFrom (capacityDeferredGapIds allA) (fun c hc => (hs c hc).2.1) ht hi htp.1.2
  exact he.shapedQueue hq hm.shaped

/-- The inserting branch keeps the shapes valid. -/
theorem enqueueInserted_shaped (h : enqueueInserted q allA (absorbedByIncoming (mergeableChanges allA inc ctx) inc
      (capacityDeferredGapIds allA)) inc ctx report = .ok (q', report', id)) : ShapedQueue q' := by
  obtain ⟨more, _, he, _⟩ := enqueueInserted_effect h
  exact he.shapedQueue hq (mergeInserted_mergedFrom (fun c hc => (mergeable_spec hq hload (mem_filter.mp hc).1).2.1) hi).shaped

variable (hm : Merges allA inc ctx)

include hm

/-- The covering branch loses nothing when its target takes over what it replaces. -/
theorem enqueueCovered_conserves
    (hta : coveringTarget (mergeableChanges allA inc ctx) inc (capacityDeferredGapIds allA) = some target)
    (hw : TakesOverWhole allA inc ctx target)
    (h : enqueueCovered q allA (mergeableChanges allA inc ctx) target inc
      (capacityDeferredGapIds allA) ctx report = .ok (q', report', id)) : Conserves q inc q' := by
  have htm := mem_of_find?_eq_some hta
  have htp := find?_some hta
  simp only [Bool.and_eq_true] at htp
  obtain ⟨⟨hu, hco⟩, _⟩ := htp
  have hsp := fun c (hc : c ∈ mergeableChanges allA inc ctx) => mergeable_spec hq hload hc
  obtain ⟨htro, ht, htr⟩ := hsp target htm
  obtain ⟨more, -, hef, hmo⟩ := enqueueCovered_effect htro hu h
  have hla := coveredIntent_mergedFrom (capacityDeferredGapIds allA) (fun c hc => (hsp c hc).2.1) ht hi hco
  have hke : ∀ p, target.intent.denote p → (coveredIntent (mergeableChanges allA inc ctx) target inc
      (capacityDeferredGapIds allA)).denote p :=
    fun p hp => coveredIntent_denote hq hi hload hm.noConflict htm hco (.inr hp)
  have hin : ∀ p, inc.denote p → (coveredIntent (mergeableChanges allA inc ctx) target inc
      (capacityDeferredGapIds allA)).denote p :=
    fun p hp => coveredIntent_denote hq hi hload hm.noConflict htm hco (.inl hp)
  have hro := coveredIntent_root (mergeableChanges allA inc ctx) target inc (capacityDeferredGapIds allA)
  refine hef.conserves ⟨hro.1.trans htr.1, hro.2.trans htr.2⟩ hin ?_
  intro r hr ha hg
  rcases hg with hg | hg
  · rcases mem_append.mp hg with hg | hg
    · -- absorbed: covered by the merge, inside the incoming intent, or a leased change that covers it
      have hr' := q.mem_of_id_mem hr (fun c hc => (hsp c (mem_filter.mp hc).1).1) hg
      obtain ⟨hrm, hpr⟩ := mem_filter.mp hr'
      simp only [Bool.and_eq_true, Bool.or_eq_true, beq_iff_eq, Bool.not_eq_true'] at hpr
      obtain ⟨⟨_, hki⟩, hf⟩ := hpr
      obtain ⟨_, hc, hrr⟩ := hsp r hrm
      refine ⟨hrr.1, hrr.2, fun p hp => ?_⟩
      rcases hki with ⟨hru, hrc⟩ | ⟨hl, hs⟩
      · exact hla.target p (denote_of_mergeIntoTarget hm hrm ht hc hi hco (fun hk => hw.lineage hu r hrm hru hk hf) hrc p hp)
      · rcases denote_of_staleOverlap hm hrm hc hi hl hf hs with hrc | hsu
        · exact hke p (hw.leased r ⟨hrm, hl, hrc, hf⟩ p hp)
        · exact hin p (hsu p hp)
    · obtain ⟨c, hc, hid, _, _, he⟩ := hmo r.id hg
      obtain ⟨hcr, h1, h2, _⟩ := (mem_of_loadActiveChanges hload c).mp hc
      obtain rfl := q.eq_of_id hcr hr hid
      exact ⟨h1, h2, fun p hp => (denote_of_exactPathWorkIdentity he p).mp hp⟩
  · obtain rfl := q.eq_of_id hr htro hg
    exact ⟨htr.1, htr.2, hke⟩

/-- The inserting branch loses nothing when the strongest covering change takes over what is replaced. -/
theorem enqueueInserted_conserves (hw : ∀ kept, strongestCovering (absorbedByIncoming (mergeableChanges allA inc ctx) inc
      (capacityDeferredGapIds allA)) inc = some kept → TakesOverWhole allA inc ctx kept)
    (h : enqueueInserted q allA (absorbedByIncoming (mergeableChanges allA inc ctx) inc
      (capacityDeferredGapIds allA)) inc ctx report = .ok (q', report', id)) : Conserves q inc q' := by
  generalize ha : absorbedByIncoming (mergeableChanges allA inc ctx) inc (capacityDeferredGapIds allA) = abs at h hw
  have hsu : ∀ c ∈ abs, c ∈ mergeableChanges allA inc ctx := by
    intro c hc
    rw [← ha] at hc
    exact (mem_filter.mp hc).1
  have hsp := fun c hc => mergeable_spec hq hload (hsu c hc)
  obtain ⟨more, hid, hef, hmo⟩ := enqueueInserted_effect h
  have hme := mergeInserted_mergedFrom (fun c hc => (hsp c hc).2.1) hi
  have hinc : ∀ p, inc.denote p → (mergeInserted abs inc).denote p :=
    fun p hp => mergeInserted_denote hi (fun c hc => ⟨hsu c hc, (hsp c hc).2.1⟩) hm.noConflict hp
  have hro := mergeInserted_root (fun c hc => (hsp c hc).2.2)
  refine hef.conserves hro hinc ?_
  intro r hr hac hg
  rcases hg with hg | hg
  · rcases mem_append.mp hg with hg | hg
    · have hra := q.mem_of_id_mem hr (fun c hc => (hsp c hc).1) hg
      obtain ⟨_, hc, hrr⟩ := hsp r hra
      refine ⟨hrr.1, hrr.2, fun p hp => ?_⟩
      have hpr := (mem_filter.mp (ha ▸ hra)).2
      simp only [Bool.and_eq_true, Bool.or_eq_true, beq_iff_eq, Bool.not_eq_true'] at hpr
      obtain ⟨hk, hf⟩ := hpr
      have hcl := not_clash_of_not_conflicting hc hi (mem_map_of_mem (hsu r hra)) hm.noConflict
      rcases hk with hrc | ⟨hl, hst⟩
      · exact hinc p (denote_of_covers hi hc hrc (fun hx => hcl hx.symm) hp)
      · rcases denote_of_staleOverlap hm (hsu r hra) hc hi hl hf hst with hrc | hin
        · -- a covering change exists, so the strongest one is kept
          cases hs : strongestCovering abs inc with
          | none =>
            have he := maxByKey_eq_none.mp hs
            exact absurd (mem_filter.mpr ⟨hra, hrc⟩) (by rw [he]; simp)
          | some s =>
            have hp' := (hw s hs).leased r ⟨hsu r hra, hl, hrc, hf⟩ p hp
            exact hme.target p (by rw [hs]; exact hp')
        · exact hinc p (hin p hp)
    · obtain ⟨c, hc, hci, _, _, hex⟩ := hmo r.id hg
      obtain ⟨hcr, h1, h2, _⟩ := (mem_of_loadActiveChanges hload c).mp hc
      obtain rfl := q.eq_of_id hcr hr hci
      exact ⟨h1, h2, fun p hp => (denote_of_exactPathWorkIdentity hex p).mp hp⟩
  · exact absurd (hg.trans hid) (Nat.ne_of_lt (q.below r hr))

end

/-! ## Shapes stay valid -/

/-- `enqueue_one` keeps the shapes valid. -/
theorem enqueueOneFuel_shaped (hi : Shaped inc) (fuel : Nat) (hq : ShapedQueue q)
    (h : enqueueOneFuel fuel inc ctx q report = .ok (q', report', id)) : ShapedQueue q' := by
  induction fuel generalizing q report with
  | zero => cases h
  | succ fuel ih =>
    obtain ⟨allA, hload, hca⟩ := enqueueBody_cases h
    cases hca with
    | owned owner ho hs => exact (show q' = q from hs) ▸ hq
    | conflicting hd => exact (degradeToRoot_conserves hq hload sameLaneChanges_subset hd).2
    | ambiguous hd => exact (degradeToRoot_conserves hq hload sameLaneChanges_subset hd).2
    | again middle hd hp ha =>
      exact ih (degradeToRoot_conserves hq hload sameLaneChanges_subset hd).2 ha
    | covered target _ _ _ ht hr => exact enqueueCovered_shaped hq hi hload ht hr
    | inserted _ _ _ _ hr => exact enqueueInserted_shaped hq hi hload hr
    | full hd => exact (degradeToRoot_conserves hq hload mergeable_active hd).2

/-! ## The second call -/

/-- After a lane was widened to the root, its changes are one pending root. -/
theorem pending_root_of_degraded {q1 : ChangeQueue} {report1 : LibraryChangeEnqueueReport} {tid : LibraryChangeId}
    {allActive1 : List QueueRow} (hq : ShapedQueue q)
    (hload : loadActiveChanges q inc.rootId inc.rootGeneration = .ok allA)
    (hd : degradeToRoot q (sameLaneChanges allA inc ctx) inc report ctx.evidence false = .ok (q1, report1, tid))
    (hl : loadActiveChanges q1 inc.rootId inc.rootGeneration = .ok allActive1) :
    ∀ c ∈ sameLaneChanges allActive1 inc ctx, c.status = .pending ∧ c.intent.scope = .root := by
  intro c hc
  have hro : ∀ r ∈ sameLaneChanges allA inc ctx, r ∈ q.rows ∧ r.intent.rootId = inc.rootId ∧
      r.intent.rootGeneration = inc.rootGeneration := by
    intro r hr
    obtain ⟨h1, h2, h3, _⟩ := (mem_of_loadActiveChanges hload r).mp (sameLaneChanges_subset r hr)
    exact ⟨h1, h2, h3⟩
  have hsh : ∀ r ∈ sameLaneChanges allA inc ctx, Shaped r.intent := fun r hr => hq r (hro r hr).1
  obtain ⟨_, he⟩ := degradeToRoot_effect (fun r hr => (hro r hr).1) (fun r hr => (hro r hr).2) hsh hd
  obtain ⟨hcal, hcl⟩ := mem_filter.mp hc
  obtain ⟨hcr, hc1, hc2, hca⟩ := (mem_of_loadActiveChanges hl c).mp hcal
  by_cases hid : c.id = tid
  · obtain ⟨t, ht, hti, htm, hts⟩ := he.target
    obtain rfl := q1.eq_of_id hcr ht (hid.trans hti.symm)
    exact ⟨hts, htm ▸ (rootIntent_spec hsh inc).2.1⟩
  · -- any other change of the lane was one before, and is superseded now
    obtain ⟨r, hr, hs⟩ := he.backward c hcr hid
    exfalso
    have hn : r.id ∉ ((sameLaneChanges allA inc ctx).filter fun change => change.id != tid).map (·.id) := by
      intro hin
      rw [hs.gone hin] at hca
      cases hca
    have hst := hs.status.resolve_right fun hx => hn hx.1
    have hra : r ∈ allA := (mem_of_loadActiveChanges hload r).mpr ⟨hr, hs.intent ▸ hc1, hs.intent ▸ hc2, hst ▸ hca⟩
    have hrl : r ∈ sameLaneChanges allA inc ctx := by
      refine mem_filter.mpr ⟨hra, ?_⟩
      rw [← hs.intent, ← hs.evidence hn]
      exact hcl
    refine hn (mem_map_of_mem (mem_filter.mpr ⟨hrl, ?_⟩))
    simpa using fun hx => hid (hs.id.trans hx)

/-- A precise intent that finds nothing but pending roots in its lane merges with none of them. -/
theorem keptChange_of_pending_roots (hp : isPreciseDirtyReconcile inc = true)
    (hr : ∀ c ∈ sameLaneChanges allA inc ctx, c.status = .pending ∧ c.intent.scope = .root) :
    keptChange allA inc ctx = none ∧ hasAmbiguousLeasedOverlap (mergeableChanges allA inc ctx) inc
      (capacityDeferredGapIds allA) = false := by
  have hr' := fun c hc => hr c (mergeableChanges_subset c hc)
  have hco : ∀ c ∈ mergeableChanges allA inc ctx, intentCovers c.intent inc = false := by
    intro c hc
    simp [intentCovers, (hr' c hc).2, hp]
  refine ⟨?_, ?_⟩
  · have ht : coveringTarget (mergeableChanges allA inc ctx) inc (capacityDeferredGapIds allA) =
        none := by
      refine find?_eq_none.mpr fun c hc => ?_
      simp [hco c hc]
    have hs : strongestCovering (absorbedByIncoming (mergeableChanges allA inc ctx) inc
        (capacityDeferredGapIds allA)) inc = none := by
      refine maxByKey_eq_none.mpr (filter_eq_nil_iff.mpr fun c hc => ?_)
      simp [hco c (mem_filter.mp hc).1]
    simp only [keptChange, ht, hs, Option.or_none]
  · refine any_eq_false.mpr fun c hc => ?_
    simp [(hr' c hc).1]

/-! ## The whole call -/

/-- Conservation composes. -/
theorem Conserves.trans {q1 : ChangeQueue} (h : Conserves q inc q1) (h' : Conserves q1 inc q') : Conserves q inc q' :=
  fun rootId gen p hp => h' rootId gen p (Or.inl (h rootId gen p hp))

/-- A change of a higher lane that owns exactly the incoming path denotes it. -/
theorem conserves_of_owner {owner : QueueRow} (hload : loadActiveChanges q inc.rootId inc.rootGeneration = .ok allA)
    (ho : higherPriorityOwner allA inc = some owner) : Conserves q inc q := by
  unfold higherPriorityOwner at ho
  split at ho
  · obtain ⟨hmem, hpr⟩ := mem_filter.mp (minByKey_mem ho)
    simp only [Bool.and_eq_true] at hpr
    obtain ⟨hr, h1, h2, ha⟩ := (mem_of_loadActiveChanges hload owner).mp hmem
    rintro rootId gen p (hp | ⟨rfl, rfl, hp⟩)
    · exact hp
    · exact ⟨owner, hr, ha, h1, h2, (denote_of_exactPathWorkIdentity hpr.2 p).mpr hp⟩
  · cases ho

/-- `enqueue_one` loses nothing when it takes over whatever it replaces. -/
theorem enqueueOneFuel_conserves (hi : Shaped inc) (fuel : Nat) (hq : ShapedQueue q) (hw : ReplacesWhole q inc ctx)
    (h : enqueueOneFuel fuel inc ctx q report = .ok (q', report', id)) : Conserves q inc q' := by
  induction fuel generalizing q report with
  | zero => cases h
  | succ fuel ih =>
    obtain ⟨allA, hload, hca⟩ := enqueueBody_cases h
    cases hca with
    | owned owner ho hs =>
      rw [show q' = q from hs]
      exact conserves_of_owner hload ho
    | conflicting hd => exact (degradeToRoot_conserves hq hload sameLaneChanges_subset hd).1
    | ambiguous hd => exact (degradeToRoot_conserves hq hload sameLaneChanges_subset hd).1
    | again middle hd hp ha =>
      obtain ⟨hcon, hq1⟩ := degradeToRoot_conserves hq hload sameLaneChanges_subset hd
      refine hcon.trans (ih hq1 ?_ ha)
      -- the second call finds a pending root and keeps nothing
      intro allActive1 kept hl _ hk
      have hn := (keptChange_of_pending_roots hp (pending_root_of_degraded hq hload hd hl)).1
      rw [hn] at hk
      cases hk
    | covered target ho hco ham ht hr =>
      have hm : Merges allA inc ctx := ⟨ho, hco, ham, .inl (by simp [ht])⟩
      exact enqueueCovered_conserves hq hi hload hm ht (hw allA target hload hm (by simp [keptChange, ht])) hr
    | inserted ho hco ham ht hr had =>
      have hm : Merges allA inc ctx := ⟨ho, hco, ham, .inr had⟩
      refine enqueueInserted_conserves hq hi hload hm (fun kept hk => ?_) hr
      exact hw allA kept hload hm (by simp [keptChange, ht, hk])
    | full hd => exact (degradeToRoot_conserves hq hload mergeable_active hd).1

/-! ## What is lost otherwise -/

/-- A path that only replaced changes of a wider scope denote is lost if the kept change does not denote it. -/
theorem enqueueOneFuel_loses (hi : Shaped inc) {fuel : Nat} (hq : ShapedQueue q)
    (hload : loadActiveChanges q inc.rootId inc.rootGeneration = .ok allA) (hm : Merges allA inc ctx) {kept : QueueRow}
    (hk : keptChange allA inc ctx = some kept) (hp : ¬kept.intent.denote p)
    (hr : ∀ c ∈ allA, c.intent.denote p → c.intent.scope ≠ .path ∧ IsReplaced allA inc ctx c)
    (h : enqueueOneFuel fuel inc ctx q report = .ok (q', report', id)) : ¬Dirty q' inc.rootId inc.rootGeneration p := by
  cases fuel with
  | zero => cases h
  | succ fuel =>
  obtain ⟨allA', hload', hca⟩ := enqueueBody_cases h
  obtain rfl := Except.ok.inj (hload.symm.trans hload')
  have hsp := fun c (hc : c ∈ mergeableChanges allA inc ctx) => mergeable_spec hq hload hc
  have hcov : kept ∈ mergeableChanges allA inc ctx ∧ intentCovers kept.intent inc = true := by
    rcases Option.or_eq_some_iff.mp hk with hk | ⟨-, hk⟩
    · have hkp := find?_some hk
      simp only [Bool.and_eq_true] at hkp
      exact ⟨mem_of_find?_eq_some hk, hkp.1.2⟩
    · obtain ⟨hka, hkc⟩ := mem_filter.mp (maxByKey_mem hk)
      exact ⟨(mem_filter.mp hka).1, hkc⟩
  have hinc : ¬inc.denote p := fun hd => hp (denote_of_covers (hsp kept hcov.1).2.1 hi hcov.2
    (not_clash_of_not_conflicting (hsp kept hcov.1).2.1 hi (mem_map_of_mem hcov.1) hm.noConflict) hd)
  -- no change of path scope denotes the path, so merging cannot add it
  have hpath : ∀ c ∈ mergeableChanges allA inc ctx, c.intent.scope = .path → ¬c.intent.denote p := fun c hc hs hd =>
    (hr c (mergeable_active c hc) hd).1 hs
  have hgone : ∀ r ∈ q.rows, r.status.isActive = true → r.intent.rootId = inc.rootId →
      r.intent.rootGeneration = inc.rootGeneration → r.intent.denote p → IsReplaced allA inc ctx r :=
    fun r hr' ha h1 h2 hd => (hr r ((mem_of_loadActiveChanges hload r).mpr ⟨hr', h1, h2, ha⟩) hd).2
  cases hca with
  | owned owner ho hs => rw [hm.noOwner] at ho; cases ho
  | conflicting hd hc => rw [hm.noConflict] at hc; cases hc
  | ambiguous hd ha => rw [hm.noAmbiguity] at ha; cases ha
  | again middle hd hpr hag ha => rw [hm.noAmbiguity] at ha; cases ha
  | full hd had _ _ ht => exact absurd hm.admitted (by simp [ht, had])
  | covered target ho hco ham ht hru =>
    obtain rfl : target = kept := by simpa [keptChange, ht] using hk
    have htp := find?_some ht
    simp only [Bool.and_eq_true] at htp
    obtain ⟨htr, hts, -⟩ := hsp target hcov.1
    obtain ⟨more, -, he, -⟩ := enqueueCovered_effect htr htp.1.1 hru
    have hf := mergeIntoTarget_mergedFrom hts hi hcov.2
    have hl := coveredIntent_mergedFrom (capacityDeferredGapIds allA) (fun c hc => (hsp c hc).2.1) hts hi hcov.2
    refine he.not_dirty (fun hd => ?_) fun r hr' ha h1 h2 hd => mem_append_left _ ?_
    · rcases hl.denote_cases hd with hd | ⟨e, hm', hes, hd⟩
      · rcases hf.denote_cases hd with hd | ⟨e, hm', -, hd⟩
        · exact hp hd
        · exact hinc (mem_singleton.mp hm' ▸ hd)
      · obtain ⟨c, hc, rfl⟩ := mem_map.mp hm'
        exact hpath c (mem_filter.mp hc).1 hes hd
    · have hre := hgone r hr' ha h1 h2 hd
      have hne : r.id ≠ target.id := fun hid => hp (q.eq_of_id hr' htr hid ▸ hd)
      exact mem_map_of_mem (mem_filter.mpr ⟨hre.mergeable, by simp [hne, hre.leased, staleOverlap, hre.covers, hre.notDeferred]⟩)
  | inserted ho hco ham ht hru =>
    obtain ⟨more, -, he, -⟩ := enqueueInserted_effect hru
    have hs : strongestCovering (absorbedByIncoming (mergeableChanges allA inc ctx) inc (capacityDeferredGapIds allA)) inc =
        some kept := by simpa [keptChange, ht] using hk
    have hf := mergeInserted_mergedFrom
      (fun c (hc : c ∈ absorbedByIncoming (mergeableChanges allA inc ctx) inc (capacityDeferredGapIds allA)) =>
        (hsp c (mem_filter.mp hc).1).2.1) hi
    rw [hs] at hf
    refine he.not_dirty (fun hd => ?_) fun r hr' ha h1 h2 hd => mem_append_left _ ?_
    · rcases hf.denote_cases hd with hd | ⟨e, hm', hes, hd⟩
      · exact hp hd
      · rcases mem_cons.mp hm' with he | hm'
        · exact hinc (he ▸ hd)
        · obtain ⟨c, hc, rfl⟩ := mem_map.mp hm'
          exact hpath c (mem_filter.mp hc).1 hes hd
    · have hre := hgone r hr' ha h1 h2 hd
      exact mem_map_of_mem (mem_filter.mpr ⟨hre.mergeable, by simp [hre.leased, staleOverlap, hre.covers, hre.notDeferred]⟩)

/-! ## Two calls are enough -/

/-- However often `enqueue_one` may call itself, it calls itself at most once. -/
theorem enqueueOneFuel_add_two (hq : ShapedQueue q) (fuel : Nat) :
    enqueueOneFuel (fuel + 2) inc ctx q report = enqueueOne inc ctx q report := by
  refine enqueueBody_congr fun allA middle hload _ hd hp => enqueueBody_congr fun allA1 _ hl ha _ _ => ?_
  rw [(keptChange_of_pending_roots hp (pending_root_of_degraded hq hload hd hl)).2] at ha
  cases ha

end Ame
