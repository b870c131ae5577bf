import Ame.Lemmas.Limits
import Ame.Theorems.PendingCarry

/-!
# The order of the candidates of a shared page

The service accepts a page of a volume only if the candidates of each root come in the order of the journal. The pairing gives a
root two candidates with one coordinate when both names of a rename lie in it and another root, nested with it, has one of the
names too: such a pair counts as a move between roots, and the root gets the old name and the new name as candidates of their
own. And the root of a carry gets a candidate for the new name even if it starts to read after it. The theorem says for which
pages neither happens.
-/

namespace Ame

open List Iter Result History SemanticEvent

variable {ctx : SemanticRootContext} {path : List UInt16} {ref : FileReference} {usn : Int} {isDirectory : Bool}
  {candidates cands : List (Nat × BackendJournalCandidate)} {st : RootReadState} {pair : RenamePairEvent}
  {curRoots : List Nat} {i : Nat}

/-! ## What a page gives away -/

section

variable (ordinalEquals : OrdinalEquals) (ctx : SemanticRootContext)
  (rootState : RootReadState) (pendingRenames : List NativePendingRenameCarry)

/-- The old name of the rename that a record ends counts for a root: it is in the page and lies in the root, or it is carried
over and was read in the root. -/
def OldNameIn (history : List ResolvedRecord) (record : ResolvedRecord) (index : Nat) : Prop :=
  (∃ old, openOldName history record.fileReference = some old ∧ startsAfter ctx index old.usn = false ∧
      isInside ordinalEquals ctx index old.path = .ok true) ∨
    openOldName history record.fileReference = none ∧
      ∃ k carry, selectCarry pendingRenames record = some (k, carry) ∧ carry.root.isSome = true ∧
        carry.readRootIndex = some index

/-- The new name of a record lies in a root that reads it. -/
def NewNameIn (record : ResolvedRecord) (index : Nat) : Prop :=
  startsAfter ctx index record.usn = false ∧ isInside ordinalEquals ctx index record.path = .ok true

/-- A root that the old name counts for gets a candidate that is out of order: it starts to read after the new name, or it has
the new name too and some other healthy root has one of the names. -/
def Misplaces (history : List ResolvedRecord) (record : ResolvedRecord) (index : Nat) : Prop :=
  record.isNewName = true ∧ record.isOldName = false ∧
    HealthyAfter ordinalEquals ctx rootState.candidatesByRoot (history ++ [record]) index ∧
    OldNameIn ordinalEquals ctx pendingRenames history record index ∧
    (startsAfter ctx index record.usn = true ∨ NewNameIn ordinalEquals ctx record index ∧ ∃ other, other ≠ index ∧
        HealthyAfter ordinalEquals ctx rootState.candidatesByRoot (history ++ [record]) other ∧
        (OldNameIn ordinalEquals ctx pendingRenames history record other ∨ NewNameIn ordinalEquals ctx record other))

/-- A record makes the page uncertain from a coordinate on: it ends a rename and one of its two names, the one with the
coordinate, loses a root; or it ends the rename of a carry whose root is not known. -/
def Unsettles (history : List ResolvedRecord) (record : ResolvedRecord) (usn : Int) : Prop :=
  record.isNewName = true ∧ record.isOldName = false ∧
    ((openOldName history record.fileReference ≠ none ∨ selectCarry pendingRenames record ≠ none) ∧
        (∃ before path after index, lookups history record = before ++ path :: after ∧ path.2 ≤ usn ∧
          HealthyAfter ordinalEquals ctx rootState.candidatesByRoot history index ∧
          (∀ earlier ∈ before, Comparable ordinalEquals ctx earlier index) ∧ ¬Comparable ordinalEquals ctx path index) ∨
      openOldName history record.fileReference = none ∧ record.usn ≤ usn ∧
        ∃ k carry, selectCarry pendingRenames record = some (k, carry) ∧ carry.root = none)

variable (records : List ResolvedRecord)

/-- The old names that wait when the page ends, in the order of their files. -/
def waitingNames : List ResolvedRecord :=
  (records.filter fun record => decide (openOldName records record.fileReference = some record)).insertionSort
    fun a b => a.fileReference.key ≤ b.fileReference.key

/-- The old name lies in a root that is still read. -/
def OwnedBy (healthy : Nat → Prop) (old : ResolvedRecord) (index : Nat) : Prop :=
  healthy index ∧ startsAfter ctx index old.usn = false ∧ isInside ordinalEquals ctx index old.path = .ok true

/-- The roots that are still read after an old name was left waiting: those that could be compared with it, unless the name lay
in more than one of them. -/
def StaysRead (healthy : Nat → Prop) (old : ResolvedRecord) (index : Nat) : Prop :=
  healthy index ∧ Comparable ordinalEquals ctx (old.path, old.usn) index ∧
    (OwnedBy ordinalEquals ctx healthy old index → ∀ other, OwnedBy ordinalEquals ctx healthy old other → other = index)

/-- The roots that are still read after the old names were left waiting, one after the other. -/
def HealthyLeft (healthy : Nat → Prop) : List ResolvedRecord → Nat → Prop
  | [] => healthy
  | old :: rest => HealthyLeft (StaysRead ordinalEquals ctx healthy old) rest

/-- One of the old names, at or before a coordinate, loses a root. -/
def UnsettlesLeft (healthy : Nat → Prop) : List ResolvedRecord → Int → Prop
  | [], _ => False
  | old :: rest, usn =>
    old.usn ≤ usn ∧ (∃ index, healthy index ∧ ¬Comparable ordinalEquals ctx (old.path, old.usn) index) ∨
      UnsettlesLeft (StaysRead ordinalEquals ctx healthy old) rest usn

/-- A root that the page was not given up for when it ends. -/
def ReadToEnd (index : Nat) : Prop :=
  HealthyLeft ordinalEquals ctx (HealthyAfter ordinalEquals ctx rootState.candidatesByRoot records) (waitingNames records) index

/-- A barrier at or before a coordinate. -/
def Reaches (barrier : Option Int) (usn : Int) : Prop := ∃ b, barrier = some b ∧ b ≤ usn

/-- The page is uncertain from a coordinate on, or from an earlier one. -/
def UncertainAt (usn : Int) : Prop :=
  Reaches rootState.uncertaintyBarrier usn ∨ (∃ before record after, records = before ++ record :: after ∧
      Unsettles ordinalEquals ctx rootState pendingRenames before record usn) ∨
    UnsettlesLeft ordinalEquals ctx (HealthyAfter ordinalEquals ctx rootState.candidatesByRoot records)
      (waitingNames records) usn

/-- Some record of the certain part of the page misplaces a candidate of a root that is read to the end. -/
def SpoilsOrder : Prop :=
  ∃ before record after index, records = before ++ record :: after ∧
    Misplaces ordinalEquals ctx rootState pendingRenames before record index ∧
    ReadToEnd ordinalEquals ctx rootState records index ∧
    ¬UncertainAt ordinalEquals ctx rootState pendingRenames records record.usn

end

/-! ## The events of a pair -/

theorem copyFromBounded_eq {cand res : BackendJournalCandidate} (h : cand.copyFromBounded = .ok res) : res = cand := by
  unfold BackendJournalCandidate.copyFromBounded at h
  split at h <;> cases h
  rfl

theorem scopedCandidate_eq {idx : Nat} {cand : Nat × BackendJournalCandidate}
    (h : scopedCandidate ctx idx path ref usn isDirectory = .ok cand) : cand.1 = idx ∧ cand.2.usn = usn := by
  obtain ⟨c, hc, h⟩ := bind_ok h
  cases h
  rw [copyFromBounded_eq hc]
  exact ⟨rfl, rfl⟩

/-- A path gives each of its roots one candidate. -/
theorem mapM_scopedCandidate {roots : List Nat}
    (h : (roots.mapM fun idx => scopedCandidate ctx idx path ref usn isDirectory) = .ok cands) :
    cands.map (·.1) = roots ∧ ∀ cand ∈ cands, cand.2.usn = usn := by
  induction roots generalizing cands with
  | nil =>
    cases h
    simp
  | cons idx roots ih =>
    rw [mapM_cons] at h
    obtain ⟨cand, hc, h⟩ := bind_ok h
    obtain ⟨rest, hre, h⟩ := bind_ok h
    cases h
    obtain ⟨hi, hus⟩ := scopedCandidate_eq hc
    obtain ⟨hr, hu⟩ := ih hre
    exact ⟨by simp [hi, hr], by simpa [hus] using hu⟩

/-- A pair gives a candidate for the old name to the healthy roots of the old name, and one for the new name to those of it. -/
theorem pairCandidates_spec (h : pairCandidates ctx st pair curRoots = .ok cands) :
    cands.map (·.1) = (pair.previousRoots.filter fun i => !rootFailed st.candidatesByRoot i) ++
        (curRoots.filter fun i => !rootFailed st.candidatesByRoot i) ∧
      ∀ cand ∈ cands, cand.2.usn = pair.current.usn := by
  obtain ⟨prev, hpr, h⟩ := bind_ok h
  obtain ⟨cur, hcur, h⟩ := bind_ok h
  cases h
  obtain ⟨hp, hpu⟩ := mapM_scopedCandidate hpr
  obtain ⟨hc, hcu⟩ := mapM_scopedCandidate hcur
  exact ⟨by rw [map_append, hp, hc], fun c hm => (mem_append.mp hm).elim (hpu c) (hcu c)⟩

/-- The candidates of an event are dated by it, and by the record it was found at. -/
def SemanticEvent.DatedBy (event : SemanticEvent) (usn : Int) : Prop :=
  event.candidates ≠ [] → event.usn = usn ∧ ∀ candidate ∈ event.candidates, candidate.2.usn = usn

/-- A pair has the date of its new name. -/
theorem pairEvent_dated {uncertain : Bool} {evs : List SemanticEvent}
    (h : pairEvent ctx st pair curRoots uncertain = .ok evs) : evs.length ≤ 1 ∧ ∀ ev ∈ evs, ev.DatedBy pair.current.usn := by
  unfold pairEvent at h
  split at h
  · split at h <;> cases h <;> simp [SemanticEvent.DatedBy, pendingEvent]
  split at h
  · obtain ⟨cand, hc, h⟩ := bind_ok h
    cases h
    rw [copyFromBounded_eq hc]
    simp [SemanticEvent.DatedBy]
  · obtain ⟨cands, hcs, h⟩ := bind_ok h
    cases h
    have hu := (pairCandidates_spec hcs).2
    split
    · simp
    · refine ⟨le_refl 1, fun ev hm => ?_⟩
      rw [mem_singleton.mp hm]
      exact fun _ => ⟨rfl, hu⟩

/-- How many candidates an event has for a root. -/
theorem length_candidatesFor (ev : SemanticEvent) (i : Nat) :
    (ev.candidatesFor i).length = (ev.candidates.map (·.1)).count i := by
  rw [candidatesFor, length_map, count_eq_length_filter, List.filter_map, length_map]
  rfl

/-- Whether an event fits a root, by the roots it has candidates for. -/
theorem fitsRoot_iff {ev : SemanticEvent} {start : Int} (h : ev.DatedBy usn) :
    ev.FitsRoot start i ↔ (ev.candidates.map (·.1)).count i ≤ 1 ∧ (i ∈ ev.candidates.map (·.1) → start ≤ usn) := by
  rw [SemanticEvent.FitsRoot, length_candidatesFor]
  refine and_congr_right fun _ => ⟨fun ha hm => ?_, fun hi cand hm => ?_⟩
  · obtain ⟨cand, hc, rfl⟩ := mem_map.mp hm
    rw [← (h (ne_nil_of_mem hc)).2 cand hc]
    exact ha _ (mem_candidatesFor.mpr hc)
  · have hc := mem_candidatesFor.mp hm
    rw [(h (ne_nil_of_mem hc)).2 _ hc]
    exact hi (mem_map.mpr ⟨_, hc, rfl⟩)

/-- Two lists of roots that share a root are the same single root unless they have another one. -/
theorem not_same_root_iff {prev cur : List Nat} (hp : prev.Nodup) (hc : cur.Nodup) (hip : i ∈ prev)
    (hic : i ∈ cur) : ¬(prev.length = 1 ∧ prev = cur) ↔ ∃ j, j ≠ i ∧ (j ∈ prev ∨ j ∈ cur) := by
  constructor
  · intro hne
    by_contra ha
    have hs {l : List Nat} (hl : l.Nodup) (hi : i ∈ l) (h : ∀ j ∈ l, j = i) : l = [i] :=
      (eq_singleton_iff_of_nodup hl i).mpr fun j => ⟨h j, fun hj => hj ▸ hi⟩
    have hpr := hs hp hip fun j hj => by
      by_contra hji
      exact ha ⟨j, hji, .inl hj⟩
    have hcu := hs hc hic fun j hj => by
      by_contra hji
      exact ha ⟨j, hji, .inr hj⟩
    exact hne ⟨by rw [hpr]; rfl, hpr.trans hcu.symm⟩
  · rintro ⟨j, hji, hj⟩ ⟨hle, rfl⟩
    obtain ⟨k, hk⟩ := length_eq_one_iff.mp hle
    rw [or_self, hk, mem_singleton] at hj
    rw [hk, mem_singleton] at hip
    exact hji (hj.trans hip.symm)

section

variable {ctx : SemanticRootContext} {st : RootReadState} {pair : RenamePairEvent} {curRoots : List Nat}

/-- The event of a pair that no root was lost over does not fit a root exactly if the old name counts for the root, and the root
starts to read after the new name, or has it too while another root has one of the names. -/
theorem pairEvent_misfits_iff {uncertain : Bool} {evs : List SemanticEvent}
    (h : pairEvent ctx st pair curRoots uncertain = .ok evs)
    (hsu : (uncertain && pair.previousPendingIndex.isNone) = false) (hpr : pair.previousRoots.Nodup) (hcu : curRoots.Nodup)
    (hre : ∀ j ∈ curRoots, rootFailed st.candidatesByRoot j = false ∧ startsAfter ctx j pair.current.usn = false) (i : Nat)
    (ha : i ∈ pair.previousRoots → rootFailed st.candidatesByRoot i = false →
      ∀ j ∈ pair.previousRoots, rootFailed st.candidatesByRoot j = false) :
    (∃ ev ∈ evs, ¬ev.FitsRoot (ctx.rootStartUsns.getD i 0) i) ↔
      rootFailed st.candidatesByRoot i = false ∧ i ∈ pair.previousRoots ∧
        (startsAfter ctx i pair.current.usn = true ∨ i ∈ curRoots ∧
          ∃ j, j ≠ i ∧ rootFailed st.candidatesByRoot j = false ∧ (j ∈ pair.previousRoots ∨ j ∈ curRoots)) := by
  have hd := pairEvent_dated h
  have hs : startsAfter ctx i pair.current.usn = true ↔ ¬ctx.rootStartUsns.getD i 0 ≤ pair.current.usn := by
    simp [startsAfter]
  unfold pairEvent at h
  rw [if_neg (by simp [hsu])] at h
  split at h
  · -- both names in one root
    next hsa =>
    obtain ⟨cand, hc, h⟩ := bind_ok h
    cases h
    obtain ⟨root, hro⟩ := length_eq_one_iff.mp hsa.1
    rw [forall_mem_singleton] at hd
    have hcr : curRoots = [root] := hsa.2 ▸ hro
    have ho := hre root (by simp [hcr])
    refine iff_of_false ?_ ?_
    · rintro ⟨ev, hme, hn⟩
      rw [mem_singleton.mp hme] at hn
      refine hn ((fitsRoot_iff hd.2).mpr ⟨by simp [count_singleton]; split <;> simp, ?_⟩)
      rw [hcr]
      intro hi
      obtain rfl : i = root := by simpa using hi
      by_contra hlt
      simp [ho.2] at hs
      exact hlt hs
    · rintro ⟨-, hi, hba⟩
      rw [hro, mem_singleton] at hi
      subst hi
      rcases hba with hba | ⟨-, j, hji, -, hj⟩
      · simp [ho.2] at hba
      · simp [hro, hcr] at hj
        exact hji hj
  · next hsa =>
    obtain ⟨cands, hcs, h⟩ := bind_ok h
    cases h
    obtain ⟨hr, hu⟩ := pairCandidates_spec hcs
    have hh : curRoots.filter (fun i => !rootFailed st.candidatesByRoot i) = curRoots :=
      filter_eq_self.mpr fun j hj => by simp [(hre j hj).1]
    rw [hh] at hr
    have hco : (cands.map (·.1)).count i ≤ 1 ↔
        ¬(i ∈ pair.previousRoots ∧ rootFailed st.candidatesByRoot i = false ∧ i ∈ curRoots) := by
      rw [hr, count_append, (hpr.filter _).count, hcu.count]
      by_cases hp : i ∈ pair.previousRoots <;> by_cases hf : rootFailed st.candidatesByRoot i = false <;>
        by_cases hc : i ∈ curRoots <;> simp [hp, hf, hc]
    have hme : i ∈ cands.map (·.1) ↔ i ∈ pair.previousRoots ∧ rootFailed st.candidatesByRoot i = false ∨ i ∈ curRoots := by
      rw [hr, mem_append, mem_filter]
      simp
    have hm : (∃ ev ∈ (if cands.isEmpty && (pairHandoff pair curRoots).isNone then []
        else [⟨pair.current.usn, cands, pairHandoff pair curRoots, none⟩] : List SemanticEvent),
          ¬ev.FitsRoot (ctx.rootStartUsns.getD i 0) i) ↔
        ¬((cands.map (·.1)).count i ≤ 1 ∧ (i ∈ cands.map (·.1) → ctx.rootStartUsns.getD i 0 ≤ pair.current.usn)) := by
      split
      · next he =>
        simp only [Bool.and_eq_true, List.isEmpty_iff] at he
        simp [he.1]
      · next he =>
        rw [if_neg he, forall_mem_singleton] at hd
        rw [← fitsRoot_iff hd.2]
        simp
    refine hm.trans ?_
    rw [hco, hme, hs]
    constructor
    · intro hn
      by_cases hb : i ∈ pair.previousRoots ∧ rootFailed st.candidatesByRoot i = false ∧ i ∈ curRoots
      · obtain ⟨hip, hok, hic⟩ := hb
        obtain ⟨j, hji, hj⟩ := (not_same_root_iff hpr hcu hip hic).mp hsa
        exact ⟨hok, hip, .inr ⟨hic, j, hji, hj.elim (ha hip hok j) fun hj => (hre j hj).1, hj⟩⟩
      · have hea : ¬(i ∈ pair.previousRoots ∧ rootFailed st.candidatesByRoot i = false ∨ i ∈ curRoots →
            ctx.rootStartUsns.getD i 0 ≤ pair.current.usn) := fun him => hn ⟨hb, him⟩
        obtain ⟨hin, hlt⟩ := Classical.not_imp.mp hea
        rcases hin with ⟨hip, hok⟩ | hic
        · exact ⟨hok, hip, .inl hlt⟩
        · have := (hre i hic).2
          rw [← hs, this] at hlt
          cases hlt
    · rintro ⟨hok, hip, hba⟩ ⟨hn, hle⟩
      rcases hba with hba | ⟨hic, -⟩
      · exact hba (hle (.inl ⟨hip, hok⟩))
      · exact hn ⟨hip, hok, hic⟩

end

/-! ## The barriers -/

theorem reaches_lowerBarrier (bar : Option Int) (usn u : Int) : Reaches (lowerBarrier bar usn) u ↔ Reaches bar u ∨ usn ≤ u := by
  cases bar <;> simp [Reaches, lowerBarrier]

section

variable {ordinalEquals oeq : OrdinalEquals} {ctx : SemanticRootContext}
  {path : List UInt16} {usn : Int} {i : Nat} {prev : ResolvedRecord} {oldNames recs : List ResolvedRecord}
  {healthy : Nat → Prop}

section

variable (path : List UInt16) (usn : Int) (st : RootReadState)

theorem rootsForPath_barrier : (rootsForPath oeq ctx path usn st).2.uncertaintyBarrier = st.uncertaintyBarrier := rfl

/-- A name of a rename loses a root exactly if a healthy root cannot be compared with it. -/
theorem rootsForRenamePath_lost : (rootsForRenamePath oeq ctx path usn st).1.2 = true ↔
      ∃ i, rootFailed st.candidatesByRoot i = false ∧ ¬Comparable oeq ctx (path, usn) i := by
  simp only [rootsForRenamePath, Bool.not_eq_true', isEmpty_eq_false_iff_exists_mem, mem_filter, mem_range, Bool.and_eq_true]
  refine exists_congr fun i => ⟨fun ⟨_, hok, hlo⟩ => ?_, fun ⟨hok, hn⟩ => ⟨?_, hok, ?_⟩⟩
  · exact ⟨hok, ((rootsForPath_failed path usn st i).mp hlo).resolve_left (by simp [hok])⟩
  · obtain ⟨l, hl⟩ := rootFailed_eq_false_iff.mp hok
    exact (List.getElem?_eq_some_iff.mp hl).1
  · exact (rootsForPath_failed path usn st i).mpr (.inr hn)

/-- A name of a rename lowers the barrier exactly if it loses a root. -/
theorem rootsForRenamePath_barrier (u : Int) : Reaches (rootsForRenamePath oeq ctx path usn st).2.uncertaintyBarrier u ↔
      Reaches st.uncertaintyBarrier u ∨
        usn ≤ u ∧ ∃ i, rootFailed st.candidatesByRoot i = false ∧ ¬Comparable oeq ctx (path, usn) i := by
  rw [← rootsForRenamePath_lost]
  simp only [rootsForRenamePath]
  split
  · next hn => simp [hn, rootsForPath_barrier]
  · next hl =>
    have hl := Bool.eq_false_iff.mpr hl
    rw [reaches_lowerBarrier, rootsForPath_barrier]
    simp [hl]

end

/-- A root stays healthy if it can be compared. -/
theorem rootsForRenamePath_healthy {st : RootReadState} :
    rootFailed (rootsForRenamePath oeq ctx path usn st).2.candidatesByRoot i = false ↔
      rootFailed st.candidatesByRoot i = false ∧ Comparable oeq ctx (path, usn) i :=
  rootsForPath_healthy

theorem mem_rootsForRenamePath {st : RootReadState} : i ∈ (rootsForRenamePath oeq ctx path usn st).1.1 ↔
      rootFailed st.candidatesByRoot i = false ∧ startsAfter ctx i usn = false ∧ isInside oeq ctx i path = .ok true :=
  mem_rootsForPath path usn st i

/-- A root that a path lies in can be compared with it. -/
theorem comparable_of_inside {path : List UInt16 × Int} (h : isInside oeq ctx i path.1 = .ok true) :
    Comparable oeq ctx path i :=
  .inr (by rw [h]; rfl)

/-! ## One round of the pairing -/

variable {pendingRenames pends : List NativePendingRenameCarry} {rootState rst : RootReadState} {hist : List ResolvedRecord}
  {rec : ResolvedRecord} {st st' : PairingState}

/-- What a round adds to the events and to the barrier. -/
structure RoundEffect (ordinalEquals : OrdinalEquals) (ctx : SemanticRootContext)
    (pendingRenames : List NativePendingRenameCarry) (rootState : RootReadState) (history : List ResolvedRecord)
    (record : ResolvedRecord) (st st' : PairingState) (added : List SemanticEvent) : Prop where
  events : st'.events = st.events ++ added
  atMostOne : added.length ≤ 1
  dated : ∀ event ∈ added, event.DatedBy record.usn
  misfits : ¬Unsettles ordinalEquals ctx rootState pendingRenames history record record.usn → ∀ i,
    (∃ event ∈ added, ¬event.FitsRoot (ctx.rootStartUsns.getD i 0) i) ↔
      Misplaces ordinalEquals ctx rootState pendingRenames history record i
  barrier : ∀ u, Reaches st'.rootState.uncertaintyBarrier u ↔
    Reaches st.rootState.uncertaintyBarrier u ∨ Unsettles ordinalEquals ctx rootState pendingRenames history record u

/-- A record that ends no rename neither misplaces a candidate nor makes the page uncertain. -/
theorem not_misplaces_of_unpaired (hopen : rec.isOldName = false → rec.isNewName = true →
      openOldName hist rec.fileReference = none ∧ selectCarry pends rec = none) :
    (∀ i, ¬Misplaces oeq ctx rst pends hist rec i) ∧ ∀ u, ¬Unsettles oeq ctx rst pends hist rec u := by
  constructor
  · rintro i ⟨hne, hold, -, hna, -⟩
    obtain ⟨hn, hc⟩ := hopen hold hne
    rcases hna with ⟨old, hs, -⟩ | ⟨-, k, carry, hs, -⟩
    · simp [hn] at hs
    · simp [hc] at hs
  · rintro u ⟨hne, hold, hca⟩
    obtain ⟨hn, hc⟩ := hopen hold hne
    rcases hca with ⟨hs, -⟩ | ⟨-, -, k, carry, hs, -⟩
    · simp [hn, hc] at hs
    · simp [hc] at hs

/-- An old name adds nothing. -/
theorem RoundEffect.oldName (hold : rec.isOldName = true) : RoundEffect oeq ctx pends rst hist rec st
      { st with oldNames := insertOldName rec st.oldNames } [] := by
  obtain ⟨hm, hu⟩ := @not_misplaces_of_unpaired oeq ctx pends rst hist rec fun hn => by simp [hold] at hn
  exact ⟨(append_nil _).symm, by simp, by simp, fun _ i => by simp [hm i], fun u => by simp [hu u]⟩

/-- A record that is paired with nothing gives each of its roots one candidate. -/
theorem RoundEffect.plainEvent (hopen : rec.isOldName = false → rec.isNewName = true →
      openOldName hist rec.fileReference = none ∧ selectCarry pends rec = none)
    (h : plainEvent oeq ctx st rec = .ok st') : ∃ added, RoundEffect oeq ctx pends rst hist rec st st' added := by
  obtain ⟨hmi, hun⟩ := @not_misplaces_of_unpaired oeq ctx pends rst hist rec hopen
  obtain ⟨cands, hc, h⟩ := bind_ok h
  cases h
  obtain ⟨hr, hu⟩ := mapM_scopedCandidate hc
  have hd : ∀ ev ∈ (if cands.isEmpty then [] else [⟨rec.usn, cands, none, none⟩] : List SemanticEvent),
      ev.candidates = cands ∧ ev.DatedBy rec.usn := by
    intro ev hm
    split at hm
    · cases hm
    · rw [mem_singleton.mp hm]
      exact ⟨rfl, fun _ => ⟨rfl, hu⟩⟩
  refine ⟨_, rfl, by split <;> simp, fun ev hm => (hd ev hm).2, fun _ i => ?_, fun u => by simp [hun u]⟩
  refine iff_of_false ?_ (hmi i)
  rintro ⟨ev, hm, hn⟩
  obtain ⟨heq, hby⟩ := hd ev hm
  refine hn ((fitsRoot_iff hby).mpr ?_)
  rw [heq, hr]
  refine ⟨nodup_iff_count_le_one.mp (rootsForPath_nodup _ _ st.rootState) i, fun hi => ?_⟩
  simpa [startsAfter] using ((mem_rootsForPath _ _ st.rootState _).mp hi).2.1

/-- The two ways to pick one of two lookups. -/
theorem pair_eq_append_cons_iff {α : Type} {a b x : α} {before after : List α} :
    [a, b] = before ++ x :: after ↔ before = [] ∧ x = a ∧ after = [b] ∨ before = [a] ∧ x = b ∧ after = [] := by
  rcases before with - | ⟨y, - | ⟨z, before⟩⟩
  · simp [eq_comm]
  · simp [eq_comm]
  · simp

/-- A pair of the page looks its two names up, one after the other, and adds the event of the pair. -/
theorem pairInPage_ok (h : pairInPage oeq ctx st prev rec = .ok st') :
    ∃ first second evs, rootsForRenamePath oeq ctx prev.path prev.usn st.rootState = first ∧
      rootsForRenamePath oeq ctx rec.path rec.usn first.2 = second ∧
      pairEvent ctx second.2 ⟨prev.path, prev.usn, first.1.1, none, rec⟩ second.1.1 second.1.2 = .ok evs ∧
      st'.events = st.events ++ evs ∧ st'.rootState = second.2 := by
  obtain ⟨evs, he, h⟩ := bind_ok h
  cases h
  exact ⟨_, _, evs, rfl, rfl, he, rfl, rfl⟩

section

variable (hinv : PairingInv oeq ctx pends rst hist st)

include hinv

/-- A pair of the page. -/
theorem RoundEffect.pairInPage (hold : rec.isOldName = false) (hne : rec.isNewName = true)
    (hp : st.oldNames.find? (fun old => old.fileReference == rec.fileReference) = some prev)
    (h : pairInPage oeq ctx st prev rec = .ok st') :
    ∃ added, RoundEffect oeq ctx pends rst hist rec st st' added := by
  have hopen : openOldName hist rec.fileReference = some prev := hinv.oldNames _ ▸ hp
  have hh := (hinv.pairInPage hold hne hp h).healthy
  have hl : lookups hist rec = [(prev.path, prev.usn), (rec.path, rec.usn)] := by
    simp [lookups, hold, hne, hopen]
  obtain ⟨first, second, evs, hf, hs, he, ha, hst⟩ := pairInPage_ok h
  rw [hst] at hh
  have hok₁ (i : Nat) : rootFailed first.2.candidatesByRoot i = false ↔ HealthyAfter oeq ctx rst.candidatesByRoot hist i ∧
        Comparable oeq ctx (prev.path, prev.usn) i := by
    rw [← hf, rootsForRenamePath_healthy, hinv.healthy]
  have hu (u : Int) : Unsettles oeq ctx rst pends hist rec u ↔
      (prev.usn ≤ u ∧ ∃ i, HealthyAfter oeq ctx rst.candidatesByRoot hist i ∧ ¬Comparable oeq ctx (prev.path, prev.usn) i) ∨
        rec.usn ≤ u ∧ ∃ i, rootFailed first.2.candidatesByRoot i = false ∧ ¬Comparable oeq ctx (rec.path, rec.usn) i := by
    simp only [hok₁, Unsettles, hne, hold, hopen, hl, pair_eq_append_cons_iff]
    constructor
    · rintro ⟨-, -, ⟨-, before, path, after, i, hsp, hle, hok, hb, hnot⟩ | ⟨hno, -⟩⟩
      · rcases hsp with ⟨rfl, rfl, rfl⟩ | ⟨rfl, rfl, rfl⟩
        · exact .inl ⟨hle, i, hok, hnot⟩
        · exact .inr ⟨hle, i, ⟨hok, hb _ (by simp)⟩, hnot⟩
      · cases hno
    · rintro (⟨hle, i, hok, hnot⟩ | ⟨hle, i, ⟨hok, hc⟩, hnot⟩)
      · exact ⟨trivial, trivial, .inl ⟨.inl (by simp), [], _, _, i, .inl ⟨rfl, rfl, rfl⟩, hle, hok, by simp, hnot⟩⟩
      · exact ⟨trivial, trivial, .inl ⟨.inl (by simp), _, _, [], i, .inr ⟨rfl, rfl, rfl⟩, hle, hok, by simpa using hc, hnot⟩⟩
  obtain ⟨ho, hd⟩ := pairEvent_dated he
  refine ⟨evs, ha, ho, hd, fun hsu i => ?_, fun u => ?_⟩
  · have hc (j : Nat) (hj : rootFailed first.2.candidatesByRoot j = false) : Comparable oeq ctx (rec.path, rec.usn) j := by
      by_contra hnot
      exact hsu ((hu _).mpr (.inr ⟨le_refl _, j, hj, hnot⟩))
    have hok₂ (j : Nat) : rootFailed second.2.candidatesByRoot j = false ↔ rootFailed first.2.candidatesByRoot j = false := by
      rw [← hs, rootsForRenamePath_healthy]
      exact ⟨And.left, fun h => ⟨h, hc j h⟩⟩
    have hm₁ (j : Nat) : j ∈ first.1.1 ↔ HealthyAfter oeq ctx rst.candidatesByRoot hist j ∧
        startsAfter ctx j prev.usn = false ∧ isInside oeq ctx j prev.path = .ok true := by
      rw [← hf, mem_rootsForRenamePath, hinv.healthy]
    have hm₂ (j : Nat) : j ∈ second.1.1 ↔ rootFailed first.2.candidatesByRoot j = false ∧ NewNameIn oeq ctx rec j := by
      rw [← hs, mem_rootsForRenamePath]
      rfl
    have hn : second.1.2 = false := by
      refine Bool.eq_false_iff.mpr fun hlo => ?_
      rw [← hs, rootsForRenamePath_lost] at hlo
      obtain ⟨j, hj, hnot⟩ := hlo
      exact hnot (hc j hj)
    have hr₁ (j : Nat) (hj : j ∈ first.1.1) : rootFailed second.2.candidatesByRoot j = false := by
      obtain ⟨hok, -, hin⟩ := (hm₁ j).mp hj
      exact (hok₂ j).mpr ((hok₁ j).mpr ⟨hok, comparable_of_inside hin⟩)
    rw [pairEvent_misfits_iff he (by simp [hn]) (by rw [← hf]; exact rootsForPath_nodup _ _ _)
      (by rw [← hs]; exact rootsForPath_nodup _ _ _)
      (fun j hj => ⟨(hok₂ j).mpr ((hm₂ j).mp hj).1, ((hm₂ j).mp hj).2.1⟩) i fun _ _ j hj => hr₁ j hj]
    -- the roots of the two names, by what the page says about them
    have hna (j : Nat) : OldNameIn oeq ctx pends hist rec j ↔
        startsAfter ctx j prev.usn = false ∧ isInside oeq ctx j prev.path = .ok true := by
      simp [OldNameIn, hopen]
    have hin₁ (j : Nat) (hj : rootFailed second.2.candidatesByRoot j = false) :
        j ∈ first.1.1 ↔ OldNameIn oeq ctx pends hist rec j := by
      rw [hm₁, hna]
      exact and_iff_right (((hok₁ j).mp ((hok₂ j).mp hj)).1)
    have hin₂ (j : Nat) (hj : rootFailed second.2.candidatesByRoot j = false) : j ∈ second.1.1 ↔ NewNameIn oeq ctx rec j := by
      rw [hm₂]
      exact and_iff_right ((hok₂ j).mp hj)
    simp only [Misplaces, hne, hold, ← hh, true_and]
    refine and_congr_right fun hok => and_congr (hin₁ i hok) (or_congr_right (and_congr (hin₂ i hok) ?_))
    refine exists_congr fun j => and_congr_right fun _ => and_congr_right fun hj => or_congr (hin₁ j hj) (hin₂ j hj)
  · rw [hst, hu, ← hs, rootsForRenamePath_barrier, ← hf, rootsForRenamePath_barrier, or_assoc]
    simp only [hinv.healthy]

/-- A record whose old name was carried over. -/
theorem RoundEffect.pairWithCarry {k : Nat}
    {carry : NativePendingRenameCarry} (hold : rec.isOldName = false) (hne : rec.isNewName = true)
    (hopen : openOldName hist rec.fileReference = none) (hca : selectCarry pends rec = some (k, carry))
    (h : pairWithCarry oeq ctx st k carry rec = .ok st') :
    ∃ added, RoundEffect oeq ctx pends rst hist rec st st' added := by
  have hh := (hinv.pairWithCarry hold hne hopen hca h).healthy
  have hl : lookups hist rec = [(rec.path, rec.usn)] := lookups_of_none hold fun _ => hopen
  have hu (u : Int) : Unsettles oeq ctx rst pends hist rec u ↔
      rec.usn ≤ u ∧ ((∃ i, HealthyAfter oeq ctx rst.candidatesByRoot hist i ∧
        ¬Comparable oeq ctx (rec.path, rec.usn) i) ∨ carry.root = none) := by
    simp only [Unsettles, hne, hold, hopen, hl, hca, singleton_eq_append_iff]
    constructor
    · rintro ⟨-, -, ⟨-, before, path, after, i, hs, hle, hok, -, hno⟩ | ⟨-, hle, k', carry', heq, hn⟩⟩
      · rcases hs with ⟨-, hs⟩ | ⟨-, hs⟩
        · obtain rfl := (List.cons.inj hs).1
          exact ⟨hle, .inl ⟨i, hok, hno⟩⟩
        · cases hs
      · cases heq
        exact ⟨hle, .inr hn⟩
    · rintro ⟨hle, ⟨i, hok, hno⟩ | hn⟩
      · exact ⟨trivial, trivial, .inl ⟨.inr (by simp), [], _, [], i, .inl ⟨rfl, rfl⟩, hle, hok, by simp, hno⟩⟩
      · exact ⟨trivial, trivial, .inr ⟨trivial, hle, k, carry, rfl, hn⟩⟩
  simp only [Ame.pairWithCarry] at h
  generalize hc : rootsForRenamePath oeq ctx rec.path rec.usn st.rootState = current at h
  have hb (u : Int) : Reaches current.2.uncertaintyBarrier u ↔ Reaches st.rootState.uncertaintyBarrier u ∨
      rec.usn ≤ u ∧ ∃ i, HealthyAfter oeq ctx rst.candidatesByRoot hist i ∧ ¬Comparable oeq ctx (rec.path, rec.usn) i := by
    rw [← hc, rootsForRenamePath_barrier]
    simp only [hinv.healthy]
  split at h
  · next hr =>
    cases h
    refine ⟨[], (append_nil _).symm, by simp, by simp, fun hsu => ?_, fun u => ?_⟩
    · exact absurd ((hu _).mpr ⟨le_refl _, .inr hr⟩) hsu
    · rw [reaches_lowerBarrier, hb, hu, or_assoc]
      simp only [hr, or_true, and_true]
      exact or_congr_right (or_iff_right_of_imp And.left)
  · next root hr =>
    obtain ⟨prevPath, -, h⟩ := bind_ok h
    obtain ⟨evs, he, h⟩ := bind_ok h
    cases h
    obtain ⟨ho, hd⟩ := pairEvent_dated he
    refine ⟨evs, rfl, ho, hd, fun _ i => ?_, fun u => ?_⟩
    · have hok (j : Nat) (hj : rootFailed current.2.candidatesByRoot j = false) :
          rootFailed st.rootState.candidatesByRoot j = false := by
        rw [← hc, rootsForRenamePath_healthy] at hj
        exact hj.1
      have hm (j : Nat) : j ∈ current.1.1 ↔ rootFailed st.rootState.candidatesByRoot j = false ∧ NewNameIn oeq ctx rec j := by
        rw [← hc, mem_rootsForRenamePath]
        rfl
      have hre (j : Nat) (hj : j ∈ current.1.1) : rootFailed current.2.candidatesByRoot j = false := by
        obtain ⟨hok, -, hin⟩ := (hm j).mp hj
        rw [← hc, rootsForRenamePath_healthy]
        exact ⟨hok, comparable_of_inside hin⟩
      rw [pairEvent_misfits_iff he (by simp) (by cases carry.readRootIndex <;> simp)
        (by rw [← hc]; exact rootsForPath_nodup _ _ _) (fun j hj => ⟨hre j hj, ((hm j).mp hj).2.1⟩) i
        fun hi hfi j hj => ?_]
      · have hin₁ (j : Nat) : j ∈ carry.readRootIndex.toList ↔ OldNameIn oeq ctx pends hist rec j := by
          simp [OldNameIn, hopen, hca, hr]
        have hin₂ (j : Nat) (hj : rootFailed current.2.candidatesByRoot j = false) :
            j ∈ current.1.1 ↔ NewNameIn oeq ctx rec j := by
          rw [hm]
          exact and_iff_right (hok j hj)
        simp only [Misplaces, hne, hold, ← hh, true_and]
        refine and_congr_right fun hi => and_congr (hin₁ i) (or_congr_right (and_congr (hin₂ i hi) ?_))
        refine exists_congr fun j => and_congr_right fun _ => and_congr_right fun hj => or_congr (hin₁ j) (hin₂ j hj)
      · obtain rfl : i = j := by
          rw [Option.mem_toList] at hi hj
          exact Option.mem_unique hi hj
        exact hfi
    · rw [hb, hu]
      simp [hr]

/-- Every round. -/
theorem RoundEffect.pairRecord (h : pairRecord oeq ctx pends st rec = .ok st') :
    ∃ added, RoundEffect oeq ctx pends rst hist rec st st' added := by
  unfold Ame.pairRecord at h
  split at h
  · next hold =>
    cases h
    exact ⟨[], RoundEffect.oldName hold⟩
  next hold =>
  have hold : rec.isOldName = false := by simpa using hold
  split at h
  · next hne =>
    split at h
    · next prev hp => exact RoundEffect.pairInPage hinv hold hne hp h
    next hn =>
    have hopen : openOldName hist rec.fileReference = none := hinv.oldNames _ ▸ hn
    split at h
    · next k carry hc => exact RoundEffect.pairWithCarry hinv hold hne hopen hc h
    · next hc => exact RoundEffect.plainEvent (fun _ _ => ⟨hopen, hc⟩) h
  · next hne => exact RoundEffect.plainEvent (fun _ hne' => absurd hne' hne) h

end

/-! ## The loop over the records -/

instance : Std.Total fun a b : ResolvedRecord => a.fileReference.key ≤ b.fileReference.key := ⟨fun _ _ => le_total _ _⟩

instance : IsTrans ResolvedRecord fun a b => a.fileReference.key ≤ b.fileReference.key := ⟨fun _ _ _ => le_trans⟩

theorem FileReference.key_injective {a b : FileReference} (h : a.key = b.key) : a = b := by
  have hb := map_injective_iff.mpr (fun _ _ => UInt8.toNat_inj.mp) (List.cons.inj h).2
  cases a
  cases b
  congr

/-- The old names that wait are in the order of their files, one for each. -/
def FileOrdered (oldNames : List ResolvedRecord) : Prop :=
  oldNames.Pairwise (fun a b => a.fileReference.key ≤ b.fileReference.key) ∧ (oldNames.map (·.fileReference)).Nodup

theorem FileOrdered.filter (h : FileOrdered oldNames) (p : ResolvedRecord → Bool) : FileOrdered (oldNames.filter p) :=
  ⟨h.1.filter p, (filter_sublist.map _).nodup h.2⟩

theorem FileOrdered.insertOldName (h : FileOrdered oldNames) (rec : ResolvedRecord) :
    FileOrdered (insertOldName rec oldNames) := by
  have hr := h.filter fun old => old.fileReference != rec.fileReference
  refine ⟨hr.1.orderedInsert rec _, ?_⟩
  rw [Ame.insertOldName, ((perm_orderedInsert _ _ _).map _).nodup_iff, map_cons, nodup_cons]
  exact ⟨by simp, hr.2⟩

/-- Only an old name and a pair of the page change the old names that wait. -/
theorem pairRecord_fileOrdered (h : pairRecord oeq ctx pends st rec = .ok st')
    (hst : FileOrdered st.oldNames) : FileOrdered st'.oldNames := by
  unfold Ame.pairRecord at h
  split at h
  · cases h
    exact hst.insertOldName rec
  have hp (h : plainEvent oeq ctx st rec = .ok st') : FileOrdered st'.oldNames := by
    obtain ⟨cands, -, h⟩ := bind_ok h
    cases h
    exact hst
  split at h
  · split at h
    · obtain ⟨evs, -, h⟩ := bind_ok h
      cases h
      exact hst.filter _
    split at h
    · simp only [Ame.pairWithCarry] at h
      split at h
      · cases h
        exact hst
      · obtain ⟨prevPath, -, h⟩ := bind_ok h
        obtain ⟨evs, -, h⟩ := bind_ok h
        cases h
        exact hst
    · exact hp h
  · exact hp h

/-- What the state of the loop says about the events and the barrier of the records so far. -/
structure PageInv (ordinalEquals : OrdinalEquals) (ctx : SemanticRootContext)
    (pendingRenames : List NativePendingRenameCarry) (rootState : RootReadState) (history : List ResolvedRecord)
    (st : PairingState) : Prop where
  pairing : PairingInv ordinalEquals ctx pendingRenames rootState history st
  ordered : FileOrdered st.oldNames
  dated : ∀ event ∈ st.events, event.candidates ≠ [] → ∃ record ∈ history, event.DatedBy record.usn
  once : st.events.Pairwise fun a b => a.candidates ≠ [] → b.candidates ≠ [] → a.usn ≠ b.usn
  barrier : ∀ u, Reaches st.rootState.uncertaintyBarrier u ↔ Reaches rootState.uncertaintyBarrier u ∨
    ∃ before record after, history = before ++ record :: after ∧
      Unsettles ordinalEquals ctx rootState pendingRenames before record u
  misfits : ∀ u, ¬Reaches st.rootState.uncertaintyBarrier u → ∀ i,
    (∃ event ∈ st.events, event.usn = u ∧ ¬event.FitsRoot (ctx.rootStartUsns.getD i 0) i) ↔
      ∃ before record after, history = before ++ record :: after ∧ record.usn = u ∧
        Misplaces ordinalEquals ctx rootState pendingRenames before record i

/-- An event without candidates fits every root. -/
theorem fitsRoot_of_no_candidates {ev : SemanticEvent} (h : ev.candidates = []) (start : Int) (i : Nat) :
    ev.FitsRoot start i := by
  simp [SemanticEvent.FitsRoot, candidatesFor, h]

/-- What holds at a record of a longer history holds at one of the shorter history or at the last record. -/
theorem exists_split_append_singleton {p : List ResolvedRecord → ResolvedRecord → Prop} :
    (∃ before r after, hist ++ [rec] = before ++ r :: after ∧ p before r) ↔
      (∃ before r after, hist = before ++ r :: after ∧ p before r) ∨ p hist rec := by
  constructor
  · rintro ⟨before, r, after, heq, hp⟩
    rcases append_singleton_eq_iff.mp heq with ⟨-, rfl, rfl⟩ | ⟨after, -, rfl⟩
    · exact .inr hp
    · exact .inl ⟨before, r, after, rfl, hp⟩
  · rintro (⟨before, r, after, rfl, hp⟩ | hp)
    · exact ⟨before, r, after ++ [rec], by simp, hp⟩
    · exact ⟨hist, rec, [], rfl, hp⟩

/-- One round keeps the invariant, if the record is later than those before it. -/
theorem PageInv.pairRecord (hinv : PageInv oeq ctx pends rst hist st) (hl : ∀ earlier ∈ hist, earlier.usn < rec.usn)
    (h : pairRecord oeq ctx pends st rec = .ok st') :
    PageInv oeq ctx pends rst (hist ++ [rec]) st' := by
  obtain ⟨added, hef⟩ := RoundEffect.pairRecord hinv.pairing h
  have had (e : SemanticEvent) (he : e ∈ added) (hne : e.candidates ≠ []) : e.usn = rec.usn :=
    (hef.dated e he hne).1
  refine ⟨hinv.pairing.pairRecord h, pairRecord_fileOrdered h hinv.ordered, ?_, ?_, ?_, ?_⟩
  · rw [hef.events]
    intro ev hm hne
    rcases mem_append.mp hm with hm | hm
    · obtain ⟨r, hr, hd⟩ := hinv.dated ev hm hne
      exact ⟨r, mem_append_left _ hr, hd⟩
    · exact ⟨rec, by simp, hef.dated ev hm⟩
  · rw [hef.events, pairwise_append]
    refine ⟨hinv.once, ?_, fun a ha b hb hna hnb => ?_⟩
    · match added, hef.atMostOne with
      | [], _ => exact List.Pairwise.nil
      | [_], _ => exact pairwise_singleton _ _
    · obtain ⟨r, hr, hd⟩ := hinv.dated a ha hna
      rw [(hd hna).1, had b hb hnb]
      exact (hl r hr).ne
  · intro u
    rw [hef.barrier, hinv.barrier, exists_split_append_singleton, or_assoc]
  · intro u hc i
    obtain ⟨hold, hnow⟩ := not_or.mp (mt (hef.barrier u).mpr hc)
    rw [exists_split_append_singleton, ← hinv.misfits u hold i, hef.events]
    simp only [mem_append, or_and_right, exists_or]
    refine or_congr_right ?_
    by_cases hu : rec.usn = u
    · subst hu
      rw [← hef.misfits hnow i, and_iff_right rfl]
      refine exists_congr fun e => and_congr_right fun he => and_iff_right_of_imp fun hno => had e he fun hn => ?_
      exact hno (fitsRoot_of_no_candidates hn _ _)
    · refine iff_of_false ?_ fun h => hu h.1
      rintro ⟨e, he, heq, hno⟩
      exact hu ((had e he fun hn => hno (fitsRoot_of_no_candidates hn _ _)).symm.trans heq)

/-- The invariant holds after every page of records in the order of the journal. -/
theorem PageInv.of_foldlM (hr : recs.Pairwise (·.usn < ·.usn))
    (h : recs.foldlM (Ame.pairRecord oeq ctx pends) ⟨[], [], rst⟩ = .ok st) : PageInv oeq ctx pends rst recs st := by
  refine (run_of_foldlM h).invariant (I := fun hist st => hist.Pairwise (·.usn < ·.usn) →
    PageInv oeq ctx pends rst hist st) (fun _ => ?_) (fun hist s r t hs hst hp => ?_) hr
  · exact ⟨⟨fun _ => rfl, fun i => (healthyAfter_nil i).symm, Emitted.nil⟩, ⟨List.Pairwise.nil, nodup_nil⟩, by simp,
      List.Pairwise.nil, by simp, by simp⟩
  · obtain ⟨hh, -, hl⟩ := pairwise_append.mp hp
    exact (hs hh).pairRecord (fun earlier he => hl earlier he r (by simp)) hst

/-- The old names that wait after a page, by the records of the page. -/
theorem PageInv.oldNames_eq (hinv : PageInv oeq ctx pends rst recs st)
    (hre : recs.Pairwise (·.usn < ·.usn)) : st.oldNames = waitingNames recs := by
  have hu {a b : ResolvedRecord} (ha : a ∈ st.oldNames) (hb : b ∈ st.oldNames)
      (heq : a.fileReference = b.fileReference) : a = b := inj_on_of_nodup_map hinv.ordered.2 ha hb heq
  have hm (r : ResolvedRecord) : r ∈ st.oldNames ↔ openOldName recs r.fileReference = some r := by
    rw [← hinv.pairing.oldNames]
    constructor
    · intro hr
      obtain ⟨found, hf⟩ : ∃ found, st.oldNames.find? (fun old => old.fileReference == r.fileReference) = some found :=
        Option.isSome_iff_exists.mp (find?_isSome.mpr ⟨r, hr, by simp⟩)
      rw [hf, hu (mem_of_find?_eq_some hf) hr (by simpa using find?_some hf)]
    · exact mem_of_find?_eq_some
  have hrec {r : ResolvedRecord} (h : openOldName recs r.fileReference = some r) : r ∈ recs := by
    obtain ⟨hfi, -⟩ := Option.filter_eq_some_iff.mp h
    exact mem_reverse.mp (mem_of_find?_eq_some hfi)
  refine List.Perm.eq_of_pairwise ?_ hinv.ordered.1 (pairwise_insertionSort _ _) ?_
  · intro a b ha hb hab hba
    have hb : b ∈ st.oldNames := by
      rw [hm]
      simpa using (mem_filter.mp ((perm_insertionSort _ _).mem_iff.mp hb)).2
    exact hu ha hb (FileReference.key_injective (le_antisymm hab hba))
  · refine List.Perm.trans ?_ (perm_insertionSort _ _).symm
    refine (perm_ext_iff_of_nodup (List.Nodup.of_map _ hinv.ordered.2) ?_).mpr fun r => ?_
    · exact (hre.imp fun hlt heq => by simp [heq] at hlt).filter _
    · rw [hm, mem_filter]
      exact ⟨fun h => ⟨hrec h, by simpa using h⟩, fun h => by simpa using h.2⟩

/-! ## The old names that are left -/

/-- Giving roots up, one after the other. -/
theorem rootFailed_foldl_set (roots : List Nat) (e : BackendError) (cbr : RootCandidates) (i : Nat) :
    rootFailed (roots.foldl (fun cands idx => cands.set idx (.error e)) cbr) i = false ↔
      rootFailed cbr i = false ∧ i ∉ roots := by
  induction roots generalizing cbr with
  | nil => simp
  | cons root roots ih =>
    rw [foldl_cons, ih, rootFailed_set]
    simp [and_assoc]

/-- An old name that is left waiting. -/
theorem leaveOldName_spec (hst : ∀ i, rootFailed st.rootState.candidatesByRoot i = false ↔ healthy i) (old : ResolvedRecord) :
    (∀ i, rootFailed (leaveOldName oeq ctx st old).rootState.candidatesByRoot i = false ↔ StaysRead oeq ctx healthy old i) ∧
      (∀ u, Reaches (leaveOldName oeq ctx st old).rootState.uncertaintyBarrier u ↔ Reaches st.rootState.uncertaintyBarrier u ∨
          old.usn ≤ u ∧ ∃ i, healthy i ∧ ¬Comparable oeq ctx (old.path, old.usn) i) ∧
      ∃ added, (leaveOldName oeq ctx st old).events = st.events ++ added ∧ ∀ ev ∈ added, ev.candidates = [] := by
  have hb := @rootsForRenamePath_barrier oeq ctx old.path old.usn st.rootState
  have hme (i : Nat) : i ∈ (rootsForRenamePath oeq ctx old.path old.usn st.rootState).1.1 ↔ OwnedBy oeq ctx healthy old i := by
    rw [mem_rootsForRenamePath, hst]
    rfl
  have hok (i : Nat) : rootFailed (rootsForRenamePath oeq ctx old.path old.usn st.rootState).2.candidatesByRoot i =
      false ↔ healthy i ∧ Comparable oeq ctx (old.path, old.usn) i := by
    rw [rootsForRenamePath_healthy, hst]
  have hn : (rootsForRenamePath oeq ctx old.path old.usn st.rootState).1.1.Nodup := rootsForPath_nodup _ _ _
  have hs (i : Nat) (h : OwnedBy oeq ctx healthy old i → ∀ o, OwnedBy oeq ctx healthy old o → o = i) :
      rootFailed (rootsForRenamePath oeq ctx old.path old.usn st.rootState).2.candidatesByRoot i = false ↔
        StaysRead oeq ctx healthy old i := by
    rw [hok]
    exact ⟨fun h' => ⟨h'.1, h'.2, h⟩, fun h' => ⟨h'.1, h'.2.1⟩⟩
  simp only [hst] at hb
  unfold leaveOldName
  simp only
  split
  · next hno =>
    refine ⟨fun i => hs i fun hi => ?_, hb, [], (append_nil _).symm, by simp⟩
    simp [← hme, hno] at hi
  · next root hon =>
    refine ⟨fun i => hs i fun hi o hot => ?_, hb, _, rfl, by simp [pendingEvent]⟩
    rw [← hme, hon, mem_singleton] at hi hot
    exact hot.trans hi.symm
  · next hno hm =>
    refine ⟨fun i => ?_, hb, [], (append_nil _).symm, by simp⟩
    rw [rootFailed_foldl_set, hok, hme]
    constructor
    · rintro ⟨⟨hi, hc⟩, hnot⟩
      exact ⟨hi, hc, fun ho => absurd ho hnot⟩
    · rintro ⟨hi, hc, hu⟩
      refine ⟨⟨hi, hc⟩, fun ho => ?_⟩
      have hsi := (eq_singleton_iff_of_nodup hn i).mpr fun j =>
        ⟨fun hj => hu ho j ((hme j).mp hj), fun hj => hj ▸ (hme i).mpr ho⟩
      exact hm i hsi

/-- All old names that are left waiting. -/
theorem leaveOldNames_spec (oldNames : List ResolvedRecord)
    (hst : ∀ i, rootFailed st.rootState.candidatesByRoot i = false ↔ healthy i) :
    (∀ i, rootFailed (oldNames.foldl (leaveOldName oeq ctx) st).rootState.candidatesByRoot i = false ↔
        HealthyLeft oeq ctx healthy oldNames i) ∧
      (∀ u, Reaches (oldNames.foldl (leaveOldName oeq ctx) st).rootState.uncertaintyBarrier u ↔
        Reaches st.rootState.uncertaintyBarrier u ∨ UnsettlesLeft oeq ctx healthy oldNames u) ∧
      ∃ added, (oldNames.foldl (leaveOldName oeq ctx) st).events = st.events ++ added ∧ ∀ ev ∈ added, ev.candidates = [] := by
  induction oldNames generalizing st healthy with
  | nil => exact ⟨hst, by simp [UnsettlesLeft], [], (append_nil _).symm, by simp⟩
  | cons old oldNames ih =>
    obtain ⟨hok, hb, added, ha, hn⟩ := @leaveOldName_spec oeq ctx healthy st hst old
    obtain ⟨hok', hb', added', ha', hn'⟩ := ih hok
    refine ⟨hok', fun u => ?_, added ++ added', ?_, fun ev hm => ?_⟩
    · rw [foldl_cons, hb', hb, or_assoc]
      rfl
    · rw [foldl_cons, ha', ha, append_assoc]
    · exact (mem_append.mp hm).elim (hn ev) (hn' ev)

/-! ## The pairing gives nothing to the roots -/

/-- The roots that are still read have the candidates they had. -/
def OnlyGivesUp (before after : RootCandidates) : Prop :=
  ∀ (i : Nat) l, after[i]? = some (.ok l) → before[i]? = some (.ok l)

theorem OnlyGivesUp.trans {a b c : RootCandidates} (hab : OnlyGivesUp a b)
    (hbc : OnlyGivesUp b c) : OnlyGivesUp a c := fun i l h => hab i l (hbc i l h)

theorem rootsForPathWith_onlyGivesUp (path : List UInt16) (usn : Int) (roots : List Nat) (cbr : RootCandidates) :
    OnlyGivesUp cbr (rootsForPathWith oeq ctx path usn roots cbr).2 := by
  induction roots generalizing cbr with
  | nil => exact fun _ _ h => h
  | cons root roots ih =>
    rw [rootsForPathWith]
    split
    · exact ih _
    · split
      · exact ih _
      · exact ih _
      · next e _ =>
        have hs : OnlyGivesUp cbr (cbr.set root (.error e)) :=
          fun i l => getElem?_foldl_set [root] e cbr
        exact hs.trans (ih _)

/-- A record can only fail roots. -/
theorem pairRecord_onlyGivesUp (h : pairRecord oeq ctx pends st rec = .ok st') :
    OnlyGivesUp st.rootState.candidatesByRoot st'.rootState.candidatesByRoot := by
  have hl (path : List UInt16) (usn : Int) (st : RootReadState) := @rootsForPathWith_onlyGivesUp oeq ctx path usn
    (List.range ctx.roots.length) st.candidatesByRoot
  unfold Ame.pairRecord at h
  split at h
  · cases h
    exact fun _ _ h => h
  have hp (h : plainEvent oeq ctx st rec = .ok st') :
      OnlyGivesUp st.rootState.candidatesByRoot st'.rootState.candidatesByRoot := by
    obtain ⟨cands, -, h⟩ := bind_ok h
    cases h
    exact hl rec.path rec.usn st.rootState
  split at h
  · split at h
    · next prev _ =>
      obtain ⟨first, second, -, rfl, rfl, -, -, hs⟩ := pairInPage_ok h
      rw [hs]
      exact (hl prev.path prev.usn st.rootState).trans (hl rec.path rec.usn _)
    split at h
    · simp only [Ame.pairWithCarry] at h
      split at h
      · cases h
        exact hl rec.path rec.usn st.rootState
      · obtain ⟨prevPath, -, h⟩ := bind_ok h
        obtain ⟨evs, -, h⟩ := bind_ok h
        cases h
        exact hl rec.path rec.usn st.rootState
    · exact hp h
  · exact hp h

theorem leaveOldName_onlyGivesUp (old : ResolvedRecord) :
    OnlyGivesUp st.rootState.candidatesByRoot (leaveOldName oeq ctx st old).rootState.candidatesByRoot := by
  have hl := @rootsForPathWith_onlyGivesUp oeq ctx old.path old.usn (List.range ctx.roots.length) st.rootState.candidatesByRoot
  unfold leaveOldName
  simp only
  split
  · exact hl
  · exact hl
  · exact hl.trans fun i l => getElem?_foldl_set _ _ _

/-! ## The page -/

/-- What the pairing of a page says, by the records of the page. -/
theorem semanticEvents_spec {evs : List SemanticEvent} {after : RootReadState} (hr : recs.Pairwise (·.usn < ·.usn))
    (h : semanticEvents oeq ctx pends recs rst = .ok (evs, after)) :
    DatedOnce evs ∧ OnlyGivesUp rst.candidatesByRoot after.candidatesByRoot ∧
      (∀ i, rootFailed after.candidatesByRoot i = false ↔ ReadToEnd oeq ctx rst recs i) ∧
      (∀ u, Reaches after.uncertaintyBarrier u ↔ UncertainAt oeq ctx rst pends recs u) ∧
      ∀ u, ¬Reaches after.uncertaintyBarrier u → ∀ i, (∃ ev ∈ evs, ev.usn = u ∧ ¬ev.FitsRoot (ctx.rootStartUsns.getD i 0) i) ↔
          ∃ before rec after, recs = before ++ rec :: after ∧ rec.usn = u ∧ Misplaces oeq ctx rst pends before rec i := by
  obtain ⟨-, -, h⟩ := bind_ok h
  obtain ⟨st, hst, h⟩ := bind_ok h
  cases h
  have hinv := PageInv.of_foldlM hr hst
  obtain ⟨hok, hba, added, had, hno⟩ :=
    @leaveOldNames_spec oeq ctx _ st st.oldNames hinv.pairing.healthy
  have hca : OnlyGivesUp rst.candidatesByRoot st.rootState.candidatesByRoot :=
    (run_of_foldlM hst).state_invariant (I := fun s => OnlyGivesUp rst.candidatesByRoot s.rootState.candidatesByRoot)
      (fun _ _ h => h) fun _ _ _ hs hste => hs.trans (pairRecord_onlyGivesUp hste)
  have hl (l : List ResolvedRecord) (s : PairingState) : OnlyGivesUp s.rootState.candidatesByRoot
      (l.foldl (leaveOldName oeq ctx) s).rootState.candidatesByRoot := by
    induction l generalizing s with
    | nil => exact fun _ _ h => h
    | cons old l ih => exact (leaveOldName_onlyGivesUp old).trans (ih _)
  refine ⟨⟨?_, ?_⟩, hca.trans (hl _ _), fun i => ?_, fun u => ?_, fun u hcl i => ?_⟩
  · rw [had]
    intro ev hm cand hc
    rcases mem_append.mp hm with hm | hm
    · obtain ⟨r, -, hd⟩ := hinv.dated ev hm (ne_nil_of_mem hc)
      obtain ⟨heq, hal⟩ := hd (ne_nil_of_mem hc)
      rw [heq, hal cand hc]
    · simp [hno ev hm] at hc
  · rw [had, pairwise_append]
    have hn : added.Pairwise fun a b => a.candidates ≠ [] → b.candidates ≠ [] → a.usn ≠ b.usn :=
      List.Pairwise.imp_of_mem (fun ha _ _ hna => absurd (hno _ ha) hna) (pairwise_of_forall fun _ _ => trivial)
    exact ⟨hinv.once, hn, fun a _ b hb _ hnb => absurd (hno b hb) hnb⟩
  · rw [ReadToEnd, ← hinv.oldNames_eq hr, hok]
  · rw [UncertainAt, ← hinv.oldNames_eq hr, hba, hinv.barrier, or_assoc]
  · have hbe : ¬Reaches st.rootState.uncertaintyBarrier u := fun h => hcl ((hba u).mpr (.inl h))
    rw [← hinv.misfits u hbe i, had]
    simp only [mem_append, or_and_right, exists_or]
    refine or_iff_left ?_
    rintro ⟨ev, hm, -, hnot⟩
    exact hnot (fitsRoot_of_no_candidates (hno ev hm) _ _)

/-- Every page that is kept of some records has the candidates of each root in the order of the journal, whatever the limits,
exactly if no record of the certain part of the page misplaces a candidate of a root that is read to the end. -/
theorem kept_in_order_iff {records : List ResolvedRecord} {events : List SemanticEvent} {after : RootReadState}
    (hrecords : records.Pairwise (·.usn < ·.usn))
    (hfresh : ∀ (i : Nat) l, rootState.candidatesByRoot[i]? = some (.ok l) → l = [])
    (h : semanticEvents ordinalEquals ctx pendingRenames records rootState = .ok (events, after)) :
    (∀ rawCovered maxRecords maxEvidence page,
        keepPage ordinalEquals ctx pendingRenames records rootState rawCovered maxRecords maxEvidence = .ok page →
          ∀ (i : Nat) l, page.candidatesByRoot[i]? = some (.ok l) → InOrder (ctx.rootStartUsns.getD i 0) l) ↔
      ¬SpoilsOrder ordinalEquals ctx rootState pendingRenames records := by
  obtain ⟨hd, hg, hr, hb, hm⟩ := semanticEvents_spec hrecords h
  simp only [keepPage, h]
  refine (applySemanticLimits_inOrder_iff hd fun i l hl => hfresh i l (hg i l hl)).trans ?_
  constructor
  · rintro hf ⟨before, record, rest, i, heq, hmi, he, hs⟩
    have hc : ¬Reaches after.uncertaintyBarrier record.usn := fun h => hs ((hb _).mp h)
    obtain ⟨event, hme, hu, hn⟩ := (hm _ hc i).mpr ⟨before, record, rest, heq, rfl, hmi⟩
    exact hn (hf event hme i ((hr i).mpr he) (hu ▸ hc))
  · intro hgo event hme i hok hc
    by_contra hn
    obtain ⟨before, record, rest, heq, hu, hmi⟩ := (hm event.usn hc i).mp ⟨event, hme, rfl, hn⟩
    exact hgo ⟨before, record, rest, i, heq, hmi, (hr i).mp hok, fun h => hc (hu ▸ (hb _).mpr h)⟩

end

/-! ## A root inside another one -/

/-- A root inside the root of the other examples. -/
def albumRoot : PinnedRootState := ⟨"volume", utf16Text "C:\\music\\a", [.ordinalCaseSensitive, .ordinalCaseSensitive]⟩

/-- A file in it that gets a new name. -/
def renamedTrack : List ResolvedRecord :=
  [⟨utf16Text "C:\\music\\a\\x.jpg", movedFile, 5, 0x1000, false⟩, ⟨utf16Text "C:\\music\\a\\y.jpg", movedFile, 6, 0x2000, false⟩]

/-- What a page keeps of the rename, for some roots. -/
def keptRename (roots : List PinnedRootState) : Except BackendError LimitedPage :=
  keepPage noOrdinalEquals ⟨roots, roots.map fun _ => 0⟩ [] renamedTrack
    ⟨roots.map fun _ => .ok [], none, roots.map fun _ => none⟩ 10 16 4096

/-- With one root the page is in order. -/
theorem kept_in_order_iff_single : ∃ events after,
    semanticEvents noOrdinalEquals ⟨[musicRoot], [0]⟩ [] renamedTrack ⟨[.ok []], none, [none]⟩ = .ok (events, after) ∧
    ((∀ rawCovered maxRecords maxEvidence page,
        keepPage noOrdinalEquals ⟨[musicRoot], [0]⟩ [] renamedTrack ⟨[.ok []], none, [none]⟩ rawCovered maxRecords
            maxEvidence = .ok page →
          ∀ (i : Nat) l, page.candidatesByRoot[i]? = some (.ok l) → InOrder (([0] : List Int).getD i 0) l) ↔
      ¬SpoilsOrder noOrdinalEquals ⟨[musicRoot], [0]⟩ ⟨[.ok []], none, [none]⟩ [] renamedTrack) := by
  have hok : (semanticEvents noOrdinalEquals ⟨[musicRoot], [0]⟩ [] renamedTrack ⟨[.ok []], none, [none]⟩).isOk = true := by
    decide +kernel
  cases h : semanticEvents noOrdinalEquals ⟨[musicRoot], [0]⟩ [] renamedTrack ⟨[.ok []], none, [none]⟩ with
  | error e => rw [h] at hok; cases hok
  | ok page =>
    refine ⟨page.1, page.2, rfl, kept_in_order_iff (by decide) (fun i l hl => ?_) h⟩
    match i, hl with
    | 0, hl => exact (Except.ok.inj (Option.some.inj hl)).symm

/-- With a root inside the other one both roots get the old name and the new name, with one coordinate. -/
theorem kept_out_of_order : renamedTrack.Pairwise (·.usn < ·.usn) ∧ ∃ page, keptRename [musicRoot, albumRoot] = .ok page ∧
      ∃ l, page.candidatesByRoot[1]? = some (.ok l) ∧ ¬InOrder 0 l := by
  refine ⟨by decide, ?_⟩
  have ht : (keptRename [musicRoot, albumRoot]).map (fun page => page.candidatesByRoot.map fun candidates =>
      candidates.map fun l => l.map (·.usn)) = .ok [.ok [6, 6], .ok [6, 6]] := by decide +kernel
  cases h : keptRename [musicRoot, albumRoot] with
  | error e => rw [h] at ht; cases ht
  | ok page =>
    rw [h] at ht
    have hb := congrArg (fun l => l[1]?) (Except.ok.inj ht)
    simp only [getElem?_map] at hb
    obtain ⟨candidates, hl, hu⟩ := Option.map_eq_some_iff.mp hb
    cases candidates with
    | error e => cases hu
    | ok l =>
      refine ⟨page, rfl, l, hl, fun ho => ?_⟩
      have hp := pairwise_map.mpr ho.1
      rw [show l.map (·.usn) = [6, 6] from Except.ok.inj hu] at hp
      simp at hp

end Ame
