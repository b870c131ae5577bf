import Ame.Synchronization.Plan
import Ame.Lib.Result

/-!
# A plan keeps every change

Planning merges intents by their keys and lets directories absorb what lies below them. Whatever an observation named is still
denoted by an intent of the plan, unless the plan is the one intent over the whole root.
-/

namespace Ame

open List PathRegion Result

variable {a b intent : LibraryChangeIntent} {intents : List AccumulatedIntent} {eid i : Nat}
  {ctx : LibraryChangePlanningContext} {seen : List LibraryChangeObservation} {st : PlanState} {path p : String}

/-- What was observed is denoted by some of the intents: the observed path, which has a normal form, the previous path of a
rename, and everything at or below a changed directory. -/
structure Accounted (intents : List LibraryChangeIntent) (observation : LibraryChangeObservation) : Prop where
  normal : (normalizeRelativePath observation.relativePath).isSome = true
  path : ∀ p, normalizeRelativePath observation.relativePath = some p → Denotes intents p
  previous : observation.kind.isRenamed = true → ∀ previous p, observation.previousRelativePath = some previous →
    normalizeRelativePath previous = some p → Denotes intents p
  directory : observation.kind = .directoryChanged → ∀ p x, normalizeRelativePath observation.relativePath = some p →
    isWithinPlannedSubtree x p = true → Denotes intents x

/-- More work accounts for no less. -/
theorem Accounted.mono {intents more : List LibraryChangeIntent} {obs : LibraryChangeObservation}
    (h : Accounted intents obs) (hs : ∀ p, Denotes intents p → Denotes more p) : Accounted more obs where
  normal := h.normal
  path := fun p hp => hs p (h.path p hp)
  previous := fun hk prev p hpr hp => hs p (h.previous hk prev p hpr hp)
  directory := fun hk p x hp hx => hs x (h.directory hk p x hp hx)

/-- The shape of the intents that planning makes: only a rename candidate has a previous path, which is not empty, and only the
root has an empty path. -/
structure Planned (intent : LibraryChangeIntent) : Prop where
  reconcile : intent.kind = .reconcile → intent.previousRelativePath = none
  previous : intent.previousRelativePath ≠ some ""
  path : intent.scope ≠ .root → intent.relativePath ≠ ""

/-- The observation names a path: it is the normal form of its path or of its previous path. -/
def LibraryChangeObservation.Names (observation : LibraryChangeObservation) (path : String) : Prop :=
  ∃ raw, (raw = observation.relativePath ∨ observation.previousRelativePath = some raw) ∧
    normalizeRelativePath raw = some path ∧ path ≠ ""

/-! ## One observation -/

section

variable {obs : LibraryChangeObservation} {rel : String} {prevRel : Option String}

/-- What is known when an observation can be planned. -/
theorem observedPaths_ok (h : observedPaths obs = .ok (rel, prevRel)) : normalizeRelativePath obs.relativePath = some rel ∧
      (rel = "" → obs.kind = .directoryChanged) ∧
      (obs.kind.isRenamed = true → obs.scope ≠ .root →
        ∃ prev p, obs.previousRelativePath = some prev ∧ normalizeRelativePath prev = some p ∧
          prevRel = some p) ∧ prevRel ≠ some "" := by
  unfold observedPaths at h
  split at h
  · cases h
  split at h
  · cases h
  next path hpa =>
  split at h
  · cases h
  next he =>
  have hd : path = "" → obs.kind = .directoryChanged := by
    intro heq
    subst heq
    simpa using he
  split at h
  · next hr =>
    split at h
    · cases h
    next prev hpr =>
    split at h
    · cases h
    · next p hp =>
      cases h
      obtain ⟨hn, hne⟩ := Option.filter_eq_some_iff.mp hp
      refine ⟨hpa, hd, fun _ _ => ⟨prev, p, hpr, hn, rfl⟩, ?_⟩
      intro heq
      rw [Option.some.inj heq] at hne
      cases hne
  · next hr =>
    cases h
    refine ⟨hpa, hd, fun hk hs => ?_, by simp⟩
    simp [hk, hs] at hr

theorem newIntent_denote (kind : LibraryChangeIntentKind) {scope : LibraryChangeScope} (path : String)
    (prev : Option String) (p : String) (hp : p = path ∨ prev = some p) :
    (newIntent ctx obs kind scope path prev).denote p := by
  have hm : p ∈ affectedPaths (newIntent ctx obs kind scope path prev) := mem_affectedPaths.mpr hp
  cases scope with
  | root => exact denote_of_root rfl p
  | subtree => exact (denote_subtree_iff rfl p).mpr ⟨p, hm, Within.refl _ _⟩
  | path => exact (denote_path_iff rfl p).mpr hm

section

variable (h : observedPaths obs = .ok (rel, prevRel))

include h

/-- The intents of an observation account for it. -/
theorem normalizedIntents_accounted : Accounted (normalizedIntents ctx obs rel prevRel) obs := by
  obtain ⟨hpa, he, hr, -⟩ := observedPaths_ok h
  have hso : (normalizeRelativePath obs.relativePath).isSome = true := by rw [hpa]; rfl
  unfold normalizedIntents
  simp only
  split
  · -- the whole root
    have ha (p : String) : Denotes [newIntent ctx obs .reconcile .root "" none] p :=
      ⟨_, mem_singleton_self _, denote_of_root rfl p⟩
    exact ⟨hso, fun p _ => ha p, fun _ _ p _ _ => ha p, fun _ _ x _ _ => ha x⟩
  next hsc =>
  have ho : obs.scope ≠ .root := by
    intro heq
    simp [plannedScope, heq] at hsc
  have hf {intents : List LibraryChangeIntent} {i : LibraryChangeIntent} (hi : i ∈ intents)
      (hd : i.denote rel) (p : String) (hp : normalizeRelativePath obs.relativePath = some p) :
      Denotes intents p := by
    obtain rfl := Option.some.inj (hpa.symm.trans hp)
    exact ⟨i, hi, hd⟩
  split
  · next paired hki =>
    obtain ⟨prev, p, hpr, hn, rfl⟩ := hr (by rw [hki]; rfl) ho
    have hs {intents : List LibraryChangeIntent} {i : LibraryChangeIntent} (hi : i ∈ intents) (hd : i.denote p)
        (prev' p' : String) (hpr' : obs.previousRelativePath = some prev')
        (hp' : normalizeRelativePath prev' = some p') : Denotes intents p' := by
      obtain rfl := Option.some.inj (hpr.symm.trans hpr')
      obtain rfl := Option.some.inj (hn.symm.trans hp')
      exact ⟨i, hi, hd⟩
    have hno {α : Prop} (hdi : obs.kind = .directoryChanged) : α := by
      rw [hki] at hdi
      cases hdi
    split
    · next hsa =>
      obtain rfl := Option.some.inj hsa
      have hd := @newIntent_denote ctx obs .reconcile (plannedScope obs p) p none p (.inl rfl)
      exact ⟨hso, hf (mem_singleton_self _) hd, fun _ => hs (mem_singleton_self _) hd, hno⟩
    split
    · exact ⟨hso, hf (mem_singleton_self _) (newIntent_denote _ _ _ _ (.inl rfl)),
        fun _ => hs (mem_singleton_self _) (newIntent_denote _ _ _ _ (.inr rfl)), hno⟩
    · exact ⟨hso, hf (mem_append_right _ (mem_singleton_self _)) (newIntent_denote _ _ _ _ (.inl rfl)),
        fun _ => hs (mem_append_left _ (mem_singleton_self _)) (newIntent_denote _ _ _ _ (.inl rfl)), hno⟩
  · next hnot =>
    refine ⟨hso, hf (mem_singleton_self _) (newIntent_denote _ _ _ _ (.inl rfl)), fun hki => ?_, fun hki p x hp hx => ?_⟩
    · cases hk : obs.kind with
      | renamed paired => exact absurd hk (hnot paired)
      | _ => rw [hk] at hki; cases hki
    · obtain rfl := Option.some.inj (hpa.symm.trans hp)
      have hne : rel ≠ "" := by
        rintro rfl
        simp [plannedScope] at hsc
      have hsu : plannedScope obs rel = .subtree := by
        unfold plannedScope
        rw [if_neg (by simp [hne, ho]), hki]
      rw [hsu]
      refine ⟨_, mem_singleton_self _, (denote_subtree_iff rfl x).mpr ⟨rel, by simp [newIntent], ?_⟩⟩
      simp only [isWithinPlannedSubtree, Bool.or_eq_true, String.isEmpty_iff] at hx
      exact (isWithinSubtree_iff x rel).mp (hx.resolve_left hne)

/-- What the intents of an observation are: one over the root, or reconciles of the paths it names, or one rename between
them. -/
theorem mem_normalizedIntents (hm : intent ∈ normalizedIntents ctx obs rel prevRel) :
    intent = newIntent ctx obs .reconcile .root "" none ∨ ∃ scope path, scope ≠ .root ∧ obs.Names path ∧
        (intent = newIntent ctx obs .reconcile scope path none ∨ ∃ prev, obs.Names prev ∧
          prev ≠ path ∧ intent = newIntent ctx obs .renameCandidate scope path (some prev)) := by
  obtain ⟨hnor, -, hr, hno⟩ := observedPaths_ok h
  unfold normalizedIntents at hm
  simp only at hm
  split at hm
  · exact .inl (mem_singleton.mp hm)
  next hs =>
  have hn : obs.Names rel := by
    refine ⟨_, .inl rfl, hnor, ?_⟩
    rintro rfl
    simp [plannedScope] at hs
  refine .inr ?_
  split at hm
  · next paired hk =>
    have ho : obs.scope ≠ .root := by
      intro heq
      simp [plannedScope, heq] at hs
    obtain ⟨raw, prev, hra, hp, rfl⟩ := hr (by rw [hk]; rfl) ho
    have hnp : obs.Names prev := ⟨raw, .inr hra, hp, fun heq => hno (by rw [heq])⟩
    split at hm
    · exact ⟨_, _, hs, hn, .inl (mem_singleton.mp hm)⟩
    next hne =>
    split at hm
    · exact ⟨_, _, hs, hn, .inr ⟨prev, hnp, fun heq => hne (by rw [heq]), mem_singleton.mp hm⟩⟩
    · rcases mem_append.mp hm with hm | hm
      · exact ⟨_, _, hs, hnp, .inl (by simpa using hm)⟩
      · exact ⟨_, _, hs, hn, .inl (mem_singleton.mp hm)⟩
  · exact ⟨_, _, hs, hn, .inl (mem_singleton.mp hm)⟩

/-- The intents of an observation have the shape of planned ones. -/
theorem normalizedIntents_planned : ∀ intent ∈ normalizedIntents ctx obs rel prevRel, Planned intent := by
  intro intent hm
  rcases mem_normalizedIntents h hm with rfl | ⟨scope, path, hs, ⟨-, -, -, hpa⟩, rfl | ⟨prev, ⟨-, -, -, hp⟩, -, rfl⟩⟩
  · exact ⟨fun _ => rfl, by simp [newIntent], fun hne => absurd rfl hne⟩
  · exact ⟨fun _ => rfl, by simp [newIntent], fun _ => hpa⟩
  · exact ⟨fun hk => (by cases hk), fun heq => hp (Option.some.inj heq), fun _ => hpa⟩

end

end

/-! ## Merging -/

/-- The intents of a list of gathered ones. -/
abbrev gatheredIntents (intents : List AccumulatedIntent) : List LibraryChangeIntent := intents.map (·.intent)

/-- What the gathered intents satisfy: each has the shape of a planned one, and their keys differ. -/
structure WellGathered (intents : List AccumulatedIntent) : Prop where
  planned : ∀ accumulated ∈ intents, Planned accumulated.intent
  distinct : (intents.map fun accumulated => intentKey accumulated.intent).Nodup

/-- Planned intents with one key have the same scope and paths. -/
theorem eq_of_intentKey (ha : Planned a) (hb : Planned b) (h : intentKey a = intentKey b) :
    a.scope = b.scope ∧ a.relativePath = b.relativePath ∧ a.previousRelativePath = b.previousRelativePath := by
  obtain ⟨-, hsc, hpr, hpat⟩ := IntentKey.mk.inj h
  refine ⟨?_, hpat, ?_⟩
  · cases hs : a.scope <;> cases hs' : b.scope <;> simp_all [LibraryChangeScope.rank]
  · have hpa := ha.previous
    have hpb := hb.previous
    cases hp : a.previousRelativePath <;> cases hp' : b.previousRelativePath <;> simp_all

theorem Planned.congr (h : Planned a) (hki : b.kind = a.kind) (hsc : b.scope = a.scope)
    (hpa : b.relativePath = a.relativePath) (hp : b.previousRelativePath = a.previousRelativePath) : Planned b :=
  ⟨fun hk => hp.trans (h.reconcile (hki ▸ hk)), hp ▸ h.previous, fun hs => hpa ▸ h.path (hsc ▸ hs)⟩

/-- Merging an intent keeps the gathered ones in shape. -/
theorem mergeIntent_wellGathered
    (h : WellGathered intents) (hi : Planned intent) : WellGathered (mergeIntent intents intent eid) := by
  unfold mergeIntent
  split
  · constructor
    · intro acc hm
      obtain ⟨old, hold, rfl⟩ := mem_map.mp hm
      split
      · exact (h.planned old hold).congr rfl rfl rfl rfl
      · exact h.planned old hold
    · rw [map_map]
      have hk : ((fun acc : AccumulatedIntent => intentKey acc.intent) ∘ fun acc =>
          if intentKey acc.intent = intentKey intent then
            (⟨mergeIntoExisting acc.intent intent, insertEvidenceId acc.evidenceIds eid⟩ : AccumulatedIntent)
          else acc) = fun acc => intentKey acc.intent := by
        funext acc
        simp only [Function.comp_apply]
        split <;> rfl
      rw [hk]
      exact h.distinct
  · next hn =>
    constructor
    · intro acc hm
      rcases mem_orderedInsert _ |>.mp hm with rfl | hm
      · exact hi
      · exact h.planned acc hm
    · rw [((perm_orderedInsert _ _ _).map _).nodup_iff, map_cons, nodup_cons]
      refine ⟨?_, h.distinct⟩
      intro hin
      obtain ⟨acc, hm, hke⟩ := mem_map.mp hin
      exact hn (any_eq_true.mpr ⟨acc, hm, by simpa using hke⟩)

/-- Merging an intent loses nothing: what was denoted before is, and what the intent denotes. -/
theorem mergeIntent_denotes (h : WellGathered intents) (hin : Planned intent) (p : String)
    (hp : Denotes (gatheredIntents intents) p ∨ intent.denote p) :
    Denotes (gatheredIntents (mergeIntent intents intent eid)) p := by
  unfold mergeIntent
  split
  · next hold =>
    -- a known key: the intent with that key keeps its scope and paths
    have hm (acc : AccumulatedIntent) (hme : acc ∈ intents) (hd : acc.intent.denote p) :
        Denotes (gatheredIntents (intents.map fun acc =>
          if intentKey acc.intent = intentKey intent then
            ⟨mergeIntoExisting acc.intent intent, insertEvidenceId acc.evidenceIds eid⟩
          else acc)) p := by
      refine ⟨_, mem_map_of_mem (mem_map_of_mem hme), ?_⟩
      split
      · exact (denote_congr rfl rfl rfl p).mpr hd
      · exact hd
    rcases hp with ⟨i, hi, hd⟩ | hd
    · obtain ⟨acc, hme, rfl⟩ := mem_map.mp hi
      exact hm acc hme hd
    · obtain ⟨acc, hme, hk⟩ := any_eq_true.mp hold
      obtain ⟨hs, hpa, hpr⟩ := eq_of_intentKey (h.planned _ hme) hin (by simpa using hk)
      exact hm acc hme ((denote_congr hs hpa hpr p).mpr hd)
  · have hme {acc : AccumulatedIntent} (h : acc = ⟨intent, [eid]⟩ ∨ acc ∈ intents) :
        acc.intent ∈ gatheredIntents (intents.orderedInsert
          (fun a b => (intentKey a.intent).compareTo (intentKey b.intent) ≠ .gt) ⟨intent, [eid]⟩) :=
      mem_map_of_mem ((mem_orderedInsert _).mpr h)
    rcases hp with ⟨i, hi, hd⟩ | hd
    · obtain ⟨acc, ha, rfl⟩ := mem_map.mp hi
      exact ⟨_, hme (.inr ha), hd⟩
    · exact ⟨_, hme (.inl rfl), hd⟩

/-- Merging the intents of an observation, one after the other. -/
theorem foldl_mergeIntent {news : List LibraryChangeIntent} (h : WellGathered intents) (hn : ∀ intent ∈ news, Planned intent) :
    WellGathered (news.foldl (fun intents intent => mergeIntent intents intent eid) intents) ∧
      ∀ p, Denotes (gatheredIntents intents) p ∨ Denotes news p →
        Denotes (gatheredIntents (news.foldl (fun intents intent => mergeIntent intents intent eid) intents)) p := by
  induction news generalizing intents with
  | nil =>
    refine ⟨h, ?_⟩
    rintro p (hp | ⟨i, hi, -⟩)
    · exact hp
    · cases hi
  | cons intent news ih =>
    obtain ⟨hin, hn⟩ := forall_mem_cons.mp hn
    have hm : WellGathered (mergeIntent intents intent eid) := mergeIntent_wellGathered h hin
    obtain ⟨hwell, hk⟩ := ih hm hn
    refine ⟨hwell, ?_⟩
    rintro p (hp | ⟨i, hi, hd⟩)
    · exact hk p (.inl (mergeIntent_denotes h hin p (.inl hp)))
    · rcases mem_cons.mp hi with rfl | hi
      · exact hk p (.inl (mergeIntent_denotes h hin p (.inr hd)))
      · exact hk p (.inr ⟨i, hi, hd⟩)

/-! ## The loop over the observations -/

/-- What the loop knows about the observations so far. -/
structure Gathered (context : LibraryChangePlanningContext) (seen : List LibraryChangeObservation) (st : PlanState) : Prop where
  well : WellGathered st.intents
  accounted : st.mustReconcileRoot = true ∨
    ∀ observation ∈ seen, context.owns observation = true → Accounted (gatheredIntents st.intents) observation

/-- One round. -/
theorem Gathered.planObservation (h : Gathered ctx seen st) (obs : LibraryChangeObservation) :
    Gathered ctx (seen ++ [obs]) (planObservation ctx st obs) := by
  have hs {p : LibraryChangeObservation → Prop} (hold : ∀ o ∈ seen, p o) (hn : p obs) : ∀ o ∈ seen ++ [obs], p o := by
    intro o ho
    rcases mem_append.mp ho with ho | ho
    · exact hold o ho
    · exact mem_singleton.mp ho ▸ hn
  unfold Ame.planObservation
  split
  · next hf =>
    refine ⟨h.well, h.accounted.imp id fun hold => hs hold fun how => ?_⟩
    simp [how] at hf
  · split
    · exact ⟨h.well, .inl rfl⟩
    · next rel prevRel hpa =>
      have hpl := @normalizedIntents_planned ctx obs rel prevRel hpa
      obtain ⟨hwell, hk⟩ := @foldl_mergeIntent st.intents st.observationEvidence.length _ h.well hpl
      refine ⟨hwell, h.accounted.imp id fun hold => hs (fun o ho how => ?_) fun _ => ?_⟩
      · exact (hold o ho how).mono fun p hp => hk p (.inl hp)
      · exact (normalizedIntents_accounted hpa).mono fun p hp => hk p (.inr hp)

/-- All rounds. -/
theorem Gathered.foldl (observations : List LibraryChangeObservation) (h : Gathered ctx seen st) :
    Gathered ctx (seen ++ observations) (observations.foldl (Ame.planObservation ctx) st) := by
  induction observations generalizing seen st with
  | nil => simpa using h
  | cons obs observations ih =>
    have := ih (h.planObservation obs)
    rwa [append_assoc] at this

/-! ## Compaction -/

/-- A directory above a path, or the path itself. -/
theorem within_of_mem_ancestorPaths {ancestor : String} (h : ancestor ∈ ancestorPaths path) :
    Within '/' path.toList ancestor.toList := by
  rcases mem_append.mp h with h | h
  · obtain ⟨⟨c, i⟩, hc, rfl⟩ := mem_map.mp h
    obtain ⟨hm, hs⟩ := mem_filter.mp hc
    rw [mem_zipIdx_iff_getElem?] at hm
    refine .inr ?_
    have hch : path.toList[i]? = some '/' := by
      rw [show c = '/' from beq_iff_eq.mp hs] at hm
      exact hm
    obtain ⟨hlt, heq⟩ := List.getElem?_eq_some_iff.mp hch
    refine ⟨path.toList.drop (i + 1), ?_⟩
    rw [String.toList_ofList, append_assoc, singleton_append, ← heq, getElem_cons_drop, take_append_drop]
  · rw [mem_singleton.mp h]
    exact Within.refl _ _

/-- A directory of the map is a gathered one. -/
theorem lookupSubtree_some (h : lookupSubtree (subtreeIndexes intents) path = some i) :
    ∃ target, intents[i]? = some target ∧ isSubtreeReconcile target.intent = true ∧ target.intent.relativePath = path := by
  obtain ⟨e, hfi, rfl⟩ := Option.map_eq_some_iff.mp h
  have hp := find?_some hfi
  have hm := mem_reverse.mp (mem_of_find?_eq_some hfi)
  obtain ⟨⟨target, j⟩, hf, rfl⟩ := mem_map.mp hm
  obtain ⟨hz, hs⟩ := mem_filter.mp hf
  rw [mem_zipIdx_iff_getElem?] at hz
  exact ⟨target, by simpa using hz, hs, by simpa using hp⟩

/-- The directory that absorbs an intent: another gathered one, that has the intent's paths at or below it. -/
theorem coveringSubtreeIndex_some {idx target : Nat}
    (hwell : WellGathered intents) (h : coveringSubtreeIndex idx intent (subtreeIndexes intents) = some target) :
    target ≠ idx ∧ intent.scope ≠ .root ∧ ∃ covering, intents[target]? = some covering ∧
    isSubtreeReconcile covering.intent = true ∧
      ∀ p ∈ affectedPaths intent, Within '/' p.toList covering.intent.relativePath.toList := by
  unfold coveringSubtreeIndex at h
  split at h
  · cases h
  next hsc =>
  obtain ⟨⟨path, i⟩, hf, hw⟩ := Option.bind_eq_some_iff.mp h
  split at hw
  swap
  · cases hw
  next hpr =>
  obtain rfl := Option.some.inj hw
  have hne := find?_some hf
  obtain ⟨ancestor, ha, he⟩ := mem_filterMap.mp (mem_of_find?_eq_some hf)
  obtain ⟨j, hl, hpa⟩ := Option.map_eq_some_iff.mp he
  obtain ⟨rfl, rfl⟩ := Prod.mk.inj hpa
  obtain ⟨covering, hg, hs, rfl⟩ := lookupSubtree_some hl
  refine ⟨by simpa using hne, fun hr => hsc (.inl hr), covering, hg, hs, ?_⟩
  intro p hp
  rcases mem_affectedPaths.mp hp with rfl | hp
  · exact within_of_mem_ancestorPaths ha
  · have hm := mem_of_getElem? hg
    have hso : covering.intent.relativePath ≠ "" := by
      refine (hwell.planned covering hm).path ?_
      simp only [isSubtreeReconcile, Bool.and_eq_true, beq_iff_eq] at hs
      simp [hs.2]
    rw [hp, Option.all_some, isWithinPlannedSubtree, Bool.or_eq_true, String.isEmpty_iff] at hpr
    exact (isWithinSubtree_iff p _).mp (hpr.resolve_left hso)

/-- An absorbed intent denotes nothing that its directory does not. -/
theorem denote_of_covering {covering : LibraryChangeIntent} (hsc : intent.scope ≠ .root)
    (hsu : isSubtreeReconcile covering = true)
    (hw : ∀ p ∈ affectedPaths intent, Within '/' p.toList covering.relativePath.toList) {x : String}
    (hx : intent.denote x) : covering.denote x := by
  simp only [isSubtreeReconcile, Bool.and_eq_true, beq_iff_eq] at hsu
  refine (denote_subtree_iff hsu.2 x).mpr ⟨covering.relativePath, mem_affectedPaths.mpr (.inl rfl), ?_⟩
  cases hs : intent.scope with
  | root => exact absurd hs hsc
  | subtree =>
    obtain ⟨q, hq, hxq⟩ := (denote_subtree_iff hs x).mp hx
    exact hxq.trans (hw q hq)
  | path => exact hw x ((denote_path_iff hs x).mp hx)

section

variable (hwell : WellGathered intents)

include hwell

/-- Two gathered directories with one path are one. -/
theorem index_eq_of_path {j : Nat} {a b : AccumulatedIntent} (ha : intents[i]? = some a)
    (hb : intents[j]? = some b) (hsa : isSubtreeReconcile a.intent = true) (hsb : isSubtreeReconcile b.intent = true)
    (hp : a.intent.relativePath = b.intent.relativePath) : i = j := by
  simp only [isSubtreeReconcile, Bool.and_eq_true, beq_iff_eq] at hsa hsb
  have hpa := (hwell.planned a (mem_of_getElem? ha)).reconcile hsa.1
  have hpb := (hwell.planned b (mem_of_getElem? hb)).reconcile hsb.1
  have hk : intentKey a.intent = intentKey b.intent := by
    simp [intentKey, hsa.1, hsb.1, hsa.2, hsb.2, hpa, hpb, hp]
  have hi : (intents.map fun acc => intentKey acc.intent)[i]? = some (intentKey a.intent) := by simp [ha]
  have hj : (intents.map fun acc => intentKey acc.intent)[j]? = some (intentKey a.intent) := by
    simp [hb, hk]
  obtain ⟨hil, hie⟩ := List.getElem?_eq_some_iff.mp hi
  obtain ⟨hjl, hje⟩ := List.getElem?_eq_some_iff.mp hj
  exact (List.Nodup.getElem_inj_iff hwell.distinct).mp (hie.trans hje.symm)

/-- Every gathered directory is covered by one that is not absorbed: the absorbing paths get shorter. -/
theorem subtree_covered (n : Nat) :
    ∀ (i : Nat) (a : AccumulatedIntent), intents[i]? = some a → isSubtreeReconcile a.intent = true →
      a.intent.relativePath.toList.length ≤ n →
      ∃ j b, intents[j]? = some b ∧ coveringSubtreeIndex j b.intent (subtreeIndexes intents) = none ∧
        ∀ x, a.intent.denote x → b.intent.denote x := by
  induction n with
  | zero =>
    intro i a ha hs hl
    simp only [isSubtreeReconcile, Bool.and_eq_true, beq_iff_eq] at hs
    have hpa := (hwell.planned a (mem_of_getElem? ha)).path (by simp [hs.2])
    exact absurd (String.toList_eq_nil_iff.mp (eq_nil_of_length_eq_zero (Nat.le_zero.mp hl))) hpa
  | succ n ih =>
    intro i a ha hs hl
    cases hc : coveringSubtreeIndex i a.intent (subtreeIndexes intents) with
    | none => exact ⟨i, a, ha, hc, fun x hx => hx⟩
    | some target =>
      obtain ⟨hne, hsc, covering, hg, hsu, hw⟩ := coveringSubtreeIndex_some hwell hc
      have ho := hw a.intent.relativePath (mem_affectedPaths.mpr (.inl rfl))
      have hsh : covering.intent.relativePath.toList.length ≤ n := by
        rcases ho with heq | hp
        · exact absurd (index_eq_of_path hwell hg ha hsu hs (String.toList_inj.mp heq).symm) hne
        · have hle := hp.length_le
          rw [length_append, length_singleton] at hle
          omega
      obtain ⟨j, b, hb, hn, hk⟩ := ih target covering hg hsu hsh
      exact ⟨j, b, hb, hn, fun x hx => hk x (denote_of_covering hsc hsu hw hx)⟩

/-- Every gathered intent is covered by one that is not absorbed. -/
theorem intent_covered {a : AccumulatedIntent} (ha : intents[i]? = some a) :
    ∃ j b, intents[j]? = some b ∧ coveringSubtreeIndex j b.intent (subtreeIndexes intents) = none ∧
      ∀ x, a.intent.denote x → b.intent.denote x := by
  cases hc : coveringSubtreeIndex i a.intent (subtreeIndexes intents) with
  | none => exact ⟨i, a, ha, hc, fun x hx => hx⟩
  | some target =>
    obtain ⟨-, hs, covering, hg, hsu, hw⟩ := coveringSubtreeIndex_some hwell hc
    obtain ⟨j, b, hb, hn, hk⟩ := subtree_covered hwell _ target covering hg hsu (le_refl _)
    exact ⟨j, b, hb, hn, fun x hx => hk x (denote_of_covering hs hsu hw hx)⟩

/-- Compaction loses nothing. -/
theorem compactIntents_denotes
    (hp : Denotes (gatheredIntents intents) p) : Denotes (gatheredIntents (compactIntents intents)) p := by
  unfold compactIntents
  split
  · next rootIndex hro =>
    obtain ⟨hlt, hr, -⟩ := findIdx?_eq_some_iff_getElem.mp hro
    rw [getElem?_eq_getElem hlt]
    simp only [isRootReconcile, Bool.and_eq_true, beq_iff_eq] at hr
    refine ⟨intents[rootIndex].intent, ?_, denote_of_root hr.2 p⟩
    simp [gatheredIntents, compactToRoot]
  · obtain ⟨intent, hm, hd⟩ := hp
    obtain ⟨a, ha, rfl⟩ := mem_map.mp hm
    obtain ⟨i, hi⟩ := mem_iff_getElem?.mp ha
    obtain ⟨j, b, hb, hn, hk⟩ := intent_covered hwell hi
    refine ⟨b.intent, ?_, hk p hd⟩
    refine mem_map.mpr ⟨_, mem_map.mpr ⟨(b, j), mem_filter.mpr ⟨?_, ?_⟩, rfl⟩, rfl⟩
    · rw [mem_zipIdx_iff_getElem?]
      exact hb
    · simp [hn]

end

/-- The summary of the evidence leaves the scope and the paths. -/
theorem applyEvidenceSummary_denote (intent : LibraryChangeIntent) (evidenceIds : List Nat)
    (observationEvidence : List ObservationEvidence) (p : String) :
    (applyEvidenceSummary intent evidenceIds observationEvidence).denote p ↔ intent.denote p := by
  unfold applyEvidenceSummary
  split
  · exact Iff.rfl
  · exact denote_congr rfl rfl rfl p

/-- Compaction and the summary of the evidence lose nothing. -/
theorem compacted_denotes (hwell : WellGathered st.intents)
    (hp : Denotes (gatheredIntents st.intents) p) : Denotes st.compacted p := by
  obtain ⟨intent, hm, hd⟩ := compactIntents_denotes hwell hp
  obtain ⟨acc, ha, rfl⟩ := mem_map.mp hm
  exact ⟨_, mem_map.mpr ⟨acc, ha, rfl⟩, (applyEvidenceSummary_denote _ _ _ p).mpr hd⟩

/-! ## The plan -/

/-- The loop starts with nothing seen. -/
theorem Gathered.initial (ctx : LibraryChangePlanningContext) (exceeded : Bool) :
    Gathered ctx [] (PlanState.initial ctx exceeded) :=
  ⟨⟨by simp [PlanState.initial], by simp [PlanState.initial]⟩, .inr (by simp)⟩

/-- A given up plan stays given up. -/
theorem foldl_mustReconcileRoot (seen : List LibraryChangeObservation) (h : st.mustReconcileRoot = true) :
    (seen.foldl (Ame.planObservation ctx) st).mustReconcileRoot = true := by
  induction seen generalizing st with
  | nil => exact h
  | cons obs seen ih =>
    refine ih ?_
    unfold Ame.planObservation
    split
    · exact h
    · split
      · rfl
      · exact h

/-- The intents of the result: the one over the root, or the compacted ones. -/
theorem finishPlan_intents (ctx : LibraryChangePlanningContext) (limits : LibraryChangePlanningLimits) (received : Nat)
    (exceeded : Bool) (st : PlanState) :
    (∃ origin, (finishPlan ctx limits received exceeded st).intents = [rootFreshnessIntent ctx origin
        (if exceeded then none else st.observationRange) (if exceeded then some received else none)]) ∨
      st.mustReconcileRoot = false ∧ st.compacted.length ≤ limits.maxIntents ∧
        (finishPlan ctx limits received exceeded st).intents.Perm st.compacted := by
  unfold finishPlan
  simp only
  split
  · -- too many intents
    exact .inl ⟨_, rfl⟩
  next hf =>
  cases hr : st.mustReconcileRoot with
  | true => exact .inl ⟨_, by rfl⟩
  | false =>
    exact .inr ⟨rfl, by omega, perm_insertionSort _ _⟩

/-- For every valid request the plan is one intent of unknown freshness over the root, or it has at most as many intents as
allowed and every observation of the root generation is accounted for by them. -/
theorem plan_keeps_every_change (context : LibraryChangePlanningContext) (observations : List LibraryChangeObservation)
    (limits : LibraryChangePlanningLimits) (hvalid : validatePlanningRequest context limits = .ok ()) :
    ∃ result, planLibraryChanges context observations limits = .ok result ∧ result.intents.length ≤ limits.maxIntents ∧
      ((∃ intent, result.intents = [intent] ∧ intent.kind = .freshnessUnknown ∧ intent.scope = .root) ∨
        ∀ observation ∈ observations, context.owns observation = true → Accounted result.intents observation) := by
  have hpo : 0 < limits.maxIntents := by
    unfold validatePlanningRequest at hvalid
    split at hvalid
    · cases hvalid
    split at hvalid
    · cases hvalid
    · omega
  refine ⟨_, by rw [planLibraryChanges, hvalid]; rfl, ?_⟩
  generalize he : decide (limits.maxObservations < observations.length) = exceeded
  generalize hb : (if exceeded = true then [] else
    observations.insertionSort fun a b => observationSortOrder a b ≠ .gt) = bounded
  have hg := (Gathered.initial context exceeded).foldl bounded
  generalize hst : bounded.foldl (planObservation context) (PlanState.initial context exceeded) = st at hg ⊢
  rcases finishPlan_intents context limits observations.length exceeded st with ⟨origin, hon⟩ | ⟨hk, hl, hpe⟩
  · exact ⟨by rw [hon]; exact hpo, .inl ⟨_, hon, rfl, rfl⟩⟩
  refine ⟨hpe.length_eq.trans_le hl, .inr fun observation hm ho => ?_⟩
  have hn : exceeded = false := by
    by_contra hne
    have hin : (PlanState.initial context exceeded).mustReconcileRoot = true := by
      simp [PlanState.initial, Bool.eq_true_of_not_eq_false hne]
    have hgu := @foldl_mustReconcileRoot context _ bounded hin
    rw [hst, hk] at hgu
    cases hgu
  have hs : observation ∈ bounded := by
    rw [← hb, if_neg (by simp [hn])]
    exact (perm_insertionSort _ _).mem_iff.mpr hm
  have ha := (hg.accounted.resolve_left (by simp [hk])) observation hs ho
  refine ha.mono fun p hp => ?_
  obtain ⟨i, hi, hd⟩ := compacted_denotes hg.well hp
  exact ⟨i, hpe.mem_iff.mpr hi, hd⟩

/-- A rename below a directory that has changed as well. -/
def renamedBelow : List LibraryChangeObservation :=
  [⟨"r", ⟨1, by decide⟩, 1, 0, .renamed true, .path, "a/new.jpg", some "a/old.jpg", .liveNotification⟩,
    ⟨"r", ⟨1, by decide⟩, 2, 0, .directoryChanged, .subtree, "a", none, .liveNotification⟩]

theorem plan_keeps_every_change_absorbed :
    ∃ result, planLibraryChanges ⟨"r", ⟨1, by decide⟩, .available, .healthy⟩ renamedBelow ⟨16, 4⟩ = .ok result ∧
      result.intents.length ≤ 4 ∧
      ((∃ intent, result.intents = [intent] ∧ intent.kind = .freshnessUnknown ∧ intent.scope = .root) ∨
        ∀ observation ∈ renamedBelow,
          LibraryChangePlanningContext.owns ⟨"r", ⟨1, by decide⟩, .available, .healthy⟩ observation = true →
            Accounted result.intents observation) :=
  plan_keeps_every_change ⟨"r", ⟨1, by decide⟩, .available, .healthy⟩ renamedBelow ⟨16, 4⟩ (by decide)

end Ame
