import Ame.Queue.Coverage

/-!
# What coverage and merging keep

Two facts carry every conservation result of the queue. An intent that covers another denotes all that the other denotes,
except where the two remember different previous paths of one path (`denote_of_covers`). And merging evidence into an intent
never takes a path away from it (`MergesFrom`).
-/

namespace Ame

open List

open PathRegion

variable {p : String} {i a b t e : LibraryChangeIntent}

/-! ## The shape of an intent -/

/-- What `validate_intent_shape` establishes, case by case. -/
@[mk_iff]
structure Shaped (i : LibraryChangeIntent) : Prop where
  /-- A root-scope intent names no path. -/
  rootPaths : i.scope = .root → i.relativePath = "" ∧ i.previousRelativePath = none
  /-- The paths of any other intent are in normal form. -/
  paths : i.scope ≠ .root → ∀ p ∈ affectedPaths i, validNormalizedPath p = true
  /-- A previous path is another path. -/
  distinct : i.previousRelativePath ≠ some i.relativePath
  /-- Unknown freshness is about the whole root. -/
  unknownRoot : i.kind = .freshnessUnknown → i.scope = .root
  /-- A rename is of a path or a subtree, and has a previous path. -/
  rename : i.kind = .renameCandidate → i.scope ≠ .root ∧ i.previousRelativePath.isSome
  /-- Only a rename gives a subtree a previous path. -/
  subtreePrevious : i.kind = .reconcile → i.scope = .subtree → i.previousRelativePath = none

/-- A valid path is not empty. -/
theorem ne_empty_of_validNormalizedPath (h : validNormalizedPath p = true) : p ≠ "" := by
  rintro rfl
  simp [validNormalizedPath] at h

/-- `Shaped` is what the check of the source accepts. -/
theorem shapeIsValid_iff (i : LibraryChangeIntent) : shapeIsValid i = true ↔ Shaped i := by
  obtain ⟨rid, gen, kind, scope, rel, prev, org, fo, mo, fs, ms, cnt⟩ := i
  constructor
  · cases kind <;> cases scope <;> cases prev <;>
      simp_all [shapeIsValid, shaped_iff]
  · cases kind <;> cases scope <;> cases prev <;>
      simp_all [shapeIsValid, shaped_iff]

/-- Nothing but the empty path holds the empty path. -/
theorem eq_empty_of_within_empty {q : String} (h : Within '/' "".toList q.toList) : q = "" := by
  rcases h with h | h
  · exact (String.toList_inj.mp h).symm
  · simp at h

/-- The lineage of a path-scope intent is its previous path. -/
theorem Shaped.pathLineage (h : Shaped i) (hs : i.scope = .path) :
    pathRenameLineagePreviousPath i = i.previousRelativePath := by
  have hk : i.kind ≠ .freshnessUnknown := fun hk => by simp [h.unknownRoot hk] at hs
  cases hki : i.kind <;> simp_all [pathRenameLineagePreviousPath, renameLineagePreviousPath]

/-- The strength of a path-scope intent tells whether it remembers a previous path. -/
theorem Shaped.strength (h : Shaped i) (hs : i.scope = .path) :
    intentStrength i = if i.previousRelativePath.isSome then 2 else 1 := by
  have hk : i.kind ≠ .freshnessUnknown := fun hk => by simp [h.unknownRoot hk] at hs
  have hl := h.pathLineage hs
  cases hki : i.kind with
  | freshnessUnknown => exact absurd hki hk
  | renameCandidate => simp [intentStrength, hki, hs, (h.rename hki).2]
  | reconcile => simp [intentStrength, hki, hs, hl]

/-! ## Coverage -/

/-- Two path-scope intents of one path that remember different previous paths. -/
def LineageClash (a b : LibraryChangeIntent) : Prop :=
  a.scope = .path ∧ b.scope = .path ∧ a.relativePath = b.relativePath ∧
    a.previousRelativePath.isSome ∧ b.previousRelativePath.isSome ∧ a.previousRelativePath ≠ b.previousRelativePath

/-- A clash is symmetric. -/
theorem LineageClash.symm (h : LineageClash a b) : LineageClash b a := by
  obtain ⟨h1, h2, h3, h4, h5, h6⟩ := h
  exact ⟨h2, h1, h3.symm, h5, h4, h6.symm⟩

/-- Two intents with the same work key denote the same paths. -/
theorem denote_of_sameWorkKey (ha : Shaped a) (hb : Shaped b)
    (h : sameWorkKey a b = true) (p : String) : a.denote p ↔ b.denote p := by
  simp only [sameWorkKey, sameRenameLineage, Bool.or_eq_true, Bool.and_eq_true, beq_iff_eq] at h
  rcases h with ⟨⟨⟨_, hs⟩, hr⟩, hp⟩ | ⟨⟨⟨⟨hs, hs'⟩, hr⟩, _⟩, hp⟩
  · exact denote_congr hs hr hp p
  · rw [ha.pathLineage hs, hb.pathLineage hs'] at hp
    exact denote_congr (hs.trans hs'.symm) hr hp p

/-- The work key is symmetric. -/
theorem sameWorkKey_symm (h : sameWorkKey a b = true) : sameWorkKey b a = true := by
  simp only [sameWorkKey, sameRenameLineage, Bool.or_eq_true, Bool.and_eq_true, beq_iff_eq] at h ⊢
  rcases h with ⟨⟨⟨h1, h2⟩, h3⟩, h4⟩ | ⟨⟨⟨⟨h1, h2⟩, h3⟩, h4⟩, h5⟩
  · exact Or.inl ⟨⟨⟨h1.symm, h2.symm⟩, h3.symm⟩, h4.symm⟩
  · exact Or.inr ⟨⟨⟨⟨h2, h1⟩, h3.symm⟩, h5 ▸ h4⟩, h5.symm⟩

/-- A path-scope intent covers only path-scope intents of its own path: those with its work key and, if it remembers a
previous path, every reconcile of the path. -/
theorem covers_of_path (hs : a.scope = .path) (h : intentCovers a b = true) : sameWorkKey a b = true ∨
      (pathRenameLineagePreviousPath a).isSome ∧ b.kind = .reconcile ∧ b.scope = .path ∧ a.relativePath = b.relativePath := by
  simp only [intentCovers, hs, ne_eq, not_true_eq_false, false_and, if_false, reduceCtorEq, Bool.or_eq_true,
    Bool.and_eq_true, beq_iff_eq] at h
  rcases h with h | ⟨⟨⟨h1, h2⟩, h3⟩, h4⟩
  · exact Or.inl h
  · exact Or.inr ⟨h1, h2, h3, h4⟩

/-- A subtree-scope intent covers an intent when it holds each of its paths. -/
theorem covers_of_subtree (hs : a.scope = .subtree) (h : intentCovers a b = true) :
    ∀ q ∈ affectedPaths b, ∃ r ∈ affectedPaths a, Within '/' q.toList r.toList := by
  intro q hq
  unfold intentCovers at h
  split at h
  · cases h
  · simp only [hs, reduceCtorEq, if_false, all_eq_true, any_eq_true, isWithinSubtree_iff] at h
    exact h q hq

/-- Coverage is sound: what covers an intent denotes all that the intent denotes, unless both remember a previous path of one
path and not the same one. -/
theorem denote_of_covers (ha : Shaped a) (hb : Shaped b) (h : intentCovers a b = true)
    (hc : ¬LineageClash a b) (hp : b.denote p) : a.denote p := by
  cases hs : a.scope with
  | root => exact denote_of_root hs p
  | subtree =>
    have hw := covers_of_subtree hs h
    rw [denote_subtree_iff hs]
    cases hbs : b.scope with
    | root =>
      -- a root-scope intent names the empty path, which no subtree of a valid intent holds
      obtain ⟨r, hr, hw⟩ := hw b.relativePath (by simp)
      rw [(hb.rootPaths hbs).1] at hw
      exact absurd (eq_empty_of_within_empty hw) (ne_empty_of_validNormalizedPath (ha.paths (by simp [hs]) r hr))
    | subtree =>
      obtain ⟨q, hq, hpq⟩ := (denote_subtree_iff hbs p).mp hp
      obtain ⟨r, hr, hqr⟩ := hw q hq
      exact ⟨r, hr, hpq.trans hqr⟩
    | path => exact hw p ((denote_path_iff hbs p).mp hp)
  | path =>
    rcases covers_of_path hs h with h | ⟨hl, _, hbs, hr⟩
    · exact (denote_of_sameWorkKey ha hb h p).mpr hp
    · rw [ha.pathLineage hs] at hl
      rw [denote_path_iff hs, mem_affectedPaths]
      rw [denote_path_iff hbs, mem_affectedPaths] at hp
      rcases hp with rfl | hp
      · exact Or.inl hr.symm
      · by_contra hn
        push Not at hn
        exact hc ⟨hs, hbs, hr, hl, by simp [hp], by rw [hp]; exact hn.2⟩

/-- Nothing but a root-scope intent covers a root-scope intent. -/
theorem scope_of_covers_root (ha : Shaped a) (hb : Shaped b) (hbs : b.scope = .root)
    (h : intentCovers a b = true) : a.scope = .root := by
  cases hs : a.scope with
  | root => rfl
  | subtree =>
    obtain ⟨r, hr, hw⟩ := covers_of_subtree hs h b.relativePath (by simp)
    rw [(hb.rootPaths hbs).1] at hw
    exact absurd (eq_empty_of_within_empty hw) (ne_empty_of_validNormalizedPath (ha.paths (by simp [hs]) r hr))
  | path =>
    rcases covers_of_path hs h with h | ⟨_, _, hbs', _⟩
    · simp only [sameWorkKey, sameRenameLineage, Bool.or_eq_true, Bool.and_eq_true, beq_iff_eq] at h
      rcases h with ⟨⟨⟨_, h⟩, _⟩, _⟩ | ⟨⟨⟨⟨_, h⟩, _⟩, _⟩, _⟩ <;> simp_all
    · simp_all

/-! ## Merging evidence -/

/-- What `m` may be when the evidence of `e` is merged into `t`: the same work, which has gained the previous path of `e` if
both are about one path and `t` remembers none. -/
structure MergesFrom (t e m : LibraryChangeIntent) : Prop where
  scope : m.scope = t.scope
  relativePath : m.relativePath = t.relativePath
  keeps : t.previousRelativePath.isSome → m.previousRelativePath = t.previousRelativePath
  gains : t.scope = .path → e.scope = .path → t.relativePath = e.relativePath → t.previousRelativePath = none →
    m.previousRelativePath = e.previousRelativePath
  only : t.previousRelativePath = none → m.previousRelativePath = none ∨
    t.scope = .path ∧ e.scope = .path ∧ t.relativePath = e.relativePath ∧ m.previousRelativePath = e.previousRelativePath
  shaped : Shaped m

/-- Merging the rename semantics of `e` into `t` keeps the work of `t`. -/
theorem mergeDirtyRenameSemantics_mergesFrom (ht : Shaped t) (he : Shaped e) :
    MergesFrom t e (mergeDirtyRenameSemantics t e) := by
  unfold mergeDirtyRenameSemantics
  split
  · rename_i h
    exact ⟨rfl, rfl, fun _ => rfl, fun h1 h2 h3 => by simp [h1, h2, h3] at h, Or.inl, ht⟩
  rename_i h
  push Not at h
  obtain ⟨hts, hes, hr⟩ := h
  have htk : t.kind = .reconcile ∨ t.kind = .renameCandidate := by
    cases hk : t.kind with
    | freshnessUnknown => simp [ht.unknownRoot hk] at hts
    | _ => simp
  rw [ht.pathLineage hts, he.pathLineage hes]
  -- the result has kind reconcile and a previous path that one of the two remembers
  have build : ∀ q, (t.previousRelativePath = some q ∨ t.previousRelativePath = none ∧ e.previousRelativePath = some q) →
      MergesFrom t e { t with kind := .reconcile, previousRelativePath := some q } := by
    intro q hq
    refine ⟨rfl, rfl, ?_, ?_, ?_, ?_⟩
    · intro hs
      rcases hq with hq | ⟨hq, _⟩
      · exact hq.symm
      · simp [hq] at hs
    · intro _ _ _ hn
      rcases hq with hq | ⟨_, hq⟩
      · simp [hn] at hq
      · exact hq.symm
    · intro hn
      rcases hq with hq | ⟨_, hq⟩
      · simp [hn] at hq
      · exact Or.inr ⟨hts, hes, hr, hq.symm⟩
    · have hv : validNormalizedPath q = true ∧ q ≠ t.relativePath := by
        rcases hq with hq | ⟨_, hq⟩
        · exact ⟨ht.paths (by simp [hts]) q (by simp [hq]), fun h => ht.distinct (by rw [hq, h])⟩
        · exact ⟨he.paths (by simp [hes]) q (by simp [hq]), fun h => he.distinct (by rw [hq, h, hr])⟩
      refine ⟨by simp [hts], ?_, by simpa using hv.2, by simp, by simp, by simp [hts]⟩
      intro _ p hp
      rcases mem_affectedPaths.mp hp with hp | hp
      · exact hp ▸ ht.paths (by simp [hts]) t.relativePath (by simp)
      · exact Option.some.inj hp ▸ hv.1
  have same : (t.previousRelativePath = none → e.previousRelativePath = none) → MergesFrom t e t := fun hn =>
    ⟨rfl, rfl, fun _ => rfl, fun _ _ _ h => by rw [h, hn h], Or.inl, ht⟩
  simp only
  split
  · rename_i h
    exact same fun hn => by simp [hn] at h
  · rename_i h
    split
    · rename_i hpr
      apply same
      intro hn
      rcases htk with hk | hk
      · simpa [hk] using hpr
      · have := (ht.rename hk).2
        simp [hn] at this
    · rename_i q hpr
      apply build
      rcases htk with hk | hk
      · simp only [hk, if_true] at hpr
        cases htp : t.previousRelativePath with
        | none => exact Or.inr ⟨rfl, hpr⟩
        | some r =>
          left
          by_contra hne
          exact h ⟨by simp [htp], by simp [hpr], by rw [htp, hpr]; exact hne⟩
      · simp only [hk, reduceCtorEq, if_false] at hpr
        split at hpr
        · exact Or.inl hpr
        · cases hpr

/-- Merging reads and writes the evidence range besides; the work is that of `mergeDirtyRenameSemantics`. -/
theorem MergesFrom.congr {m m' : LibraryChangeIntent} (h : MergesFrom t e m) (hk : m'.kind = m.kind)
    (hs : m'.scope = m.scope) (hr : m'.relativePath = m.relativePath)
    (hp : m'.previousRelativePath = m.previousRelativePath) : MergesFrom t e m' := by
  obtain ⟨h1, h2, h3, h4, h5, h6⟩ := h
  have hsh : Shaped m' := by
    rw [shaped_iff] at h6 ⊢
    simpa only [affectedPaths, hk, hs, hr, hp] using h6
  exact ⟨hs.trans h1, hr.trans h2, fun h => hp.trans (h3 h), fun a b c d => hp.trans (h4 a b c d), by rw [hp]; exact h5, hsh⟩

/-- `merge_older_evidence` keeps the work of its target. -/
theorem mergeOlderEvidence_mergesFrom (ht : Shaped t) (he : Shaped e) : MergesFrom t e (mergeOlderEvidence t e) :=
  (mergeDirtyRenameSemantics_mergesFrom ht he).congr rfl rfl rfl rfl

/-- `merge_newer_evidence` keeps the work of its target. -/
theorem mergeNewerEvidence_mergesFrom (ht : Shaped t) (he : Shaped e) : MergesFrom t e (mergeNewerEvidence t e) :=
  (mergeDirtyRenameSemantics_mergesFrom ht he).congr rfl rfl rfl rfl

section

variable (t e : LibraryChangeIntent)

/-- Merging leaves the root, the generation and, for older evidence, the origin as they are. -/
theorem mergeDirtyRenameSemantics_frame :
    (mergeDirtyRenameSemantics t e).rootId = t.rootId ∧ (mergeDirtyRenameSemantics t e).rootGeneration = t.rootGeneration ∧
      (mergeDirtyRenameSemantics t e).origin = t.origin := by
  unfold mergeDirtyRenameSemantics
  split
  · exact ⟨rfl, rfl, rfl⟩
  · simp only
    split
    · exact ⟨rfl, rfl, rfl⟩
    · split <;> exact ⟨rfl, rfl, rfl⟩

@[simp] theorem mergeOlderEvidence_rootId : (mergeOlderEvidence t e).rootId = t.rootId :=
  (mergeDirtyRenameSemantics_frame t e).1

@[simp] theorem mergeOlderEvidence_rootGeneration : (mergeOlderEvidence t e).rootGeneration = t.rootGeneration :=
  (mergeDirtyRenameSemantics_frame t e).2.1

@[simp] theorem mergeOlderEvidence_origin : (mergeOlderEvidence t e).origin = t.origin :=
  (mergeDirtyRenameSemantics_frame t e).2.2

@[simp] theorem mergeNewerEvidence_rootId : (mergeNewerEvidence t e).rootId = t.rootId :=
  (mergeDirtyRenameSemantics_frame t e).1

@[simp] theorem mergeNewerEvidence_rootGeneration : (mergeNewerEvidence t e).rootGeneration = t.rootGeneration :=
  (mergeDirtyRenameSemantics_frame t e).2.1

end

/-- A quantity every round of a fold keeps is kept by the fold. -/
theorem foldl_keeps {α β γ : Type} {f : α → β → α} (g : α → γ) (hf : ∀ a b, g (f a b) = g a) (l : List β) (a : α) :
    g (l.foldl f a) = g a := by
  induction l generalizing a with
  | nil => rfl
  | cons b l ih => rw [foldl_cons, ih, hf]

/-- The whole root, at unknown freshness, is a valid intent. -/
theorem shaped_widenToRoot (i : LibraryChangeIntent) : Shaped (widenToRoot i) := by
  refine ⟨by simp [widenToRoot], by simp [widenToRoot], by simp [widenToRoot], by simp [widenToRoot],
    by simp [widenToRoot], by simp [widenToRoot]⟩

section

variable {m : LibraryChangeIntent}

section

variable (h : MergesFrom t e m)

include h

/-- Every lineage a merge leaves was remembered by one of the two. -/
theorem MergesFrom.lineage {q : String} (hq : m.previousRelativePath = some q) : t.previousRelativePath = some q ∨
      t.scope = .path ∧ e.scope = .path ∧ t.relativePath = e.relativePath ∧ e.previousRelativePath = some q := by
  cases htp : t.previousRelativePath with
  | some r => exact Or.inl ((htp ▸ h.keeps (by simp [htp])).symm.trans hq)
  | none =>
    rcases h.only htp with hn | ⟨hts, hes, hr, he⟩
    · simp [hn] at hq
    · exact Or.inr ⟨hts, hes, hr, he.symm.trans hq⟩

/-- A merge denotes what its target denotes. -/
theorem MergesFrom.denote_target {p : String} (hp : t.denote p) : m.denote p := by
  cases htp : t.previousRelativePath with
  | some r => exact (denote_congr h.scope h.relativePath (h.keeps (by simp [htp])) p).mpr hp
  | none =>
    rcases h.only htp with hn | ⟨hts, _, _, _⟩
    · exact (denote_congr h.scope h.relativePath (hn.trans htp.symm) p).mpr hp
    · rw [denote_path_iff hts, mem_affectedPaths, htp] at hp
      rw [denote_path_iff (h.scope.trans hts), mem_affectedPaths, h.relativePath]
      simpa using Or.inl hp

/-- A merge of two intents of one path that do not clash denotes what the merged-in one denotes. -/
theorem MergesFrom.denote_evidence (hts : t.scope = .path) (hes : e.scope = .path)
    (hr : t.relativePath = e.relativePath) (hc : ¬LineageClash t e) {p : String} (hp : e.denote p) : m.denote p := by
  rw [denote_path_iff hes, mem_affectedPaths] at hp
  rw [denote_path_iff (h.scope.trans hts), mem_affectedPaths, h.relativePath]
  rcases hp with rfl | hp
  · exact Or.inl hr.symm
  · right
    cases htp : t.previousRelativePath with
    | none => exact (h.gains hts hes hr htp).trans hp
    | some r =>
      rw [h.keeps (by simp [htp]), ← hp]
      by_contra hne
      exact hc ⟨hts, hes, hr, by simp [htp], by simp [hp], hne⟩

/-- A merge denotes nothing that neither of the two denotes. -/
theorem MergesFrom.denote_sub {p : String} (hp : m.denote p) : t.denote p ∨ e.denote p := by
  cases htp : t.previousRelativePath with
  | some r => exact Or.inl ((denote_congr h.scope h.relativePath (h.keeps (by simp [htp])) p).mp hp)
  | none =>
    rcases h.only htp with hn | ⟨hts, hes, hr, he⟩
    · exact Or.inl ((denote_congr h.scope h.relativePath (hn.trans htp.symm) p).mp hp)
    · rw [denote_path_iff (h.scope.trans hts), mem_affectedPaths, h.relativePath, he] at hp
      rw [denote_path_iff hts, denote_path_iff hes, mem_affectedPaths, mem_affectedPaths]
      rcases hp with hp | hp
      · exact Or.inl (Or.inl hp)
      · exact Or.inr (Or.inr hp)

end

/-- `m` is what `t` becomes when evidence of the intents `es` is merged into it, one after the other. -/
structure MergedFrom (t : LibraryChangeIntent) (es : List LibraryChangeIntent) (m : LibraryChangeIntent) : Prop where
  scope : m.scope = t.scope
  relativePath : m.relativePath = t.relativePath
  keeps : t.previousRelativePath.isSome → m.previousRelativePath = t.previousRelativePath
  lineage : ∀ q, m.previousRelativePath = some q → t.previousRelativePath = some q ∨
    t.scope = .path ∧ ∃ e ∈ es, e.scope = .path ∧ t.relativePath = e.relativePath ∧ e.previousRelativePath = some q
  target : ∀ p, t.denote p → m.denote p
  sub : ∀ p, m.denote p → t.denote p ∨ Denotes es p
  shaped : Shaped m

variable {es es' : List LibraryChangeIntent}

/-- Nothing merged. -/
theorem MergedFrom.refl (h : Shaped t) : MergedFrom t [] t :=
  ⟨rfl, rfl, fun _ => rfl, fun _ => Or.inl, fun _ => id, fun _ => Or.inl, h⟩

/-- The list of what was merged may be enlarged. -/
theorem MergedFrom.mono (h : MergedFrom t es m) (hs : es ⊆ es') : MergedFrom t es' m := by
  refine ⟨h.scope, h.relativePath, h.keeps, ?_, h.target, ?_, h.shaped⟩
  · intro q hq
    rcases h.lineage q hq with ht | ⟨hts, e, he, hr⟩
    · exact Or.inl ht
    · exact Or.inr ⟨hts, e, hs he, hr⟩
  · intro p hp
    rcases h.sub p hp with ht | ⟨e, he, hd⟩
    · exact Or.inl ht
    · exact Or.inr ⟨e, hs he, hd⟩

/-- One more merge. -/
theorem MergedFrom.snoc {m' : LibraryChangeIntent} (h : MergedFrom t es m) (hs : MergesFrom m e m') :
    MergedFrom t (es ++ [e]) m' := by
  refine ⟨hs.scope.trans h.scope, hs.relativePath.trans h.relativePath, ?_, ?_, fun p hp => hs.denote_target (h.target p hp),
    ?_, hs.shaped⟩
  · intro ht
    have hm := h.keeps ht
    exact (hs.keeps (hm ▸ ht)).trans hm
  · intro q hq
    rcases hs.lineage hq with hm | ⟨hms, hes, hre, he⟩
    · rcases h.lineage q hm with ht | ⟨hts, e', he', hr⟩
      · exact Or.inl ht
      · exact Or.inr ⟨hts, e', mem_append_left _ he', hr⟩
    · exact Or.inr ⟨h.scope.symm.trans hms, e, by simp, hes, h.relativePath.symm.trans hre, he⟩
  · intro p hp
    rcases hs.denote_sub hp with hm | he
    · rcases h.sub p hm with ht | ⟨e', he', hd⟩
      · exact Or.inl ht
      · exact Or.inr ⟨e', mem_append_left _ he', hd⟩
    · exact Or.inr ⟨e, by simp, he⟩

/-- A root-scope merge may be marked as unknown freshness. -/
theorem MergedFrom.unknown (h : MergedFrom t es m) (hr : t.scope = .root) :
    MergedFrom t es { m with kind := .freshnessUnknown } := by
  have hm := h.scope.trans hr
  have hp := h.shaped.rootPaths hm
  exact ⟨h.scope, h.relativePath, h.keeps, h.lineage, h.target, h.sub, fun _ => hp, by simp [hm], h.shaped.distinct,
    fun _ => hm, by simp, by simp⟩

/-- A fold that merges the evidence of each element or passes it over. -/
theorem MergedFrom.foldl {β : Type} {f : LibraryChangeIntent → β → LibraryChangeIntent} {g : β → LibraryChangeIntent}
    (bs : List β) (hf : ∀ m b, b ∈ bs → Shaped m → f m b = m ∨ MergesFrom m (g b) (f m b)) (h : MergedFrom t es m) :
    MergedFrom t (es ++ bs.map g) (bs.foldl f m) := by
  induction bs generalizing m es with
  | nil => simpa using h
  | cons b bs ih =>
    have hs : MergedFrom t (es ++ [g b]) (f m b) := by
      rcases hf m b (by simp) h.shaped with hb | hb
      · rw [hb]
        exact h.mono (by simp)
      · exact h.snoc hb
    have := ih (fun m b' hb' => hf m b' (mem_cons_of_mem _ hb')) hs
    simpa using this

/-- What the merged intent denotes, the target or a merged intent of path scope does. -/
theorem MergedFrom.denote_cases (h : MergedFrom t es m) {p : String} (hp : m.denote p) :
    t.denote p ∨ ∃ e ∈ es, e.scope = .path ∧ e.denote p := by
  have hq : ∀ q ∈ affectedPaths m, q ∈ affectedPaths t ∨ t.scope = .path ∧ ∃ e ∈ es, e.scope = .path ∧ q ∈ affectedPaths e := by
    intro q hq
    rcases mem_affectedPaths.mp hq with rfl | hq
    · exact .inl (mem_affectedPaths.mpr (.inl h.relativePath))
    · rcases h.lineage q hq with ht | ⟨hs, e, he, hes, -, hq⟩
      · exact .inl (mem_affectedPaths.mpr (.inr ht))
      · exact .inr ⟨hs, e, he, hes, mem_affectedPaths.mpr (.inr hq)⟩
  cases hs : t.scope with
  | root => exact .inl (denote_of_root hs p)
  | subtree =>
    obtain ⟨q, hm, hw⟩ := (denote_subtree_iff (h.scope.trans hs) p).mp hp
    rcases hq q hm with hm | ⟨hs', -⟩
    · exact .inl ((denote_subtree_iff hs p).mpr ⟨q, hm, hw⟩)
    · rw [hs] at hs'
      cases hs'
  | path =>
    rcases hq p ((denote_path_iff (h.scope.trans hs) p).mp hp) with hm | ⟨-, e, he, hes, hm⟩
    · exact .inl ((denote_path_iff hs p).mpr hm)
    · exact .inr ⟨e, he, hes, (denote_path_iff hes p).mpr hm⟩

end

end Ame
