import Ame.Queue.Normalize

/-!
# One step of normalization

The list `normalize_persistent_journal_intent` builds stays tidy (`Tidy`): its intents have valid shapes and no two of them
remember different previous paths of one path. Over a tidy list each of the three branches is measured by what it denotes
before and after. The conflict branch and the covering branch lose nothing. The third branch replaces what the incoming intent
covers by the strongest intent it covers; where the incoming intent is of path scope that is the same work, and where it is a
subtree or a root (`widens`) the work is cut down to the narrower intent.
-/

namespace Ame

open List Iter MergedFrom

variable {l l' active : List LibraryChangeIntent} {i : LibraryChangeIntent}

/-- The list the batch is folded into: valid shapes, and one previous path a path. -/
structure Tidy (active : List LibraryChangeIntent) : Prop where
  shaped : ∀ c ∈ active, Shaped c
  noClash : ∀ a ∈ active, ∀ b ∈ active, ¬LineageClash a b

/-- The empty list is tidy. -/
theorem Tidy.nil : Tidy [] := ⟨by simp, by simp⟩

/-- A list of valid shapes is tidy when each of its lineages is one of a tidy list. -/
theorem Tidy.of_lineages (h : Tidy l) (hsh : ∀ c ∈ l', Shaped c)
    (hl : ∀ c ∈ l', c.scope = .path → ∀ q, c.previousRelativePath = some q →
      ∃ d ∈ l, d.scope = .path ∧ d.relativePath = c.relativePath ∧ d.previousRelativePath = some q) : Tidy l' := by
  refine ⟨hsh, ?_⟩
  rintro a ha b hb ⟨has, hbs, hr, hap, hbp, hne⟩
  obtain ⟨qa, hqa⟩ := Option.isSome_iff_exists.mp hap
  obtain ⟨qb, hqb⟩ := Option.isSome_iff_exists.mp hbp
  obtain ⟨c, hc, hcs, hcr, hcq⟩ := hl a ha has qa hqa
  obtain ⟨d, hd, hds, hdr, hdq⟩ := hl b hb hbs qb hqb
  exact h.noClash c hc d hd ⟨hcs, hds, hcr.trans (hr.trans hdr.symm), by simp [hcq], by simp [hdq], by
    rw [hcq, hdq, ← hqa, ← hqb]; exact hne⟩

/-- An incoming intent that conflicts with no rename of the list clashes with none of its intents. -/
theorem not_clash_of_not_conflicting {c : LibraryChangeIntent} (hc : Shaped c)
    (hi : Shaped i) (hm : c ∈ active) (hn : hasConflictingRename active i = false) : ¬LineageClash c i := by
  rintro ⟨hcs, his, hr, hcp, hip, hne⟩
  have lineage : ∀ {x : LibraryChangeIntent}, Shaped x → x.scope = .path →
      renameLineagePreviousPath x = x.previousRelativePath := by
    intro x hx hxs
    rw [← hx.pathLineage hxs, pathRenameLineagePreviousPath, if_pos hxs]
  have hk : sameWorkKey c i = false := by
    simp [sameWorkKey, sameRenameLineage, hc.pathLineage hcs, hi.pathLineage his, hne]
  have ho : affectedPathsOverlap c i = true := by
    simp [affectedPathsOverlap, affectedPaths, hr]
  simp only [hasConflictingRename, Bool.and_eq_false_iff, any_eq_false] at hn
  rcases hn with hn | hn
  · rw [lineage hi his] at hn
    simp [hip] at hn
  · exact hn c hm (by simp [lineage hc hcs, hcp, hk, ho])

/-- A list and an incoming intent that conflicts with none of its renames are tidy together. -/
theorem Tidy.cons (h : Tidy active) (hi : Shaped i) (hn : hasConflictingRename active i = false) : Tidy (i :: active) := by
  refine ⟨by simpa using ⟨hi, h.shaped⟩, ?_⟩
  intro a ha b hb
  rcases mem_cons.mp ha with ha' | ha' <;> rcases mem_cons.mp hb with hb' | hb'
  · rw [ha', hb']
    exact fun hc => hc.2.2.2.2.2 rfl
  · rw [ha']
    exact fun hc => not_clash_of_not_conflicting (h.shaped b hb') hi hb' hn hc.symm
  · rw [hb']
    exact not_clash_of_not_conflicting (h.shaped a ha') hi ha' hn
  · exact h.noClash a ha' b hb'

/-- What the lineage of a merge clashes with, one of the merged intents clashed with already. -/
theorem MergedFrom.tidy {t m : LibraryChangeIntent} {es : List LibraryChangeIntent} (h : MergedFrom t es m)
    (hl : Tidy l) (ht : t ∈ l) (hes : es ⊆ l) : Tidy (m :: l) := by
  refine hl.of_lineages (by simpa using ⟨h.shaped, hl.shaped⟩) ?_
  intro c hc hcs q hq
  rcases mem_cons.mp hc with rfl | hc
  · rcases h.lineage q hq with htq | ⟨_, e, he, hes', hr, heq⟩
    · exact ⟨t, ht, h.scope ▸ hcs, h.relativePath.symm, htq⟩
    · exact ⟨e, hes he, hes', hr.symm.trans h.relativePath.symm, heq⟩
  · exact ⟨c, hc, hcs, rfl, hq⟩

/-- A part of a tidy list is tidy. -/
theorem Tidy.subset (h : Tidy l) (hs : l' ⊆ l) : Tidy l' :=
  ⟨fun c hc => h.shaped c (hs hc), fun a ha b hb => h.noClash a (hs ha) b (hs hb)⟩

/-! ## The branches of one step -/

section

variable {incoming inc : LibraryChangeIntent} {s : LibraryChangeIntent × Nat} {p : String}

/-- The conflict branch leaves one root-scope intent. -/
theorem normalize_of_conflicting (ht : Tidy active) (hc : hasConflictingRename active inc = true) :
    ∃ root, normalizePersistentJournalIntent active inc = [root] ∧ root.scope = .root ∧ Shaped root := by
  have hm := (refl (shaped_widenToRoot inc)).foldl (f := mergeOlderEvidence) (g := id) active
    (fun m b hb hm => Or.inr (mergeOlderEvidence_mergesFrom hm (ht.shaped b hb)))
  exact ⟨_, by rw [normalizePersistentJournalIntent, if_pos hc], hm.scope, hm.shaped⟩

/-- The merge of the covering branch has the work of the covering intent. -/
theorem mergeIntoCovering_mergedFrom {target : LibraryChangeIntent} {others : List LibraryChangeIntent}
    (ht : Shaped target) (hi : Shaped inc) (ho : ∀ c ∈ others, Shaped c) (hc : intentCovers target inc = true) :
    MergedFrom target (inc :: others) (mergeIntoCovering target inc others) := by
  unfold mergeIntoCovering
  have hf : MergedFrom target [inc] (if inc.kind = .freshnessUnknown then
      { mergeNewerEvidence target inc with kind := .freshnessUnknown } else mergeNewerEvidence target inc) := by
    have hm := (refl ht).snoc (mergeNewerEvidence_mergesFrom ht hi)
    split
    · rename_i hk
      exact hm.unknown (scope_of_covers_root ht hi (hi.unknownRoot hk) hc)
    · exact hm
  have hfo := hf.foldl (f := fun merged change =>
    if intentCovers merged change then mergeOlderEvidence merged change else merged) (g := id) others ?_
  · simpa using hfo
  · intro m b hb hm
    split
    · exact Or.inr (mergeOlderEvidence_mergesFrom hm (ho b hb))
    · exact Or.inl rfl

/-- The covering branch: the covering intent takes in the incoming one and every intent the result covers. -/
theorem normalize_of_covered (ht : Tidy active) (hi : Shaped inc)
    (hco : hasConflictingRename active inc = false) (hcov : ∃ c ∈ active, intentCovers c inc = true) :
    ∃ target ∈ active, ∃ merged, intentCovers target inc = true ∧ MergedFrom target (inc :: active) merged ∧
      merged ∈ normalizePersistentJournalIntent active inc ∧
      (∀ c ∈ normalizePersistentJournalIntent active inc, c = merged ∨ c ∈ active) ∧
      (∀ c ∈ active, c = target ∨ c ∈ normalizePersistentJournalIntent active inc ∨ intentCovers merged c = true) := by
  cases hid : active.findIdx? (fun change => intentCovers change inc) with
  | none =>
    obtain ⟨c, hc, hcc⟩ := hcov
    rw [findIdx?_eq_none_iff] at hid
    simp [hid c hc] at hcc
  | some k =>
    obtain ⟨hk, hp, _⟩ := findIdx?_eq_some_iff_getElem.mp hid
    have hg : active.getD k inc = active[k] := by simp [List.getD, hk]
    have hm : active[k] ∈ active := getElem_mem hk
    have ho : ∀ c ∈ active.eraseIdx k, Shaped c := fun c hc => ht.shaped c (mem_of_mem_eraseIdx hc)
    have hsu : inc :: active.eraseIdx k ⊆ inc :: active :=
      cons_subset_cons _ (fun _ => mem_of_mem_eraseIdx)
    have hm' := (mergeIntoCovering_mergedFrom (ht.shaped _ hm) hi ho hp).mono hsu
    refine ⟨active[k], hm, _, hp, hm', ?_⟩
    have hs : active = active.take k ++ active[k] :: active.drop (k + 1) := by simp
    simp only [normalizePersistentJournalIntent, hco, hid, hg, Bool.false_eq_true, if_false]
    refine ⟨by simp, ?_, ?_⟩
    · intro c hc
      rcases mem_append.mp hc with hc | hc
      · exact Or.inr (mem_of_mem_take (mem_filter.mp hc).1)
      · rcases mem_cons.mp hc with hc | hc
        · exact Or.inl hc
        · exact Or.inr (mem_of_mem_drop (mem_filter.mp hc).1)
    · intro c hc
      generalize mergeIntoCovering active[k] inc (active.eraseIdx k) = merged
      cases hmc : intentCovers merged c with
      | true => exact Or.inr (Or.inr rfl)
      | false =>
        rw [hs] at hc
        rcases mem_append.mp hc with hc | hc
        · exact Or.inr (Or.inl (mem_append_left _ (mem_filter.mpr ⟨hc, by simp [hmc]⟩)))
        · rcases mem_cons.mp hc with hc | hc
          · exact Or.inl hc
          · exact Or.inr (Or.inl (mem_append_right _ (mem_cons_of_mem _ (mem_filter.mpr ⟨hc, by simp [hmc]⟩))))

/-- What an incoming intent covers is part of the list. -/
theorem mem_of_mem_absorbedBy {c : LibraryChangeIntent × Nat} (h : c ∈ absorbedBy active inc) :
    c.1 ∈ active ∧ intentCovers inc c.1 = true := by
  obtain ⟨hz, hc⟩ := mem_filter.mp h
  exact ⟨(mem_zipIdx' hz).2 ▸ getElem_mem _, hc⟩

/-- An incoming intent that covers something has a strongest intent that it covers. -/
theorem strongerOf_isSome (h : ∃ c ∈ active, intentCovers inc c = true) : ∃ s, strongerOf active inc = some s := by
  obtain ⟨c, hc, hco⟩ := h
  cases hs : strongerOf active inc with
  | some s => exact ⟨s, rfl⟩
  | none =>
    obtain ⟨k, hk, rfl⟩ := mem_iff_getElem.mp hc
    have : (active[k], k) ∈ absorbedBy active inc :=
      mem_filter.mpr ⟨mk_mem_zipIdx_iff_getElem?.mpr (by simp [hk]), hco⟩
    rw [maxByKey_eq_none.mp hs] at this
    exact absurd this not_mem_nil

/-- Merging the intents the incoming one covers, all but one of them, into an intent. -/
theorem MergedFrom.foldl_absorbed (ht : Tidy active) {t m : LibraryChangeIntent} {es : List LibraryChangeIntent}
    (k : Option Nat) (h : MergedFrom t es m) :
    MergedFrom t (es ++ (absorbedBy active inc).map Prod.fst) ((absorbedBy active inc).foldl
      (fun merged change => if some change.2 ≠ k then mergeOlderEvidence merged change.1 else merged) m) := by
  refine h.foldl _ ?_
  intro m b hb hm
  split
  · exact Or.inr (mergeOlderEvidence_mergesFrom hm (ht.shaped _ (mem_of_mem_absorbedBy hb).1))
  · exact Or.inl rfl

section

variable (ht : Tidy active) (hi : Shaped inc)

include ht hi

/-- The merge of the third branch has the work of the strongest intent the incoming one covers. -/
theorem mergeAbsorbed_mergedFrom (hs : strongerOf active inc = some s) :
    MergedFrom s.1 (inc :: (absorbedBy active inc).map Prod.fst) (mergeAbsorbed active inc) := by
  have hsm := mem_of_mem_absorbedBy (maxByKey_mem hs)
  have hf := (refl (ht.shaped _ hsm.1)).snoc (mergeNewerEvidence_mergesFrom (ht.shaped _ hsm.1) hi)
  unfold mergeAbsorbed
  rw [hs]
  exact hf.foldl_absorbed ht _

/-- Where the incoming intent is not of path scope, the strongest intent it covers gains no path from the others: another
intent of its path that remembers a previous path would be stronger than one that remembers none. -/
theorem mergeAbsorbed_denote_iff (hsc : inc.scope ≠ .path)
    (hs : strongerOf active inc = some s) (p : String) : (mergeAbsorbed active inc).denote p ↔ s.1.denote p := by
  have hm := mergeAbsorbed_mergedFrom ht hi hs
  have hsm := mem_of_mem_absorbedBy (maxByKey_mem hs)
  refine denote_congr hm.scope hm.relativePath ?_ p
  cases hsp : s.1.previousRelativePath with
  | some r => exact (hm.keeps (by simp [hsp])).trans hsp
  | none =>
    by_contra hne
    obtain ⟨q, hq⟩ := Option.ne_none_iff_exists'.mp hne
    rcases hm.lineage q hq with h | ⟨hss, e, he, hes, _, heq⟩
    · simp [hsp] at h
    · rcases mem_cons.mp he with rfl | he
      · exact hsc hes
      · obtain ⟨d, hd, rfl⟩ := mem_map.mp he
        have hle := le_of_maxByKey hs d hd
        rw [(ht.shaped _ hsm.1).strength hss, (ht.shaped _ (mem_of_mem_absorbedBy hd).1).strength hes] at hle
        simp [hsp, heq] at hle

/-- Where the incoming intent is of path scope and nothing covers it, the intents it covers are reconciles of its own path,
and their merge denotes all that it denotes. -/
theorem mergeAbsorbed_denote_of_path (hco : hasConflictingRename active inc = false)
    (hsc : inc.scope = .path) (hcov : ∀ c ∈ active, intentCovers c inc = false) (hp : inc.denote p) :
    (mergeAbsorbed active inc).denote p := by
  cases hs : strongerOf active inc with
  | none =>
    have : absorbedBy active inc = [] := maxByKey_eq_none.mp hs
    simpa [mergeAbsorbed, hs, this] using hp
  | some s =>
    obtain ⟨hm, hcs⟩ := mem_of_mem_absorbedBy (maxByKey_mem hs)
    rcases covers_of_path hsc hcs with hk | ⟨_, _, hss, hr⟩
    · -- an intent with the same work key would cover the incoming one in turn
      have hb : intentCovers s.1 inc = true := by
        have hk' := sameWorkKey_symm hk
        have hss : s.1.scope = .path := by
          simp only [sameWorkKey, sameRenameLineage, Bool.or_eq_true, Bool.and_eq_true, beq_iff_eq] at hk
          rcases hk with ⟨⟨⟨_, h⟩, _⟩, _⟩ | ⟨⟨⟨⟨_, h⟩, _⟩, _⟩, _⟩
          · exact h ▸ hsc
          · exact h
        simp [intentCovers, hss, hk']
      rw [hcov _ hm] at hb
      cases hb
    · have hc := not_clash_of_not_conflicting (ht.shaped _ hm) hi hm hco
      have hf := (mergeNewerEvidence_mergesFrom (ht.shaped _ hm) hi).denote_evidence hss hsc hr.symm hc hp
      unfold mergeAbsorbed
      rw [hs]
      exact ((refl (mergeNewerEvidence_mergesFrom (ht.shaped _ hm) hi).shaped).foldl_absorbed ht _).target p hf

end

/-! ## One step -/

section

variable (active : List LibraryChangeIntent) (incoming : LibraryChangeIntent)

/-- The branch in which work is cut down: a subtree or a root arrives that nothing in the list covers, that conflicts with no
rename of the list and that covers something in it. -/
def widens : Bool :=
  incoming.scope != .path && !hasConflictingRename active incoming && !active.any (intentCovers · incoming) &&
    active.any (intentCovers incoming ·)

/-- What is left of the list in that branch: the intents the incoming one does not cover, and the strongest it covers. -/
def survivors : List LibraryChangeIntent :=
  active.filter (fun change => !intentCovers incoming change) ++ ((strongerOf active incoming).map Prod.fst).toList

end

/-- The third branch, when nothing conflicts with the incoming intent and nothing covers it. -/
theorem normalize_of_uncovered (hc : hasConflictingRename active inc = false) (hco : ∀ c ∈ active, intentCovers c inc = false) :
    normalizePersistentJournalIntent active inc =
      active.filter (fun change => !intentCovers inc change) ++ [mergeAbsorbed active inc] := by
  have hi : active.findIdx? (fun change => intentCovers change inc) = none := by
    simpa [findIdx?_eq_none_iff] using hco
  simp [normalizePersistentJournalIntent, hc, hi]

section

variable (ht : Tidy active) (hi : Shaped inc)

include ht hi

/-- The merge of the third branch is tidy with the list and the incoming intent, and denotes nothing new. -/
theorem mergeAbsorbed_tidy (hco : hasConflictingRename active inc = false) : Tidy (mergeAbsorbed active inc :: inc :: active) ∧
      ∀ p, (mergeAbsorbed active inc).denote p → Denotes (inc :: active) p := by
  have hti := ht.cons hi hco
  cases hs : strongerOf active inc with
  | none =>
    have hn : absorbedBy active inc = [] := maxByKey_eq_none.mp hs
    have heq : mergeAbsorbed active inc = inc := by simp [mergeAbsorbed, hs, hn]
    rw [heq]
    exact ⟨hti.subset (by simp), fun p hp => ⟨inc, by simp, hp⟩⟩
  | some s =>
    have hsm := mem_of_mem_absorbedBy (maxByKey_mem hs)
    have hsu : inc :: (absorbedBy active inc).map Prod.fst ⊆ inc :: active := by
      refine cons_subset_cons _ ?_
      intro c hc
      obtain ⟨d, hd, rfl⟩ := mem_map.mp hc
      exact (mem_of_mem_absorbedBy hd).1
    have hm := (mergeAbsorbed_mergedFrom ht hi hs).mono hsu
    refine ⟨hm.tidy hti (mem_cons_of_mem _ hsm.1) (List.Subset.refl _), fun p hp => ?_⟩
    rcases hm.sub p hp with h | h
    · exact ⟨s.1, mem_cons_of_mem _ hsm.1, h⟩
    · exact h

/-- A step keeps the list tidy. -/
theorem normalize_tidy : Tidy (normalizePersistentJournalIntent active inc) := by
  cases hco : hasConflictingRename active inc with
  | true =>
    obtain ⟨root, heq, hr, hsh⟩ := normalize_of_conflicting ht hco
    rw [heq]
    refine ⟨by simpa using hsh, ?_⟩
    intro a ha b hb hc
    rw [mem_singleton.mp ha] at hc
    simp [LineageClash, hr] at hc
  | false =>
    have hti := ht.cons hi hco
    by_cases hcov : ∃ c ∈ active, intentCovers c inc = true
    · obtain ⟨target, hta, merged, _, hm, _, hs, _⟩ := normalize_of_covered ht hi hco hcov
      refine (hm.tidy hti (mem_cons_of_mem _ hta) (List.Subset.refl _)).subset ?_
      intro c hc
      rcases hs c hc with rfl | hc
      · simp
      · simp [hc]
    · rw [normalize_of_uncovered hco (by simpa using hcov)]
      refine (mergeAbsorbed_tidy ht hi hco).1.subset ?_
      intro c hc
      rcases mem_append.mp hc with hc | hc
      · simp [(mem_filter.mp hc).1]
      · simp_all

/-- Outside the widening branch, the merge of the third branch denotes what the incoming intent denotes. -/
theorem mergeAbsorbed_denote_incoming
    (hco : hasConflictingRename active inc = false) (hcov : ∀ c ∈ active, intentCovers c inc = false)
    (hw : widens active inc = false) (hp : inc.denote p) : (mergeAbsorbed active inc).denote p := by
  by_cases hsc : inc.scope = .path
  · exact mergeAbsorbed_denote_of_path ht hi hco hsc hcov hp
  · -- a subtree or a root that covers nothing is listed as it is
    have hn : ∀ c ∈ active, intentCovers inc c = false := by
      intro c hc
      by_contra hne
      have : widens active inc = true := by
        simp only [widens, Bool.and_eq_true, bne_iff_ne, Bool.not_eq_true', any_eq_true, any_eq_false]
        exact ⟨⟨⟨hsc, hco⟩, fun c hc => by simp [hcov c hc]⟩, c, hc, by simpa using hne⟩
      simp [hw] at this
    have hs : strongerOf active inc = none := by
      cases hs : strongerOf active inc with
      | none => rfl
      | some s =>
        obtain ⟨hm, hc⟩ := mem_of_mem_absorbedBy (maxByKey_mem hs)
        simp [hn _ hm] at hc
    simpa [mergeAbsorbed, hs, show absorbedBy active inc = [] from maxByKey_eq_none.mp hs] using hp

/-- Outside the conflict and the widening branch, a step denotes exactly what the list and the incoming intent denoted. -/
theorem denotes_normalize_iff (hcon : hasConflictingRename active inc = false) (hw : widens active inc = false)
    (p : String) : Denotes (normalizePersistentJournalIntent active inc) p ↔ inc.denote p ∨ Denotes active p := by
  have hti := ht.cons hi hcon
  by_cases hcov : ∃ c ∈ active, intentCovers c inc = true
  · obtain ⟨target, hta, merged, hco, hm, hme, hs, hk⟩ := normalize_of_covered ht hi hcon hcov
    have hmt := hm.tidy hti (mem_cons_of_mem _ hta) (List.Subset.refl _)
    constructor
    · rintro ⟨c, hc, hp⟩
      rcases hs c hc with rfl | hc
      · rcases hm.sub p hp with hp | ⟨d, hd, hp⟩
        · exact Or.inr ⟨target, hta, hp⟩
        · rcases mem_cons.mp hd with rfl | hd
          · exact Or.inl hp
          · exact Or.inr ⟨d, hd, hp⟩
      · exact Or.inr ⟨c, hc, hp⟩
    · rintro (hp | ⟨c, hc, hp⟩)
      · exact ⟨merged, hme, hm.target p (denote_of_covers (ht.shaped _ hta) hi hco
          (hti.noClash _ (mem_cons_of_mem _ hta) _ (by simp)) hp)⟩
      · rcases hk c hc with rfl | hc' | hc'
        · exact ⟨merged, hme, hm.target p hp⟩
        · exact ⟨c, hc', hp⟩
        · exact ⟨merged, hme, denote_of_covers hm.shaped (ht.shaped c hc) hc' (hmt.noClash _ (by simp) _ (by simp [hc])) hp⟩
  · have hco' : ∀ c ∈ active, intentCovers c inc = false := by simpa using hcov
    rw [normalize_of_uncovered hcon hco']
    constructor
    · rintro ⟨c, hc, hp⟩
      rcases mem_append.mp hc with hc | hc
      · exact Or.inr ⟨c, (mem_filter.mp hc).1, hp⟩
      · rw [mem_singleton.mp hc] at hp
        obtain ⟨d, hd, hdp⟩ := (mergeAbsorbed_tidy ht hi hcon).2 p hp
        rcases mem_cons.mp hd with hd | hd
        · exact Or.inl (hd ▸ hdp)
        · exact Or.inr ⟨d, hd, hdp⟩
    · have hin : inc.denote p → Denotes (active.filter (fun change => !intentCovers inc change) ++
          [mergeAbsorbed active inc]) p := fun hp =>
        ⟨_, by simp, mergeAbsorbed_denote_incoming ht hi hcon hco' hw hp⟩
      rintro (hp | ⟨c, hc, hp⟩)
      · exact hin hp
      · cases hcc : intentCovers inc c with
        | true =>
          exact hin (denote_of_covers hi (ht.shaped c hc) hcc (hti.noClash _ (by simp) _ (by simp [hc])) hp)
        | false => exact ⟨c, mem_append_left _ (mem_filter.mpr ⟨hc, by simp [hcc]⟩), hp⟩

end

/-- What the widening branch presupposes. -/
theorem widens_iff : widens active inc = true ↔ inc.scope ≠ .path ∧ hasConflictingRename active inc = false ∧
    (∀ c ∈ active, intentCovers c inc = false) ∧ ∃ c ∈ active, intentCovers inc c = true := by
  simp [widens, and_assoc]

section

variable (ht : Tidy active) (hi : Shaped inc) (hw : widens active inc = true)

include ht hi hw

/-- In the widening branch a step denotes exactly what the survivors denote. -/
theorem denotes_normalize_of_widens
    (p : String) : Denotes (normalizePersistentJournalIntent active inc) p ↔ Denotes (survivors active inc) p := by
  obtain ⟨hsc, hco, hcov, hso⟩ := widens_iff.mp hw
  obtain ⟨s, hs⟩ := strongerOf_isSome hso
  rw [normalize_of_uncovered hco hcov]
  simp only [Denotes, survivors, hs, Option.map_some, Option.toList_some, mem_append, mem_singleton]
  constructor
  · rintro ⟨c, hc | rfl, hp⟩
    · exact ⟨c, Or.inl hc, hp⟩
    · exact ⟨s.1, Or.inr rfl, (mergeAbsorbed_denote_iff ht hi hsc hs p).mp hp⟩
  · rintro ⟨c, hc | rfl, hp⟩
    · exact ⟨c, Or.inl hc, hp⟩
    · exact ⟨_, Or.inr rfl, (mergeAbsorbed_denote_iff ht hi hsc hs p).mpr hp⟩

/-- In the widening branch a step loses nothing but paths of the incoming intent. -/
theorem denote_incoming_of_lost (hp : Denotes active p) (hl : ¬Denotes (survivors active inc) p) : inc.denote p := by
  obtain ⟨hs, hco, _, _⟩ := widens_iff.mp hw
  obtain ⟨c, hc, hp⟩ := hp
  cases hcc : intentCovers inc c with
  | true =>
    exact denote_of_covers hi (ht.shaped c hc) hcc ((ht.cons hi hco).noClash _ (by simp) _ (by simp [hc])) hp
  | false =>
    exact absurd ⟨c, mem_append_left _ (mem_filter.mpr ⟨hc, by simp [hcc]⟩), hp⟩ hl

end

/-- The survivors are intents of the list. -/
theorem survivors_subset : survivors active inc ⊆ active := by
  intro c hc
  rcases mem_append.mp hc with hc | hc
  · exact (mem_filter.mp hc).1
  · cases hs : strongerOf active inc with
    | none => simp [hs] at hc
    | some s =>
      simp only [hs, Option.map_some, Option.toList_some, mem_singleton] at hc
      exact hc ▸ (mem_of_mem_absorbedBy (maxByKey_mem hs)).1

end

end Ame
