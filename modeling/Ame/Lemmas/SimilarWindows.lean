import Ame.Lemmas.SimilarState

/-!
# Windows of the matching

A window keeps the invariant of the similarity tables, and what else it does: when a content is settled, and when it becomes a
reference.
-/

namespace Ame

open List SimilarityTables MatchWork

section Invariant

variable {Content Group : Type} [LinearOrder Group] [OrderBot Group] {tbl : SimilarityTables Content Group}

/-! ## A window keeps the invariant -/

section Save

/-- What a window leaves alone, or only adds to. -/
structure WindowChange (tables tables' : SimilarityTables Content Group) (work' : MatchWork Group) : Prop where
  evidence : tables'.evidence = tables.evidence
  work : tables'.work = tables.work
  grow : MembersGrow tables.members tables'.members
  /-- no new reference, or the content itself, and it goes on in the members phase -/
  references : tables'.references = tables.references ∧ tables'.referenceRevision = tables.referenceRevision ∨
    (∃ group, tables'.references = tables.references ++ [(group, work'.evidenceId)] ∧
      tables'.referenceRevision = tables.referenceRevision + 1 ∧ ⊥ < group ∧ group ∉ tables.references.map (·.1)) ∧
      ¬tables.IsReference work'.evidenceId ∧ work'.phase = .members

namespace WindowChange

variable {tbl' : SimilarityTables Content Group} {work' : MatchWork Group}

section

variable (h : WindowChange tbl tbl' work')

include h

theorem variantsOf_eq (eid : Nat) : (tbl'.saveWork work').variantsOf eid = tbl.variantsOf eid := by
  simp [variantsOf, saveWork, h.evidence]

theorem variantRows_eq : (tbl'.saveWork work').variantRows = tbl.variantRows := by
  simp [variantRows, saveWork, h.evidence]

theorem pairAt_iff {left right dist : Nat} : (tbl'.saveWork work').PairAt left right dist ↔ tbl.PairAt left right dist := by
  simp [SimilarityTables.PairAt, h.variantsOf_eq]

theorem similar_iff {left right : Nat} : (tbl'.saveWork work').Similar left right ↔ tbl.Similar left right := by
  simp [SimilarityTables.Similar, h.pairAt_iff]

/-- References are only added. -/
theorem isGrowth (hm : tbl.Matched) : TablesGrow tbl (tbl'.saveWork work') work'.evidenceId := by
  refine ⟨?_, fun eid _ => h.variantsOf_eq eid, h.grow, ?_⟩
  · unfold SimilarityTables.Numbered
    rw [show (tbl'.saveWork work').evidence = tbl.evidence from h.evidence]
    exact hm.numbered
  · rcases h.references with hsame | ⟨⟨group, heq, hr, hn, hf⟩, hne, -⟩
    · exact .inl hsame
    · exact .inr ⟨group, heq, hr, hn, hf, hne⟩

theorem mem_references {ref : Group × Nat} (hr : ref ∈ tbl.references) : ref ∈ tbl'.references := by
  rcases h.references with ⟨heq, -⟩ | ⟨⟨group, heq, -⟩, -⟩
  · rw [heq]
    exact hr
  · rw [heq]
    exact mem_append_left _ hr

/-- A reference was there before, or is the content of the window. -/
theorem of_mem_references {ref : Group × Nat} (hr : ref ∈ tbl'.references) :
    ref ∈ tbl.references ∨ ref.2 = work'.evidenceId ∧ work'.phase = .members := by
  rcases h.references with ⟨heq, -⟩ | ⟨⟨group, heq, -⟩, -, hp⟩
  · rw [heq] at hr
    exact .inl hr
  · rw [heq] at hr
    rcases mem_append.mp hr with hr | hr
    · exact .inl hr
    · rw [mem_singleton.mp hr]
      exact .inr ⟨rfl, hp⟩

section

variable (hsame : tbl'.referenceRevision ≤ tbl.referenceRevision)

include hsame

/-- While no reference is added, the index of the references is the same. -/
theorem references_eq : tbl'.references = tbl.references := by
  rcases h.references with ⟨heq, -⟩ | ⟨⟨group, -, hr, -⟩, -⟩
  · exact heq
  · omega

theorem referenceRows_eq : (tbl'.saveWork work').referenceRows = tbl.referenceRows := by
  unfold referenceRows
  simp only [h.variantsOf_eq]
  exact congrArg (List.flatMap fun ref => numberVariants ref.1 (tbl.variantsOf ref.2)) (h.references_eq hsame)

end

/-- Saved work replaces what it was. -/
theorem mem_saveWork {work : MatchWork Group} (hw : work ∈ (tbl'.saveWork work').work) :
    work = work' ∨ work ∈ tbl.work ∧ work.evidenceId ≠ work'.evidenceId := by
  obtain ⟨stored, hs, heq⟩ := mem_map.mp hw
  rw [h.work] at hs
  by_cases hsame : stored.evidenceId = work'.evidenceId
  · rw [if_pos hsame] at heq
    exact .inl heq.symm
  · rw [if_neg hsame] at heq
    subst heq
    exact .inr ⟨hs, hsame⟩

/-- What is settled after the window was settled before, or is the content of the window. -/
theorem of_settled {eid : Nat} (hs : (tbl'.saveWork work').Settled eid) : tbl.Settled eid ∨
      eid = work'.evidenceId ∧ work'.phase = .complete ∧ ¬tbl.IsReference work'.evidenceId := by
  obtain ⟨⟨work, hw, rfl, hc⟩, hr⟩ := hs
  have hold : ¬tbl.IsReference work.evidenceId := by
    intro hold
    obtain ⟨ref, hre, heq⟩ := mem_map.mp hold
    exact hr (mem_map.mpr ⟨ref, h.mem_references hre, heq⟩)
  rcases h.mem_saveWork hw with rfl | ⟨hw, -⟩
  · exact .inr ⟨rfl, hc, hold⟩
  · exact .inl ⟨⟨work, hw, rfl, hc⟩, hold⟩

/-- The tables after a window, from what is left to show about the content of the window. -/
theorem matched (hm : tbl.Matched) (hst : ∃ work ∈ tbl.work, work.evidenceId = work'.evidenceId)
    (hr : work'.referenceRevision ≤ tbl.referenceRevision) (hso : ∀ group eid dist, tbl'.members group eid = some dist →
      ∃ ref ∈ tbl'.references, ref.1 = group ∧ tbl.PairAt ref.2 eid dist)
    (hco : work'.phase = .complete → ¬tbl.IsReference work'.evidenceId →
      ∀ ref ∈ tbl.references, (tbl'.saveWork work').Covered ref work'.evidenceId) (hok : work'.Ok (tbl'.saveWork work')) :
    (tbl'.saveWork work').Matched := by
  have hi : (tbl'.saveWork work').work.map (·.evidenceId) = tbl.work.map (·.evidenceId) := by
    rw [saveWork, map_map, h.work]
    apply map_congr_left
    intro stored hst
    by_cases hsame : stored.evidenceId = work'.evidenceId
    · simp [hsame]
    · simp [hsame]
  obtain ⟨stored, hst, hid⟩ := hst
  have hk : work'.evidenceId ≤ tbl.evidence.length := hid ▸ hm.workKnown stored hst
  have hgro := h.isGrowth hm
  obtain ⟨hg, hri⟩ := hgro.referenceGroups hm
  refine ⟨hgro.numbered, ?_, ?_, ?_, hg, hri, hgro.referenceNamed hm, ?_, ?_, ?_, ?_⟩
  · rw [hi]
    exact hm.workIds
  · intro work hw
    rw [show (tbl'.saveWork work').evidence = tbl.evidence from h.evidence]
    rcases h.mem_saveWork hw with rfl | ⟨hw, -⟩
    · exact hk
    · exact hm.workKnown work hw
  · intro eid hv
    rw [h.variantsOf_eq] at hv
    obtain ⟨work, hw, heq⟩ := hm.workOf eid hv
    have hmem : eid ∈ tbl.work.map (·.evidenceId) := mem_map.mpr ⟨work, hw, heq⟩
    rw [← hi] at hmem
    exact mem_map.mp hmem
  · intro ref hre
    rw [show (tbl'.saveWork work').evidence = tbl.evidence from h.evidence]
    rcases h.of_mem_references hre with hre | ⟨hsame, -⟩
    · exact hm.referenceKnown ref hre
    · rw [hsame]
      exact hk
  · intro work hw
    refine Nat.le_trans ?_ hgro.revision_le
    rcases h.mem_saveWork hw with rfl | ⟨hw, -⟩
    · exact hr
    · exact hm.revisions work hw
  · intro group eid dist hme
    obtain ⟨ref, hre, hgr, hp⟩ := hso group eid dist hme
    exact ⟨ref, hre, hgr, h.pairAt_iff.mpr hp⟩
  · intro work hw
    rcases h.mem_saveWork hw with rfl | ⟨hw, ho⟩
    · exact hok
    · refine hgro.other_ok hm (fun eid hs => ?_) hw ho
      rcases h.of_settled hs with hs | ⟨rfl, hc, hn⟩
      · obtain ⟨o, ho, rfl, -⟩ := hs.1
        exact ⟨hm.workKnown o ho, .inl hs⟩
      · exact ⟨hk, .inr (hco hc hn)⟩

end

end WindowChange

end Save

section Step

variable {names : GroupNames Content Group} {tbl' : SimilarityTables Content Group} {work : MatchWork Group}
  {after : SimilarityTables Content Group} {work' : MatchWork Group} {q : SimilarVariant}
  {target : Posting Group → Group × Nat} {rows : List (Posting Group)} {advanced : Bool}

/-- What is known of the work a window is about. -/
structure Ready (tables : SimilarityTables Content Group) (work : MatchWork Group) : Prop where
  matched : tables.Matched
  stored : ∃ stored ∈ tables.work, stored.evidenceId = work.evidenceId
  ok : work.Ok tables
  revision : work.referenceRevision ≤ tables.referenceRevision
  current : work.phase ≠ .members → work.referenceRevision = tables.referenceRevision
  pending : work.phase ≠ .complete
  band : work.band ≤ 3

theorem Ready.band_val (h : Ready tbl work) : work.bandIndex.val = work.band := by
  have := h.band
  simp only [MatchWork.bandIndex, Fin.ofNat]
  omega

theorem Ready.not_reference (h : Ready tbl work) (hp : work.phase ≠ .members) : ¬tbl.IsReference work.evidenceId := by
  intro hr
  rcases h.ok.reference hr with hm | hc
  · exact hp hm
  · exact h.pending hc

/-- What a window does: `after` are the tables before the work is stored as `work'`. -/
structure WindowOutcome (tables : SimilarityTables Content Group) (work : MatchWork Group)
    (after : SimilarityTables Content Group) (work' : MatchWork Group) : Prop where
  change : WindowChange tables after work'
  same : work'.evidenceId = work.evidenceId
  revision : work'.referenceRevision ≤ tables.referenceRevision
  sound : ∀ group evidenceId distance, after.members group evidenceId = some distance →
    ∃ reference ∈ after.references, reference.1 = group ∧ tables.PairAt reference.2 evidenceId distance
  covered : work'.phase = .complete → ¬tables.IsReference work'.evidenceId →
    ∀ reference ∈ tables.references, (after.saveWork work').Covered reference work'.evidenceId
  ok : work'.Ok (after.saveWork work')
  /-- a content is settled because of a reference, or because nothing earlier matches -/
  settles : work'.phase = .complete → ¬tables.IsReference work'.evidenceId →
    (∃ reference ∈ tables.references, tables.Similar reference.2 work'.evidenceId) ∨
      ∀ other < work'.evidenceId, ¬tables.Similar work'.evidenceId other
  /-- a new reference matches no other, and is a member of its own group -/
  establishes : after.references = tables.references ∧ after.groups = tables.groups ∨
    ∃ group, after.references = tables.references ++ [(group, work'.evidenceId)] ∧ after.groups = tables.groups ++ [group] ∧
      (∀ reference ∈ tables.references, ¬tables.Similar reference.2 work'.evidenceId) ∧
      ∃ distance, after.members group work'.evidenceId = some distance

theorem WindowOutcome.matched (h : WindowOutcome tbl work after work') (hr : Ready tbl work) : (after.saveWork work').Matched :=
  h.change.matched hr.matched (h.same ▸ hr.stored) h.revision h.sound h.covered h.ok

/-- Publishing matches changes nothing but members. -/
theorem PublishedMatches.change (h : PublishedMatches q target rows tbl after) (work' : MatchWork Group) :
    WindowChange tbl after work' ∧ after.references = tbl.references ∧ after.groups = tbl.groups := by
  have hm := h.only_members
  constructor
  · constructor
    · rw [hm]
    · rw [hm]
    · exact h.grow
    · left
      constructor <;> rw [hm]
  · constructor <;> rw [hm]

/-- A window that publishes matches with references. -/
theorem PublishedMatches.outcome (h : PublishedMatches q target rows tbl after) (hre : Ready tbl work)
    (hp : ∀ row ∈ rows, ∀ dist, confirmedDistance q row.hash = some dist →
      ∃ ref ∈ tbl.references, ref.1 = (target row).1 ∧ tbl.PairAt ref.2 (target row).2 dist)
    (hsame : work'.evidenceId = work.evidenceId) (hrev : work'.referenceRevision = work.referenceRevision)
    (hc : work'.phase = .complete → ¬tbl.IsReference work'.evidenceId →
      ∀ ref ∈ tbl.references, (after.saveWork work').Covered ref work'.evidenceId) (hok : work'.Ok (after.saveWork work'))
    (hs : work'.phase = .complete → ¬tbl.IsReference work'.evidenceId →
      ∃ ref ∈ tbl.references, tbl.Similar ref.2 work'.evidenceId) : WindowOutcome tbl work after work' := by
  obtain ⟨hch, hr, hg⟩ := h.change work'
  refine ⟨hch, hsame, hrev ▸ hre.revision, ?_, hc, hok, fun hph hn => .inl (hs hph hn), .inl ⟨hr, hg⟩⟩
  intro group eid dist hm
  rw [hr]
  rcases h.only group eid dist hm with hold | ⟨row, hro, ht, hma⟩
  · exact hre.matched.sound group eid dist hold
  · have hpa := hp row hro dist hma
    rw [ht] at hpa
    exact hpa

section References

variable {word : BitVec 16} {found : Bool}

section

variable (hro : rows = (referencePage tbl work q word).map referencePosting) (hw : WindowRows tbl work q word)

include hro hw

/-- With a page of references, what was met before and the page are dealt with. -/
theorem Ready.references_page (h : Ready tbl work) (hdo : work.ReferencesDone tbl)
    (hspec : PublishedMatches q (fun row => (row.groupId, work.evidenceId)) rows tbl after)
    (hf : found = true ↔ work.foundReference = true ∨ ∃ row ∈ rows, row.Matches q) :
    PageDone work.groupCursor (tbl.variantsOf work.evidenceId) tbl.referenceRows
      (ReferenceDealt after.members work.evidenceId found) q work.bandIndex word := by
  refine ⟨?_, hw.queryAt, h.band_val, hw.wordAt, ?_, h.matched.referenceRow_keys⟩
  · refine hdo.mono ?_
    intro q hq row hr hd dist hm
    obtain ⟨hfr, hwi⟩ := hd hr dist hm
    exact ⟨hf.mpr (.inl hfr), hspec.grow.within hwi⟩
  · intro row hr dist hm
    have hme : referencePosting row ∈ rows := hro ▸ mem_map_of_mem hr
    exact ⟨hf.mpr (.inr ⟨_, hme, dist, hm⟩), hspec.within _ hme dist hm⟩

omit [OrderBot Group] in
/-- What matches in a page of references matches the reference. -/
theorem pairAt_of_referencePage : ∀ row ∈ rows, ∀ dist, confirmedDistance q row.hash = some dist →
      ∃ ref ∈ tbl.references, ref.1 = row.groupId ∧ tbl.PairAt ref.2 work.evidenceId dist := by
  subst hro
  intro posting hp dist hm
  obtain ⟨row, hro, rfl⟩ := mem_map.mp hp
  obtain ⟨ref, hr, hg, hpa⟩ := pairAt_of_referenceRow (mem_of_getElem? hw.queryAt)
    (mem_of_mem_filter (Page.mem_of_mem_page hro).1) hm
  exact ⟨ref, hr, hg.symm, hpa⟩

end

section

variable (hspec : PublishedMatches q (fun row => (row.groupId, work.evidenceId)) rows tbl after)

include hspec

/-- The scan of the references goes on. -/
theorem PublishedMatches.references_goesOn (hn : ¬tbl.IsReference work.evidenceId)
    (hs : found = true → ∃ ref ∈ tbl.references, tbl.Similar ref.2 work.evidenceId)
    (hid : work'.evidenceId = work.evidenceId) (hp : work'.phase = .references) (hf : work'.foundReference = found)
    (hgo : work'.groupCursor.Done (tbl.variantsOf work.evidenceId) tbl.referenceRows
      (ReferenceDealt after.members work.evidenceId found)) : work'.Ok (after.saveWork work') := by
  obtain ⟨hc, hr, -⟩ := hspec.change work'
  refine ok_of_references hp ?_ ?_ ?_
  · unfold MatchWork.ReferencesDone
    rw [hc.referenceRows_eq (Nat.le_of_eq (by rw [hspec.only_members])), hc.variantsOf_eq, hid, hf]
    exact hgo
  · rw [hf, hid]
    intro hfr
    obtain ⟨ref, hre, hst⟩ := hs hfr
    exact ⟨ref, hc.mem_references hre, hc.similar_iff.mpr hst⟩
  · unfold SimilarityTables.IsReference
    rw [show (after.saveWork work').references = tbl.references from hr, hid]
    exact hn

/-- All references have been met. If one matches, the content is finished; otherwise the other contents come next. -/
theorem PublishedMatches.references_exhausted (hn : tbl.Numbered) (hne : ¬tbl.IsReference work.evidenceId)
    (hid : work'.evidenceId = work.evidenceId) (hp : work'.phase = MatchPhase.exhausted .references found)
    (hre : work'.contentCursor = Cursor.reset 0 0 0)
    (ha : AllDone (tbl.variantsOf work.evidenceId) tbl.referenceRows (ReferenceDealt after.members work.evidenceId found)) :
    work'.Ok (after.saveWork work') ∧ ∀ ref ∈ tbl.references, (after.saveWork work').Covered ref work'.evidenceId := by
  obtain ⟨hc, hr, -⟩ := hspec.change work'
  have hd : ∀ ref ∈ tbl.references, ∀ dist, (after.saveWork work').PairAt ref.2 work'.evidenceId dist →
      found = true ∧ MemberWithin after.members ref.1 work'.evidenceId dist := by
    rw [hid]
    intro ref href dist hpa
    obtain ⟨q', hq', row, hro, hg, hm⟩ := (hc.pairAt_iff.mp hpa).referenceRow href
    rw [← hg]
    exact ha.of_confirmed hq' hro hm dist hm
  refine ⟨?_, fun ref href dist hpa => (hd ref href dist hpa).2⟩
  have hs : ¬(after.saveWork work').IsReference work'.evidenceId := by
    unfold SimilarityTables.IsReference
    rw [show (after.saveWork work').references = tbl.references from hr, hid]
    exact hne
  cases found with
  | true =>
    apply ok_of_complete hp
    intro ref href heq
    exact absurd (mem_map.mpr ⟨ref, href, heq⟩) hs
  | false =>
    refine ok_of_peer hp ⟨?_, ?_⟩ hs
    · rintro ref href ⟨dist, hpa⟩
      cases (hd ref (hr ▸ href) dist hpa).1
    · rw [hre, hc.variantRows_eq]
      exact Cursor.done_start hn.variantRow_pos

end

/-- A window of the references phase. -/
theorem Ready.references_outcome (h : Ready tbl work) (hp : work.phase = .references)
    (hrun : advanceWork names tbl work = .ok tbl') :
    ∃ after work', tbl' = after.saveWork work' ∧ WindowOutcome tbl work after work' := by
  obtain ⟨q, word, hw, rows, after, moved, stopped, hro, -, -, hm, rfl⟩ := advanceWork_ok hrun
  obtain ⟨found, hres, hf⟩ := matchRows_references hm hp
  cases hres
  have hro := hro hp
  have hspec := publishMatches_spec q (fun row => (row.groupId, work.evidenceId)) rows tbl
  generalize publishMatches q (fun row => (row.groupId, work.evidenceId)) rows tbl = after at hspec
  have hn := h.not_reference (by rw [hp]; nofun)
  obtain ⟨hd, hb⟩ := h.ok.references hp (h.current (by rw [hp]; nofun))
  have hpag := h.references_page hro hw hd hspec hf
  have hpa := pairAt_of_referencePage hro hw
  have hs : found = true → ∃ ref ∈ tbl.references, tbl.Similar ref.2 work.evidenceId := by
    intro hfr
    rcases hf.mp hfr with hold | ⟨posting, hpo, dist, hm⟩
    · exact hb hold
    · obtain ⟨ref, href, -, hpai⟩ := hpa posting hpo dist hm
      exact ⟨ref, href, dist, hpai⟩
  generalize hme : ({ work.moveThrough (bandNeighbors (q.candidate work.bandIndex)) work.bandIndex rows
    with foundReference := found } : MatchWork Group) = moved
  have hsame := work.moveThrough_same (bandNeighbors (q.candidate work.bandIndex)) work.bandIndex rows
  have hid : moved.evidenceId = work.evidenceId := hme ▸ hsame.evidenceId
  have hmp : moved.phase = .references := hme ▸ hsame.phase.trans hp
  have hre : moved.referenceRevision = work.referenceRevision := hme ▸ hsame.referenceRevision
  have hmf : moved.foundReference = found := hme ▸ rfl
  have hmc : moved.groupCursor = (work.moveThrough (bandNeighbors (q.candidate work.bandIndex))
      work.bandIndex ((referencePage tbl work q word).map referencePosting)).groupCursor := hro ▸ hme ▸ rfl
  refine ⟨after, _, rfl, ?_⟩
  rw [if_neg (by decide), hro, length_map, hid]
  have hnc := finish_references hpag h.matched.referenceRow_named (show referencePage tbl work q word = _ from rfl) hmc
  generalize moved.finish (referencePage tbl work q word).length (tbl.variantsOf work.evidenceId).length = work' at hnc ⊢
  rcases hnc with ⟨hgo, hsc⟩ | ⟨ha, hr⟩
  · have hp' : work'.phase = .references := hsc.phase.trans hmp
    have hid' : work'.evidenceId = work.evidenceId := hsc.evidenceId.trans hid
    have hpe : work'.phase ≠ .complete := by
      rw [hp']
      nofun
    exact hspec.outcome h hpa hid' (hsc.referenceRevision.trans hre) (fun hc => absurd hc hpe)
      (hspec.references_goesOn hn hs hid' hp' (hsc.foundReference.trans hmf) hgo)
      (fun hc => absurd hc hpe)
  · have hid' : work'.evidenceId = work.evidenceId := hr ▸ hid
    have hp' : work'.phase = MatchPhase.exhausted .references found := by
      rw [hr, hmp, hmf]
      rfl
    obtain ⟨hok, hco⟩ :=
      hspec.references_exhausted h.matched.numbered hn hid' hp' (hr ▸ rfl) ha
    refine hspec.outcome h hpa hid' (hr ▸ hre) (fun _ _ => hco) hok ?_
    intro hc _
    rw [hid']
    apply hs
    rw [hp'] at hc
    cases found with
    | true => rfl
    | false => cases hc

end References

/-- After a page of contents the work goes on with the next page, or it has met every content and is complete. -/
theorem Ready.contents_next (h : Ready tbl work) (hp : work.phase = .members ∨ work.phase = .peer)
    {word : BitVec 16} {dealt : SimilarVariant → VariantRow Nat → Prop} {moved : MatchWork Group}
    (hpa : PageDone work.contentCursor (tbl.variantsOf work.evidenceId) tbl.variantRows dealt q work.bandIndex word)
    (hm : work.moveThrough (bandNeighbors (q.candidate work.bandIndex)) work.bandIndex
      ((contentPage tbl work q word).map contentPosting) = moved) :
    ∃ work', moved.finish ((contentPage tbl work q word).map contentPosting : List (Posting Group)).length
        (tbl.variantsOf moved.evidenceId).length = work' ∧
      work'.evidenceId = work.evidenceId ∧ work'.referenceRevision = work.referenceRevision ∧
      (work'.phase = work.phase ∧ work'.contentCursor.Done (tbl.variantsOf work.evidenceId) tbl.variantRows dealt ∨
        work'.phase = .complete ∧ AllDone (tbl.variantsOf work.evidenceId) tbl.variantRows dealt) := by
  have hsame : work.SameScan moved := hm ▸ work.moveThrough_same _ _ _
  rw [length_map, hsame.evidenceId]
  refine ⟨_, rfl, ?_⟩
  rcases finish_contents hpa h.matched.numbered.variantRow_pos
    (show contentPage tbl work q word = _ from rfl) (congrArg contentCursor hm.symm)
    with ⟨hgo, hs⟩ | ⟨ha, hr⟩
  · exact ⟨hs.evidenceId.trans hsame.evidenceId, hs.referenceRevision.trans hsame.referenceRevision,
      .inl ⟨hs.phase.trans hsame.phase, hgo⟩⟩
  · rw [hr]
    refine ⟨hsame.evidenceId, hsame.referenceRevision, .inr ⟨?_, ha⟩⟩
    rw [hsame.phase]
    rcases hp with hp | hp <;> rw [hp] <;> rfl

/-- A window of the members phase. -/
theorem Ready.members_outcome (h : Ready tbl work) (hp : work.phase = .members) (hrun : advanceWork names tbl work = .ok tbl') :
    ∃ after work', tbl' = after.saveWork work' ∧ WindowOutcome tbl work after work' := by
  obtain ⟨q, word, ⟨hqa, hwa⟩, rows, after, moved, stopped, -, hro, -, hm, rfl⟩ := advanceWork_ok hrun
  obtain ⟨group, hr, hdo⟩ := h.ok.members hp
  rw [h.matched.referenceGroup_eq hr] at hm
  cases matchRows_members hm hp
  have hspec := publishMatches_spec q (fun row => (group, row.evidenceId)) rows tbl
  generalize publishMatches q (fun row => (group, row.evidenceId)) rows tbl = after at hspec
  obtain rfl := hro (by rw [hp]; nofun)
  have hq : q ∈ tbl.variantsOf work.evidenceId := mem_of_getElem? hqa
  have hpag : PageDone work.contentCursor (tbl.variantsOf work.evidenceId) tbl.variantRows
      (fun q row => tbl.Settled row.identity → ∀ dist, confirmedDistance q row.hash = some dist →
        MemberWithin after.members group row.identity dist)
      q work.bandIndex word := by
    refine ⟨?_, hqa, h.band_val, hwa, ?_, h.matched.variantRow_keys⟩
    · refine hdo.mono ?_
      intro q hq row hrow hd hs dist hm
      exact hspec.grow.within (hd hrow hs dist hm)
    · intro row hrow _ dist hm
      exact hspec.within (contentPosting row) (mem_map_of_mem hrow) dist hm
  have hpa : ∀ row ∈ ((contentPage tbl work q word).map contentPosting : List (Posting Group)), ∀ dist,
      confirmedDistance q row.hash = some dist →
      ∃ ref ∈ tbl.references, ref.1 = group ∧ tbl.PairAt ref.2 row.evidenceId dist := by
    intro posting hpo dist hm
    obtain ⟨row, hrow, rfl⟩ := mem_map.mp hpo
    exact ⟨(group, work.evidenceId), hr, rfl, pairAt_of_variantRow h.matched.numbered hq
      (mem_of_mem_filter (Page.mem_of_mem_page hrow).1) hm⟩
  refine ⟨after, _, rfl, ?_⟩
  rw [if_neg (by decide)]
  obtain ⟨work', hw', hid', hr', hn⟩ := h.contents_next (.inl hp) hpag rfl
  rw [hw']
  obtain ⟨hc, hre, -⟩ := hspec.change work'
  have hir : tbl.IsReference work'.evidenceId := hid'.symm ▸ mem_map.mpr ⟨_, hr, rfl⟩
  -- a reference is not settled by its own window
  have hs : ∀ eid, (after.saveWork work').Settled eid → tbl.Settled eid := by
    intro eid hs
    exact (hc.of_settled hs).resolve_right fun hne => hne.2.2 hir
  refine hspec.outcome h hpa hid' hr' (fun _ hne => absurd hir hne) ?_ fun _ hne => absurd hir hne
  rcases hn with ⟨hp', hgo⟩ | ⟨hp', ha⟩
  · refine ok_of_members (hp'.trans hp) ⟨group, hid'.symm ▸ hc.mem_references hr, ?_⟩
    rw [hc.variantsOf_eq, hc.variantRows_eq, hid']
    refine hgo.mono ?_
    intro q _ row hrow hd hsn
    exact hd hrow (hs _ hsn)
  · apply ok_of_complete hp'
    intro ref href heq eid hsn dist hpai
    have href : ref ∈ tbl.references := hre ▸ href
    obtain rfl := h.matched.reference_eq href hr (heq.trans hid')
    obtain ⟨q', hq', row, hrow, rfl, hm⟩ := (hc.pairAt_iff.mp hpai).variantRow h.matched.numbered
    exact ha.of_confirmed hq' hrow hm (hs _ hsn) dist hm

/-- A content becomes a reference. -/
theorem establishReference_ok {eid : Nat} {established : SimilarityTables Content Group} {group : Group}
    (h : establishReference names tbl eid = .ok (established, group)) :
    established = { tbl with
      groups := tbl.groups ++ [group]
      references := tbl.references ++ [(group, eid)]
      referenceRevision := tbl.referenceRevision + 1 } ∧
    ⊥ < group ∧ group ∉ tbl.references.map (·.1) := by
  unfold establishReference at h
  split at h
  · cases h
  · next row hr =>
    dsimp only at h
    split at h
    · cases h
    · obtain ⟨_, had, h⟩ := Result.map_ok h
      obtain ⟨rfl, hf⟩ := admitReference_ok had
      cases h
      exact ⟨rfl, names.bot_lt _, hf⟩

/-- A window of the peer phase. -/
theorem Ready.peer_outcome (h : Ready tbl work) (hp : work.phase = .peer) (hrun : advanceWork names tbl work = .ok tbl') :
    ∃ after work', tbl' = after.saveWork work' ∧ WindowOutcome tbl work after work' := by
  obtain ⟨q, word, ⟨hqa, hwa⟩, rows, after, moved, stopped, -, hro, -, hma, rfl⟩ := advanceWork_ok hrun
  obtain rfl := hro (by rw [hp]; nofun)
  have hq : q ∈ tbl.variantsOf work.evidenceId := mem_of_getElem? hqa
  obtain ⟨hno, hd⟩ := h.ok.peer hp (h.current (by rw [hp]; nofun))
  have hnew := h.not_reference (by rw [hp]; nofun)
  rcases matchRows_peer hma hp with ⟨hre, hu⟩ | ⟨established, group, hes, hre⟩
  · cases hre
    have hpag : PageDone work.contentCursor (tbl.variantsOf work.evidenceId) tbl.variantRows
        (fun q row => row.identity < work.evidenceId → confirmedDistance q row.hash = none)
        q work.bandIndex word := by
      refine ⟨hd, hqa, h.band_val, hwa, ?_, h.matched.variantRow_keys⟩
      intro row hrow hea
      have := hu (contentPosting row) (mem_map_of_mem hrow) (Nat.ne_of_lt hea)
      exact Option.eq_none_iff_forall_ne_some.mpr fun dist heq => this ⟨dist, heq⟩
    refine ⟨tbl, _, rfl, ?_⟩
    rw [if_neg (by decide)]
    obtain ⟨work', hw', hid', hr', hne⟩ := h.contents_next (.inr hp) hpag rfl
    rw [hw']
    have hc : WindowChange tbl tbl work' := ⟨rfl, rfl, .refl _, .inl ⟨rfl, rfl⟩⟩
    have hn' : ¬tbl.IsReference work'.evidenceId := hid'.symm ▸ hnew
    have hcov : ∀ ref ∈ tbl.references, (tbl.saveWork work').Covered ref work'.evidenceId := by
      rw [hid']
      intro ref href dist hpa
      exact absurd ⟨dist, hc.pairAt_iff.mp hpa⟩ (hno ref href)
    refine ⟨hc, hid', hr' ▸ h.revision, h.matched.sound, fun _ _ => hcov, ?_, ?_, .inl ⟨rfl, rfl⟩⟩
    · rcases hne with ⟨hp', hgo⟩ | ⟨hp', -⟩
      · refine ok_of_peer (hp'.trans hp) ⟨?_, ?_⟩ hn'
        · intro ref href
          rw [hid']
          exact hno ref href
        · rw [hid']
          exact hgo
      · apply ok_of_complete hp'
        intro ref href heq
        exact absurd (mem_map.mpr ⟨ref, href, heq⟩) hn'
    · rcases hne with ⟨hp', -⟩ | ⟨-, ha⟩
      · intro hco
        rw [hp', hp] at hco
        cases hco
      · rw [hid']
        intro _ _
        right
        rintro o hea ⟨dist, hpa⟩
        obtain ⟨q', hq', row, hrow, rfl, hm⟩ := hpa.variantRow h.matched.numbered
        rw [ha.of_confirmed hq' hrow hm hea] at hm
        cases hm
  · cases hre
    obtain ⟨he, hn, hf⟩ := establishReference_ok hes
    refine ⟨established.publishMember group work.evidenceId 0, work.restart .members, rfl, ?_⟩
    have hr : (established.publishMember group work.evidenceId 0).references =
        tbl.references ++ [(group, work.evidenceId)] := by rw [he]; rfl
    have hc : WindowChange tbl (established.publishMember group work.evidenceId 0) (work.restart .members) := by
      refine ⟨by rw [he]; rfl, by rw [he]; rfl, ?_, .inr ⟨⟨group, hr, ?_, hn, hf⟩, hnew, rfl⟩⟩
      · have hg := publishMember_grow established group work.evidenceId 0
        rwa [show established.members = tbl.members by rw [he]] at hg
      · rw [he]
        rfl
    refine ⟨hc, rfl, h.revision, ?_, nofun, ?_, nofun, .inr ⟨group, hr, ?_, hno, ?_⟩⟩
    · intro group' eid dist hme
      rw [hr]
      rcases publishMember_some hme with hold | ⟨rfl, rfl, rfl⟩
      · rw [show established.members = tbl.members by rw [he]] at hold
        obtain ⟨ref, href, hpa⟩ := h.matched.sound group' eid dist hold
        exact ⟨ref, mem_append_left _ href, hpa⟩
      · exact ⟨_, mem_append_right _ (mem_singleton.mpr rfl), rfl, q, hq, q, hq, confirmedDistance_self q⟩
    · refine ok_of_members rfl ⟨group, ?_, ?_⟩
      · exact hr ▸ mem_append_right _ (mem_singleton.mpr rfl)
      · rw [hc.variantRows_eq]
        exact Cursor.done_start h.matched.numbered.variantRow_pos
    · rw [he]
      rfl
    · obtain ⟨dist, -, hme⟩ := publishMember_within established group work.evidenceId 0
      exact ⟨dist, hme⟩

/-- What a window does, whatever the phase. -/
theorem Ready.outcome (h : Ready tbl work) (hrun : advanceWork names tbl work = .ok tbl') :
    ∃ after work', tbl' = after.saveWork work' ∧ WindowOutcome tbl work after work' := by
  cases hp : work.phase with
  | references => exact h.references_outcome hp hrun
  | peer => exact h.peer_outcome hp hrun
  | members => exact h.members_outcome hp hrun
  | complete => exact absurd hp h.pending

/-- Refreshed, the stored work is ready for a window. -/
theorem SimilarityTables.Matched.ready (h : tbl.Matched) {stored : MatchWork Group} (hs : stored ∈ tbl.work)
    (hp : stored.phase ≠ .complete) (hb : stored.band ≤ 3) : Ready tbl (stored.refresh tbl.referenceRevision) := by
  have hok := h.works stored hs
  unfold refresh
  split
  · next hst =>
    refine ⟨h, ⟨stored, hs, rfl⟩, ?_, Nat.le_refl _, fun _ => rfl, nofun, Nat.zero_le _⟩
    refine ok_of_references rfl (Cursor.done_start h.referenceRow_named) nofun ?_
    intro hr
    rcases hok.reference hr with hm | hc
    · exact hst.1 hm
    · exact hp hc
  · next hf =>
    refine ⟨h, ⟨stored, hs, rfl⟩, hok, h.revisions stored hs, ?_, hp, hb⟩
    intro hph
    by_contra hst
    exact hf ⟨hph, hst⟩

section

variable (h : tbl.Matched) (hrun : advanceMatching names tbl = .ok (tbl', advanced))

include h hrun

/-- What `advance` does: nothing, or a window of the least pending work. -/
theorem advanceMatching_outcome : tbl' = tbl ∨
      ∃ stored work after work', loadWork tbl = some stored ∧ Ready tbl work ∧ work.evidenceId = stored.evidenceId ∧
        tbl' = after.saveWork work' ∧ WindowOutcome tbl work after work' := by
  unfold advanceMatching at hrun
  split at hrun
  · cases hrun
    exact .inl rfl
  · next stored hl =>
    split at hrun
    · cases hrun
    · next hb =>
      obtain ⟨hm, hp⟩ := mem_filter.mp (Iter.minByKey_mem hl)
      have hr : Ready tbl (stored.refresh tbl.referenceRevision) :=
        h.ready hm (by simpa using hp) (by omega)
      cases hw : advanceWork names tbl (stored.refresh tbl.referenceRevision) with
      | error error =>
        rw [hw] at hrun
        cases hrun
      | ok res =>
        rw [hw] at hrun
        cases hrun
        obtain ⟨after, work', hre, ho⟩ := hr.outcome hw
        refine .inr ⟨stored, _, after, work', hl, hr, ?_, hre, ho⟩
        unfold refresh
        split <;> rfl

theorem advanceMatching_matched : tbl'.Matched := by
  rcases advanceMatching_outcome h hrun with rfl | ⟨stored, work, after, work', -, hr, -, rfl, ho⟩
  · exact h
  · exact ho.matched hr

end

end Step

end Invariant

end Ame
