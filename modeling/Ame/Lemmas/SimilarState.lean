import Ame.Lemmas.Similar
import Mathlib

/-!
# What the stored match work means

The invariant of the similarity tables, and that a publication keeps it. A stored position says which rows have been
dealt with already; what "dealt with" means depends on the phase. New references void the positions of the first two phases, which
is what the reference revision is for; the positions of the members phase stay, because a content that is finished later has
itself been compared with every reference.
-/

namespace Ame

open List SimilarityTables

section Tables

variable {Content Group Identity : Type} {left right dist eid : Nat} {row : EvidenceRow Content} {q : SimilarVariant}

/-- Two contents match at a distance: some variants of theirs do. -/
def SimilarityTables.PairAt (tables : SimilarityTables Content Group) (left right distance : Nat) : Prop :=
  ∃ first ∈ tables.variantsOf left, ∃ second ∈ tables.variantsOf right, confirmedDistance first second = some distance

def SimilarityTables.Similar (tables : SimilarityTables Content Group) (left right : Nat) : Prop :=
  ∃ distance, tables.PairAt left right distance

theorem SimilarityTables.PairAt.symm {tbl : SimilarityTables Content Group}
    (h : tbl.PairAt left right dist) : tbl.PairAt right left dist := by
  obtain ⟨first, hf, second, hs, hm⟩ := h
  exact ⟨second, hs, first, hf, (confirmedDistance_comm _ _).trans hm⟩

theorem SimilarityTables.Similar.symm {tbl : SimilarityTables Content Group}
    (h : tbl.Similar left right) : tbl.Similar right left := by
  obtain ⟨dist, hp⟩ := h
  exact ⟨dist, hp.symm⟩

/-- A row stands at the number of its variant. -/
theorem mem_numberVariants {ident : Identity} {variants : List SimilarVariant} {row : VariantRow Identity} :
    row ∈ numberVariants ident variants ↔ row.identity = ident ∧ variants[row.variant]? = some row.hash := by
  constructor
  · intro h
    obtain ⟨⟨hash, idx⟩, he, rfl⟩ := mem_map.mp h
    exact ⟨rfl, mk_mem_zipIdx_iff_getElem?.mp he⟩
  · rintro ⟨rfl, hh⟩
    exact mem_map.mpr ⟨(row.hash, row.variant), mk_mem_zipIdx_iff_getElem?.mpr hh, rfl⟩

/-- The identifiers of the evidence are given in order. -/
def SimilarityTables.Numbered (tables : SimilarityTables Content Group) : Prop :=
  tables.evidence.map (·.evidenceId) = List.range' 1 tables.evidence.length

variable {tables tbl : SimilarityTables Content Group}

/-- Evidence is numbered from one. -/
theorem SimilarityTables.Numbered.bounds (h : tbl.Numbered) (hr : row ∈ tbl.evidence) :
    1 ≤ row.evidenceId ∧ row.evidenceId ≤ tbl.evidence.length := by
  have hm : row.evidenceId ∈ tbl.evidence.map (·.evidenceId) := mem_map_of_mem hr
  rw [h, mem_range'_1] at hm
  omega

theorem SimilarityTables.Numbered.variantsOf_eq (h : tbl.Numbered)
    (hr : row ∈ tbl.evidence) : tbl.variantsOf row.evidenceId = row.evidence.variants := by
  have hn : (tbl.evidence.map (·.evidenceId)).Nodup := by
    rw [h]
    exact nodup_range'
  have hf := Iter.find?_key_of_mem hn hr
  simp [variantsOf, hf]

/-- A content with variants has evidence. -/
theorem exists_evidence_of_mem {hash : SimilarVariant} (h : hash ∈ tbl.variantsOf eid) :
    ∃ row ∈ tbl.evidence, row.evidenceId = eid ∧ tbl.variantsOf eid = row.evidence.variants := by
  unfold variantsOf at h ⊢
  cases hf : tbl.evidence.find? (fun row => row.evidenceId = eid) with
  | none =>
    rw [hf] at h
    cases h
  | some row =>
    exact ⟨row, mem_of_find?_eq_some hf, by simpa using find?_some hf, rfl⟩

/-- The variant rows are those of the evidence. -/
theorem mem_variantRows (h : tbl.Numbered) {row : VariantRow Nat} :
    row ∈ tbl.variantRows ↔ (tbl.variantsOf row.identity)[row.variant]? = some row.hash := by
  unfold variantRows
  rw [mem_flatMap]
  constructor
  · rintro ⟨evid, he, hr⟩
    obtain ⟨hi, hh⟩ := mem_numberVariants.mp hr
    rw [hi, h.variantsOf_eq he]
    exact hh
  · intro hh
    obtain ⟨evid, he, hi, hv⟩ := exists_evidence_of_mem (mem_of_getElem? hh)
    rw [hv] at hh
    exact ⟨evid, he, mem_numberVariants.mpr ⟨hi.symm, hh⟩⟩

theorem SimilarityTables.Numbered.variantRow_pos (h : tbl.Numbered) : ∀ row ∈ tbl.variantRows, 0 < row.identity := by
  intro row hr
  obtain ⟨evid, he, hi, -⟩ := exists_evidence_of_mem (mem_of_getElem? ((mem_variantRows h).mp hr))
  have := (h.bounds he).1
  omega

/-- The reference rows are those of the references. -/
theorem mem_referenceRows {row : VariantRow Group} : row ∈ tbl.referenceRows ↔ ∃ ref ∈ tbl.references, row.identity = ref.1 ∧
        (tbl.variantsOf ref.2)[row.variant]? = some row.hash := by
  unfold referenceRows
  rw [mem_flatMap]
  simp only [mem_numberVariants]

/-- A match with a content is a match with one of its rows. -/
theorem SimilarityTables.PairAt.variantRow (h : tbl.Numbered) (hp : tbl.PairAt left right dist) :
    ∃ q ∈ tbl.variantsOf left, ∃ row ∈ tbl.variantRows, row.identity = right ∧ confirmedDistance q row.hash = some dist := by
  obtain ⟨q, hq, hash, hh, hm⟩ := hp
  obtain ⟨idx, hi⟩ := getElem?_of_mem hh
  exact ⟨q, hq, ⟨right, idx, hash⟩, (mem_variantRows h).mpr hi, rfl, hm⟩

/-- A match with a reference is a match with one of its rows. -/
theorem SimilarityTables.PairAt.referenceRow {ref : Group × Nat} (hr : ref ∈ tbl.references) (hp : tbl.PairAt ref.2 eid dist) :
    ∃ q ∈ tbl.variantsOf eid, ∃ row ∈ tbl.referenceRows, row.identity = ref.1 ∧ confirmedDistance q row.hash = some dist := by
  obtain ⟨hash, hh, q, hq, hm⟩ := hp
  obtain ⟨idx, hi⟩ := getElem?_of_mem hh
  exact ⟨q, hq, ⟨ref.1, idx, hash⟩, mem_referenceRows.mpr ⟨ref, hr, rfl, hi⟩, rfl, (confirmedDistance_comm _ _).trans hm⟩

/-- A row of the contents that matches is a match with the content. -/
theorem pairAt_of_variantRow (h : tbl.Numbered) (hq : q ∈ tbl.variantsOf eid) {row : VariantRow Nat}
    (hr : row ∈ tbl.variantRows) (hm : confirmedDistance q row.hash = some dist) : tbl.PairAt eid row.identity dist :=
  ⟨q, hq, row.hash, mem_of_getElem? ((mem_variantRows h).mp hr), hm⟩

/-- A row of the references that matches is a match with the reference. -/
theorem pairAt_of_referenceRow (hq : q ∈ tbl.variantsOf eid) {row : VariantRow Group}
    (hro : row ∈ tbl.referenceRows) (hm : confirmedDistance q row.hash = some dist) :
    ∃ ref ∈ tbl.references, row.identity = ref.1 ∧ tbl.PairAt ref.2 eid dist := by
  obtain ⟨ref, hr, hi, hh⟩ := mem_referenceRows.mp hro
  exact ⟨ref, hr, hi, row.hash, mem_of_getElem? hh, q, hq, (confirmedDistance_comm _ _).trans hm⟩

section

variable (tables : SimilarityTables Content Group)

/-- All matches of a content with a reference are stored. -/
def SimilarityTables.Covered (reference : Group × Nat) (evidenceId : Nat) : Prop :=
  ∀ distance, tables.PairAt reference.2 evidenceId distance → MemberWithin tables.members reference.1 evidenceId distance

def SimilarityTables.IsReference (evidenceId : Nat) : Prop :=
  evidenceId ∈ tables.references.map (·.2)

/-- A content whose matching is finished, and that is not a reference. -/
def SimilarityTables.Settled (evidenceId : Nat) : Prop :=
  (∃ work ∈ tables.work, work.evidenceId = evidenceId ∧ work.phase = .complete) ∧ ¬tables.IsReference evidenceId

end

end Tables

section Invariant

variable {Content Group : Type} [LinearOrder Group]

/-- If a reference matches, it is known that one was found, and the content is a member of its group. -/
def ReferenceDealt (members : Group → Nat → Option Nat) (evidenceId : Nat) (found : Bool) (query : SimilarVariant)
    (row : VariantRow Group) : Prop :=
  ∀ distance, confirmedDistance query row.hash = some distance →
    found = true ∧ MemberWithin members row.identity evidenceId distance

section

variable (work : MatchWork Group) (tables : SimilarityTables Content Group)

/-- In the references phase: every reference that was met is dealt with. -/
def MatchWork.ReferencesDone : Prop :=
  work.groupCursor.Done (tables.variantsOf work.evidenceId) tables.referenceRows
    (ReferenceDealt tables.members work.evidenceId work.foundReference)

/-- In the peer phase: no reference matches, and none of the earlier contents that were met. -/
def MatchWork.PeersDone : Prop :=
  (∀ reference ∈ tables.references, ¬tables.Similar reference.2 work.evidenceId) ∧
    work.contentCursor.Done (tables.variantsOf work.evidenceId) tables.variantRows fun query row =>
      row.identity < work.evidenceId → confirmedDistance query row.hash = none

/-- In the members phase: every settled content that was met and matches is stored. -/
def MatchWork.MembersDone : Prop :=
  ∃ group, (group, work.evidenceId) ∈ tables.references ∧
    work.contentCursor.Done (tables.variantsOf work.evidenceId) tables.variantRows fun query row =>
      tables.Settled row.identity → ∀ distance, confirmedDistance query row.hash = some distance →
        MemberWithin tables.members group row.identity distance

end

/-- What the stored position of a work means. -/
structure MatchWork.Ok (work : MatchWork Group) (tables : SimilarityTables Content Group) : Prop where
  references : work.phase = .references → work.referenceRevision = tables.referenceRevision → work.ReferencesDone tables ∧
      (work.foundReference = true → ∃ reference ∈ tables.references, tables.Similar reference.2 work.evidenceId)
  peer : work.phase = .peer → work.referenceRevision = tables.referenceRevision → work.PeersDone tables
  members : work.phase = .members → work.MembersDone tables
  complete : work.phase = .complete → ∀ reference ∈ tables.references, reference.2 = work.evidenceId →
    ∀ evidenceId, tables.Settled evidenceId → tables.Covered reference evidenceId
  reference : tables.IsReference work.evidenceId → work.phase = .members ∨ work.phase = .complete

section Phases

variable {tbl : SimilarityTables Content Group} {work : MatchWork Group}

theorem ok_of_references (hp : work.phase = .references) (hd : work.ReferencesDone tbl)
    (hf : work.foundReference = true → ∃ reference ∈ tbl.references, tbl.Similar reference.2 work.evidenceId)
    (hr : ¬tbl.IsReference work.evidenceId) : work.Ok tbl := by
  constructor
  case references => exact fun _ _ => ⟨hd, hf⟩
  case reference => exact fun h => absurd h hr
  all_goals
    intro h
    rw [hp] at h
    cases h

theorem ok_of_peer (hp : work.phase = .peer) (hd : work.PeersDone tbl)
    (hr : ¬tbl.IsReference work.evidenceId) : work.Ok tbl := by
  constructor
  case peer => exact fun _ _ => hd
  case reference => exact fun h => absurd h hr
  all_goals
    intro h
    rw [hp] at h
    cases h

theorem ok_of_members (hp : work.phase = .members) (hd : work.MembersDone tbl) : work.Ok tbl := by
  constructor
  case members => exact fun _ => hd
  case reference => exact fun _ => .inl hp
  all_goals
    intro h
    rw [hp] at h
    cases h

theorem ok_of_complete (hp : work.phase = .complete)
    (hs : ∀ reference ∈ tbl.references, reference.2 = work.evidenceId → ∀ eid, tbl.Settled eid → tbl.Covered reference eid) :
    work.Ok tbl := by
  constructor
  case complete => exact fun _ => hs
  case reference => exact fun _ => .inr hp
  all_goals
    intro h
    rw [hp] at h
    cases h

end Phases

variable [OrderBot Group]

/-- The invariant of the similarity tables. -/
structure SimilarityTables.Matched (tables : SimilarityTables Content Group) : Prop where
  numbered : tables.Numbered
  workIds : (tables.work.map (·.evidenceId)).Nodup
  workKnown : ∀ work ∈ tables.work, work.evidenceId ≤ tables.evidence.length
  workOf : ∀ evidenceId, tables.variantsOf evidenceId ≠ [] → ∃ work ∈ tables.work, work.evidenceId = evidenceId
  referenceGroups : (tables.references.map (·.1)).Nodup
  referenceIds : (tables.references.map (·.2)).Nodup
  referenceNamed : ∀ reference ∈ tables.references, ⊥ < reference.1
  referenceKnown : ∀ reference ∈ tables.references, reference.2 ≤ tables.evidence.length
  revisions : ∀ work ∈ tables.work, work.referenceRevision ≤ tables.referenceRevision
  sound : ∀ group evidenceId distance, tables.members group evidenceId = some distance →
    ∃ reference ∈ tables.references, reference.1 = group ∧ tables.PairAt reference.2 evidenceId distance
  works : ∀ work ∈ tables.work, work.Ok tables

variable {tables tbl : SimilarityTables Content Group}

namespace SimilarityTables.Matched

section

variable (h : tbl.Matched)

include h

/-- A variant row is known by its key. -/
theorem variantRow_keys : ∀ a ∈ tbl.variantRows, ∀ b ∈ tbl.variantRows,
    a.identity = b.identity → a.variant = b.variant → a = b := by
  rintro ⟨ident, variant, hash⟩ ha ⟨ident', variant', hash'⟩ hb hi hv
  have hh := (mem_variantRows h.numbered).mp ha
  have hh' := (mem_variantRows h.numbered).mp hb
  dsimp only at hi hv hh hh'
  subst hi
  subst hv
  rw [hh] at hh'
  rw [Option.some.inj hh']

/-- A reference row is known by its key. -/
theorem referenceRow_keys : ∀ a ∈ tbl.referenceRows, ∀ b ∈ tbl.referenceRows,
    a.identity = b.identity → a.variant = b.variant → a = b := by
  rintro ⟨ident, variant, hash⟩ ha ⟨ident', variant', hash'⟩ hb hi hv
  obtain ⟨ref, hr, hg, hh⟩ := mem_referenceRows.mp ha
  obtain ⟨ref', hr', hg', hh'⟩ := mem_referenceRows.mp hb
  dsimp only at hi hv hg hg' hh hh'
  have hs : ref = ref' := inj_on_of_nodup_map h.referenceGroups hr hr' (hg.symm.trans (hi.trans hg'))
  subst hs
  subst hi
  subst hv
  rw [hh] at hh'
  rw [Option.some.inj hh']

theorem referenceRow_named : ∀ row ∈ tbl.referenceRows, ⊥ < row.identity := by
  intro row hro
  obtain ⟨ref, hr, hg, -⟩ := mem_referenceRows.mp hro
  rw [hg]
  exact h.referenceNamed ref hr

theorem reference_eq {ref ref' : Group × Nat} (hr : ref ∈ tbl.references)
    (hr' : ref' ∈ tbl.references) (heq : ref.2 = ref'.2) : ref = ref' :=
  inj_on_of_nodup_map h.referenceIds hr hr' heq

/-- The group of a reference is found. -/
theorem referenceGroup_eq {group : Group} {eid : Nat}
    (hr : (group, eid) ∈ tbl.references) : tbl.referenceGroup eid = some group := by
  have hf := Iter.find?_key_of_mem h.referenceIds hr
  simp [referenceGroup, hf]

end

end SimilarityTables.Matched

/-! ## Tables that grow -/

section Grow

variable {tables tbl' : SimilarityTables Content Group} {newId : Nat}

/-- What a publication and a window have in common: known contents keep their variants, members are only added or get closer, and
at most one content, `newId`, becomes a reference, which changes the revision. -/
structure TablesGrow (tables tables' : SimilarityTables Content Group) (newId : Nat) : Prop where
  numbered : tables'.Numbered
  variants : ∀ evidenceId ≤ tables.evidence.length, tables'.variantsOf evidenceId = tables.variantsOf evidenceId
  grow : MembersGrow tables.members tables'.members
  references : tables'.references = tables.references ∧ tables'.referenceRevision = tables.referenceRevision ∨
    ∃ group, tables'.references = tables.references ++ [(group, newId)] ∧
      tables'.referenceRevision = tables.referenceRevision + 1 ∧ ⊥ < group ∧ group ∉ tables.references.map (·.1) ∧
      ¬tables.IsReference newId

namespace TablesGrow

section

variable (h : TablesGrow tbl tbl' newId)

include h

theorem mem_references {ref : Group × Nat} (hr : ref ∈ tbl.references) : ref ∈ tbl'.references := by
  rcases h.references with ⟨heq, -⟩ | ⟨group, heq, -⟩
  · exact heq ▸ hr
  · exact heq ▸ mem_append_left _ hr

/-- A new reference is of the new content. -/
theorem of_mem_references {ref : Group × Nat}
    (hr : ref ∈ tbl'.references) : ref ∈ tbl.references ∨ ref.2 = newId ∧ ⊥ < ref.1 := by
  rcases h.references with ⟨heq, -⟩ | ⟨group, heq, -, hn, -⟩
  · exact .inl (heq ▸ hr)
  · rw [heq] at hr
    rcases mem_append.mp hr with hr | hr
    · exact .inl hr
    · rw [mem_singleton.mp hr]
      exact .inr ⟨rfl, hn⟩

theorem isReference {eid : Nat} (hr : tbl.IsReference eid) : tbl'.IsReference eid := by
  obtain ⟨ref, hre, heq⟩ := mem_map.mp hr
  exact mem_map.mpr ⟨ref, h.mem_references hre, heq⟩

theorem revision_le : tbl.referenceRevision ≤ tbl'.referenceRevision := by
  rcases h.references with ⟨-, heq⟩ | ⟨group, -, heq, -⟩ <;> omega

/-- At the same revision there are the same references. -/
theorem references_eq (hle : tbl'.referenceRevision ≤ tbl.referenceRevision) :
    tbl'.references = tbl.references ∧ tbl'.referenceRevision = tbl.referenceRevision := by
  rcases h.references with hs | ⟨group, -, heq, -⟩
  · exact hs
  · omega

theorem pairAt_iff {left right dist : Nat} (hl : left ≤ tbl.evidence.length)
    (hr : right ≤ tbl.evidence.length) : tbl'.PairAt left right dist ↔ tbl.PairAt left right dist := by
  unfold SimilarityTables.PairAt
  rw [h.variants left hl, h.variants right hr]

theorem similar_iff {left right : Nat} (hl : left ≤ tbl.evidence.length)
    (hr : right ≤ tbl.evidence.length) : tbl'.Similar left right ↔ tbl.Similar left right := by
  unfold SimilarityTables.Similar
  simp only [h.pairAt_iff hl hr]

section

variable (hmatched : tbl.Matched)

include hmatched

theorem mem_variantRows_iff {row : VariantRow Nat}
    (hk : row.identity ≤ tbl.evidence.length) : row ∈ tbl'.variantRows ↔ row ∈ tbl.variantRows := by
  rw [mem_variantRows h.numbered, mem_variantRows hmatched.numbered, h.variants _ hk]

theorem of_mem_referenceRows (hs : tbl'.references = tbl.references)
    {row : VariantRow Group} (hro : row ∈ tbl'.referenceRows) : row ∈ tbl.referenceRows := by
  obtain ⟨ref, hr, hg, hh⟩ := mem_referenceRows.mp hro
  rw [hs] at hr
  rw [h.variants _ (hmatched.referenceKnown ref hr)] at hh
  exact mem_referenceRows.mpr ⟨ref, hr, hg, hh⟩

theorem referenceGroups : (tbl'.references.map (·.1)).Nodup ∧ (tbl'.references.map (·.2)).Nodup := by
  rcases h.references with ⟨heq, -⟩ | ⟨group, heq, -, -, hf, hn⟩
  · rw [heq]
    exact ⟨hmatched.referenceGroups, hmatched.referenceIds⟩
  · rw [heq, map_append, map_append, map_singleton, map_singleton, ← concat_eq_append, ← concat_eq_append]
    exact ⟨hmatched.referenceGroups.concat hf, hmatched.referenceIds.concat hn⟩

theorem referenceNamed : ∀ ref ∈ tbl'.references, ⊥ < ref.1 := by
  intro ref hr
  rcases h.of_mem_references hr with hr | ⟨-, hn⟩
  · exact hmatched.referenceNamed ref hr
  · exact hn

/-- The work of another content keeps its meaning, if what is settled now was settled before or is covered. -/
theorem other_ok (hs : ∀ eid, tbl'.Settled eid → eid ≤ tbl.evidence.length ∧
      (tbl.Settled eid ∨ ∀ ref ∈ tbl.references, tbl'.Covered ref eid))
    {work : MatchWork Group} (hwo : work ∈ tbl.work) (ho : work.evidenceId ≠ newId) : work.Ok tbl' := by
  have hok := hmatched.works work hwo
  have hk := hmatched.workKnown work hwo
  have hc : work.referenceRevision = tbl'.referenceRevision →
      work.referenceRevision = tbl.referenceRevision ∧ tbl'.references = tbl.references := by
    intro hc
    obtain ⟨hre, hr⟩ := h.references_eq (hc ▸ hmatched.revisions work hwo)
    exact ⟨hc.trans hr, hre⟩
  refine ⟨?_, ?_, ?_, ?_, ?_⟩
  · intro hp hr
    obtain ⟨hr, hsa⟩ := hc hr
    obtain ⟨hdo, hf⟩ := hok.references hp hr
    constructor
    · unfold MatchWork.ReferencesDone
      rw [h.variants _ hk]
      refine hdo.mono ?_
      intro query _ row hro hd dist hm
      obtain ⟨hfr, hw⟩ := hd (h.of_mem_referenceRows hmatched hsa hro) dist hm
      exact ⟨hfr, h.grow.within hw⟩
    · intro hfr
      obtain ⟨ref, href, hsi⟩ := hf hfr
      exact ⟨ref, h.mem_references href, (h.similar_iff (hmatched.referenceKnown ref href) hk).mpr hsi⟩
  · intro hp hr
    obtain ⟨hr, hsa⟩ := hc hr
    obtain ⟨hn, hdo⟩ := hok.peer hp hr
    constructor
    · intro ref href
      rw [hsa] at href
      rw [h.similar_iff (hmatched.referenceKnown ref href) hk]
      exact hn ref href
    · rw [h.variants _ hk]
      refine hdo.mono ?_
      intro query _ row hro hd he
      exact hd ((h.mem_variantRows_iff hmatched (by omega)).mp hro) he
  · intro hp
    obtain ⟨group, href, hdo⟩ := hok.members hp
    refine ⟨group, h.mem_references href, ?_⟩
    rw [h.variants _ hk]
    refine hdo.mono ?_
    intro query hq row hro hd hno dist hm
    obtain ⟨hrk, hold | hco⟩ := hs _ hno
    · exact h.grow.within (hd ((h.mem_variantRows_iff hmatched hrk).mp hro) hold dist hm)
    · refine hco _ href dist (pairAt_of_variantRow h.numbered ?_ hro hm)
      rwa [h.variants _ hk]
  · intro hp ref href heq eid hno
    rcases h.of_mem_references href with href | ⟨hne, -⟩
    · obtain ⟨hnk, hold | hco⟩ := hs _ hno
      · intro dist hpa
        rw [h.pairAt_iff (hmatched.referenceKnown ref href) hnk] at hpa
        exact h.grow.within (hok.complete hp ref href heq eid hold dist hpa)
      · exact hco ref href
    · exact absurd (heq.symm.trans hne) ho
  · intro hrefe
    obtain ⟨ref, href, heq⟩ := mem_map.mp hrefe
    rcases h.of_mem_references href with href | ⟨hne, -⟩
    · exact hok.reference (mem_map.mpr ⟨ref, href, heq⟩)
    · exact absurd (heq.symm.trans hne) ho

end

end

end TablesGrow

end Grow

/-! ## A publication keeps the invariant -/

section Publish

variable {names : GroupNames Content Group} {tables tbl' : SimilarityTables Content Group} {row : EvidenceRow Content}

/-- What a publication adds: evidence, and the work of a content with variants. A content whose group is known already becomes
its reference at once. -/
structure Published (tables tables' : SimilarityTables Content Group) (row : EvidenceRow Content) : Prop where
  evidence : tables'.evidence = tables.evidence ++ [row]
  next : row.evidenceId = tables.evidence.length + 1
  members : tables'.members = tables.members
  groups : tables'.groups = tables.groups
  added : (row.evidence.variants = [] ∧ tables'.work = tables.work ∧ tables'.references = tables.references ∧
      tables'.referenceRevision = tables.referenceRevision) ∨
    (tables'.work = tables.work ++ [initialWork row.evidenceId tables.referenceRevision .references] ∧
      tables'.references = tables.references ∧ tables'.referenceRevision = tables.referenceRevision) ∨
    ∃ group ∈ tables.groups, ⊥ < group ∧ group ∉ tables.references.map (·.1) ∧
      tables'.work = tables.work ++ [initialWork row.evidenceId (tables.referenceRevision + 1) .members] ∧
      tables'.references = tables.references ++ [(group, row.evidenceId)] ∧
      tables'.referenceRevision = tables.referenceRevision + 1

omit [OrderBot Group] in
/-- A content is made the reference of a group that has none. -/
theorem admitReference_ok {eid : Nat} {group : Group} (h : tbl.admitReference eid group = .ok tbl') :
    tbl' = { tbl with references := tbl.references ++ [(group, eid)], referenceRevision := tbl.referenceRevision + 1 } ∧
      group ∉ tbl.references.map (·.1) := by
  unfold admitReference at h
  split at h
  · cases h
  · next hf =>
    cases h
    refine ⟨rfl, fun hm => hf ?_⟩
    obtain ⟨ref, hr, he⟩ := mem_map.mp hm
    exact any_eq_true.mpr ⟨ref, hr, decide_eq_true (.inl he)⟩

/-- A publication adds one row or nothing. -/
theorem publishEvidence_ok [DecidableEq Content] {content : Content} {evid : SimilarEvidence} {added : Bool}
    (h : publishEvidence names tbl content evid = .ok (tbl', added)) : tbl' = tbl ∨ ∃ row, Published tbl tbl' row := by
  unfold publishEvidence at h
  split at h
  · cases h
    exact .inl rfl
  · right
    refine ⟨⟨tbl.evidence.length + 1, content, evid⟩, ?_⟩
    dsimp only at h
    split at h
    · next variants =>
      split at h
      · cases h
      · split at h
        · next hk =>
          obtain ⟨_, had, h⟩ := Result.map_ok h
          obtain ⟨rfl, hf⟩ := admitReference_ok had
          cases h
          exact ⟨rfl, rfl, rfl, rfl, .inr (.inr ⟨_, contains_iff_mem.mp hk, names.bot_lt _, hf, rfl, rfl, rfl⟩)⟩
        · cases h
          exact ⟨rfl, rfl, rfl, rfl, .inr (.inl ⟨rfl, rfl, rfl⟩)⟩
    · next hr =>
      cases h
      refine ⟨rfl, rfl, rfl, rfl, .inl ⟨?_, rfl, rfl, rfl⟩⟩
      cases evid with
      | ready variants => exact absurd rfl (hr variants)
      | insufficientStructure => rfl
      | decodeFailed issueCode => rfl

namespace Published

variable {eid left right dist : Nat} {work : MatchWork Group}

section

variable (h : Published tbl tbl' row)

include h

/-- The new row has the next number. -/
theorem numbered (hn : tbl.Numbered) : tbl'.Numbered := by
  unfold SimilarityTables.Numbered at *
  rw [h.evidence, map_append, hn, map_singleton, length_append, length_singleton, h.next,
    range'_concat, Nat.one_mul, Nat.add_comm]

/-- The new content has the variants of its evidence. -/
theorem variantsOf_new (hn : tbl.Numbered) : tbl'.variantsOf row.evidenceId = row.evidence.variants := by
  apply (h.numbered hn).variantsOf_eq
  rw [h.evidence]
  exact mem_append_right _ (mem_singleton.mpr rfl)

/-- The other contents keep theirs. -/
theorem variantsOf_old (hold : eid ≠ row.evidenceId) : tbl'.variantsOf eid = tbl.variantsOf eid := by
  unfold variantsOf
  rw [h.evidence, find?_append, find?_singleton, if_neg (by simpa using hold.symm), Option.or_none]

/-- Only contents that were there before have variants before. -/
theorem ne_of_mem_variantsOf (hn : tbl.Numbered)
    {hash : SimilarVariant} (hh : hash ∈ tbl.variantsOf eid) : eid ≠ row.evidenceId := by
  obtain ⟨old, hm, rfl, -⟩ := exists_evidence_of_mem hh
  have := (hn.bounds hm).2
  have := h.next
  omega

theorem pairAt_mono (hn : tbl.Numbered) (hp : tbl.PairAt left right dist) : tbl'.PairAt left right dist := by
  obtain ⟨first, hf, second, hs, hm⟩ := hp
  refine ⟨first, ?_, second, ?_, hm⟩
  · rwa [h.variantsOf_old (h.ne_of_mem_variantsOf hn hf)]
  · rwa [h.variantsOf_old (h.ne_of_mem_variantsOf hn hs)]

/-- A publication only adds. -/
theorem isGrowth (hmatched : tbl.Matched) : TablesGrow tbl tbl' row.evidenceId := by
  have hne := h.next
  refine ⟨h.numbered hmatched.numbered, fun eid hk => h.variantsOf_old (by omega), h.members ▸ .refl _, ?_⟩
  rcases h.added with ⟨-, -, heq, hr⟩ | ⟨-, heq, hr⟩ | ⟨group, -, hn, hf, -, heq, hr⟩
  · exact .inl ⟨heq, hr⟩
  · exact .inl ⟨heq, hr⟩
  · refine .inr ⟨group, heq, hr, hn, hf, fun hm => ?_⟩
    obtain ⟨ref, hre, hid⟩ := mem_map.mp hm
    have := hmatched.referenceKnown ref hre
    omega

theorem mem_work (hw : work ∈ tbl.work) : work ∈ tbl'.work := by
  rcases h.added with ⟨-, heq, -⟩ | ⟨heq, -⟩ | ⟨group, -, -, -, heq, -⟩
  · exact heq ▸ hw
  · exact heq ▸ mem_append_left _ hw
  · exact heq ▸ mem_append_left _ hw

/-- A work was there before, or is the first position of the new content. -/
theorem of_mem_work (hw : work ∈ tbl'.work) : work ∈ tbl.work ∨
      work = initialWork row.evidenceId tbl'.referenceRevision .references ∧ tbl'.references = tbl.references ∨
      work = initialWork row.evidenceId tbl'.referenceRevision .members ∧
        ∃ group ∈ tbl.groups, group ∉ tbl.references.map (·.1) ∧ (group, row.evidenceId) ∈ tbl'.references := by
  rcases h.added with ⟨-, heq, -⟩ | ⟨heq, hr, hre⟩ | ⟨group, hk, -, hf, heq, hr, hre⟩
  · exact .inl (heq ▸ hw)
  · rw [heq] at hw
    rw [hre]
    rcases mem_append.mp hw with hw | hw
    · exact .inl hw
    · exact .inr (.inl ⟨mem_singleton.mp hw, hr⟩)
  · rw [heq] at hw
    rw [hre, hr]
    rcases mem_append.mp hw with hw | hw
    · exact .inl hw
    · exact .inr (.inr ⟨mem_singleton.mp hw, group, hk, hf, mem_append_right _ (mem_singleton.mpr rfl)⟩)

/-- A publication settles nothing. -/
theorem of_settled (hm : tbl.Matched) (hs : tbl'.Settled eid) : tbl.Settled eid := by
  obtain ⟨⟨work, hw, hid, hc⟩, hr⟩ := hs
  rcases h.of_mem_work hw with hw | ⟨rfl, -⟩ | ⟨rfl, -⟩
  · exact ⟨⟨work, hw, hid, hc⟩, fun hold => hr ((h.isGrowth hm).isReference hold)⟩
  · cases hc
  · cases hc

/-- The tables after a publication. -/
theorem matched (hmatched : tbl.Matched) : tbl'.Matched := by
  have hgro := h.isGrowth hmatched
  have hn := h.next
  have hl : tbl'.evidence.length = tbl.evidence.length + 1 := by
    rw [h.evidence, length_append, length_singleton]
  have hfw : row.evidenceId ∉ tbl.work.map (·.evidenceId) := by
    intro hme
    obtain ⟨work, hw, hid⟩ := mem_map.mp hme
    have := hmatched.workKnown work hw
    omega
  have hfr : ¬tbl.IsReference row.evidenceId := by
    intro hme
    obtain ⟨ref, hre, hid⟩ := mem_map.mp hme
    have := hmatched.referenceKnown ref hre
    omega
  obtain ⟨hgr, hi⟩ := hgro.referenceGroups hmatched
  refine ⟨hgro.numbered, ?_, ?_, ?_, hgr, hi, hgro.referenceNamed hmatched, ?_, ?_, ?_, ?_⟩
  · rcases h.added with ⟨-, heq, -⟩ | ⟨heq, -⟩ | ⟨group, -, -, -, heq, -⟩
    · rw [heq]
      exact hmatched.workIds
    · rw [heq, map_append, map_singleton, ← concat_eq_append]
      exact List.Nodup.concat hfw hmatched.workIds
    · rw [heq, map_append, map_singleton, ← concat_eq_append]
      exact List.Nodup.concat hfw hmatched.workIds
  · intro work hw
    rw [hl]
    rcases h.of_mem_work hw with hw | ⟨rfl, -⟩ | ⟨rfl, -⟩
    · exact Nat.le_succ_of_le (hmatched.workKnown work hw)
    · exact Nat.le_of_eq hn
    · exact Nat.le_of_eq hn
  · intro eid hv
    by_cases hid : eid = row.evidenceId
    · subst hid
      rw [h.variantsOf_new hmatched.numbered] at hv
      rcases h.added with ⟨hno, -⟩ | ⟨heq, -⟩ | ⟨group, -, -, -, heq, -⟩
      · exact absurd hno hv
      · exact ⟨_, heq ▸ mem_append_right _ (mem_singleton.mpr rfl), rfl⟩
      · exact ⟨_, heq ▸ mem_append_right _ (mem_singleton.mpr rfl), rfl⟩
    · rw [h.variantsOf_old hid] at hv
      obtain ⟨work, hw, heq⟩ := hmatched.workOf eid hv
      exact ⟨work, h.mem_work hw, heq⟩
  · intro ref hre
    rcases hgro.of_mem_references hre with hre | ⟨hne, -⟩
    · have := hmatched.referenceKnown ref hre
      omega
    · omega
  · intro work hw
    rcases h.of_mem_work hw with hw | ⟨rfl, -⟩ | ⟨rfl, -⟩
    · exact Nat.le_trans (hmatched.revisions work hw) hgro.revision_le
    · exact Nat.le_refl _
    · exact Nat.le_refl _
  · intro group eid dist hm
    rw [h.members] at hm
    obtain ⟨ref, hre, hg, hp⟩ := hmatched.sound group eid dist hm
    exact ⟨ref, hgro.mem_references hre, hg, h.pairAt_mono hmatched.numbered hp⟩
  · intro work hw
    rcases h.of_mem_work hw with hold | ⟨rfl, hr⟩ | ⟨rfl, group, -, -, hg⟩
    · have hk := hmatched.workKnown work hold
      refine hgro.other_ok hmatched (fun eid hs => ?_) hold (by omega)
      have hs := h.of_settled hmatched hs
      obtain ⟨o, ho, rfl, -⟩ := hs.1
      exact ⟨hmatched.workKnown o ho, .inl hs⟩
    · refine ok_of_references rfl (Cursor.done_start ?_) nofun ?_
      · intro referenceRow hro
        obtain ⟨ref, hre, hg, -⟩ := mem_referenceRows.mp hro
        rw [hg]
        exact hgro.referenceNamed hmatched ref hre
      · unfold SimilarityTables.IsReference
        rw [hr]
        exact hfr
    · exact ok_of_members rfl ⟨group, hg, Cursor.done_start hgro.numbered.variantRow_pos⟩

end

end Published

end Publish

end Invariant

end Ame
