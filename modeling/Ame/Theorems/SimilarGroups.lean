import Ame.Lemmas.SimilarWindows
import Ame.Lib.Transition
import Mathlib

/-!
# Similarity groups

What the groups are once the matching has come to rest. A group is an exact star: its members are the contents that match the
reference, at the least distance. Of two similar contents the one that was published later is in some group. The earlier one need
not be: it is found again only when a content like it becomes a reference, and a content that matches a reference already never
becomes one.
-/

namespace Ame

open List

section Runs

variable {Content Group : Type} [DecidableEq Content] [LinearOrder Group] [OrderBot Group]

inductive SimilarAction (Content : Type) where
  | publish (content : Content) (evidence : SimilarEvidence)
  | window

/-- One transaction. One that fails changes nothing and is no step. -/
def similarStep (names : GroupNames Content Group) (tables : SimilarityTables Content Group) :
    SimilarAction Content → Option (SimilarityTables Content Group)
  | .publish content evidence => (publishEvidence names tables content evidence).toOption.map (·.1)
  | .window => (advanceMatching names tables).toOption.map (·.1)

/-- Publications and windows in any order. -/
abbrev SimilarRun (names : GroupNames Content Group) :=
  Transition.Run fun tables action tables' => similarStep names tables action = some tables'

/-- Empty similarity tables, but for group rows that are known already. -/
def freshTables (groups : List Group) (referenceRevision : Nat) : SimilarityTables Content Group :=
  { evidence := [], groups, references := [], members := fun _ _ => none, work := [], referenceRevision }

variable {names : GroupNames Content Group} {tbl : SimilarityTables Content Group}

/-- A step is a publication or a window that succeeds. -/
theorem similarStep_cases {tbl' : SimilarityTables Content Group} {action : SimilarAction Content}
    (h : similarStep names tbl action = some tbl') :
    (∃ content evid added, publishEvidence names tbl content evid = .ok (tbl', added)) ∨
      ∃ advanced, advanceMatching names tbl = .ok (tbl', advanced) := by
  cases action with
  | publish content evid =>
    left
    cases hp : publishEvidence names tbl content evid with
    | error error =>
      rw [similarStep, hp] at h
      cases h
    | ok res =>
      rw [similarStep, hp] at h
      cases h
      exact ⟨content, evid, res.2, hp⟩
  | window =>
    right
    cases ha : advanceMatching names tbl with
    | error error =>
      rw [similarStep, ha] at h
      cases h
    | ok res =>
      rw [similarStep, ha] at h
      cases h
      exact ⟨res.2, rfl⟩

omit [DecidableEq Content] in
theorem freshTables_matched (groups : List Group) (referenceRevision : Nat) :
    (freshTables groups referenceRevision : SimilarityTables Content Group).Matched := by
  constructor <;> simp [freshTables, SimilarityTables.Numbered, SimilarityTables.variantsOf]

/-- A step keeps the tables matched. -/
theorem similarStep_matched {action : SimilarAction Content} (h : tbl.Matched)
    (hs : similarStep names tbl action = some tbl') : tbl'.Matched := by
  rcases similarStep_cases hs with ⟨content, evid, added, hpu⟩ | ⟨advanced, ha⟩
  · rcases publishEvidence_ok hpu with rfl | ⟨row, hp⟩
    · exact h
    · exact hp.matched h
  · exact advanceMatching_matched h ha

/-- So does a run. -/
theorem SimilarRun.matched {groups : List Group} {referenceRevision : Nat} {actions : List (SimilarAction Content)}
    (h : SimilarRun names (freshTables groups referenceRevision) actions tbl) : tbl.Matched :=
  h.state_invariant (freshTables_matched groups referenceRevision) fun _ _ _ => similarStep_matched

end Runs

/-! ## Stars -/

section Stars

variable {Content Group : Type} [LinearOrder Group] [OrderBot Group] {tables tbl : SimilarityTables Content Group}
  {eid : Nat} {reference ref : Group × Nat}

omit [LinearOrder Group] [OrderBot Group] in
/-- Nothing is pending: every work is complete. -/
theorem complete_of_idle (hi : loadWork tbl = none) : ∀ work ∈ tbl.work, work.phase = .complete := by
  intro work hw
  have hn := Iter.minByKey_eq_none.mp hi
  simpa using filter_eq_nil_iff.mp hn work hw

/-- At rest, a content with variants that is not a reference is settled. -/
theorem SimilarityTables.Matched.settled_of_idle (h : tbl.Matched) (hi : loadWork tbl = none) {hash : SimilarVariant}
    (hh : hash ∈ tbl.variantsOf eid) (hr : ¬tbl.IsReference eid) : tbl.Settled eid := by
  obtain ⟨work, hw, hid⟩ := h.workOf eid (ne_nil_of_mem hh)
  exact ⟨⟨work, hw, hid, complete_of_idle hi work hw⟩, hr⟩

/-- At rest, what matches a reference is a member of its group. -/
theorem SimilarityTables.Matched.covered_of_idle (h : tbl.Matched) (hi : loadWork tbl = none)
    (hre : ref ∈ tbl.references) (hr : ¬tbl.IsReference eid) : tbl.Covered ref eid := by
  intro dist hp
  obtain ⟨first, hf, second, hse, -⟩ := id hp
  have hs := h.settled_of_idle hi hse hr
  obtain ⟨work, hw, hid⟩ := h.workOf ref.2 (ne_nil_of_mem hf)
  exact (h.works work hw).complete (complete_of_idle hi work hw) ref hre hid.symm eid hs dist hp

/-- The members of the group of a reference, among the contents that are not references, are those that match it, at the least
distance. -/
def SimilarityTables.IsStar (tables : SimilarityTables Content Group) (reference : Group × Nat) : Prop :=
  ∀ row ∈ tables.evidence, ¬tables.IsReference row.evidenceId →
    ((∃ distance, tables.members reference.1 row.evidenceId = some distance) ↔ tables.Similar reference.2 row.evidenceId) ∧
    ∀ distance, tables.members reference.1 row.evidenceId = some distance → tables.PairAt reference.2 row.evidenceId distance ∧
        ∀ other, tables.PairAt reference.2 row.evidenceId other → distance ≤ other

theorem SimilarityTables.Matched.isStar_of_idle (h : tbl.Matched) (hi : loadWork tbl = none)
    (hre : ref ∈ tbl.references) : tbl.IsStar ref := by
  intro row hro hr
  have hso : ∀ dist, tbl.members ref.1 row.evidenceId = some dist → tbl.PairAt ref.2 row.evidenceId dist := by
    intro dist hm
    obtain ⟨ref', hre', hg, hp⟩ := h.sound _ _ _ hm
    rwa [inj_on_of_nodup_map h.referenceGroups hre' hre hg] at hp
  have hc := h.covered_of_idle hi hre hr
  refine ⟨⟨?_, ?_⟩, ?_⟩
  · rintro ⟨dist, hm⟩
    exact ⟨dist, hso dist hm⟩
  · rintro ⟨dist, hp⟩
    obtain ⟨stored, -, hm⟩ := hc dist hp
    exact ⟨stored, hm⟩
  · intro dist hm
    refine ⟨hso dist hm, ?_⟩
    intro o hp
    obtain ⟨stored, hle, hs⟩ := hc o hp
    rw [hm] at hs
    rw [Option.some.inj hs]
    exact hle

end Stars

section Results

variable {Content Group : Type} [DecidableEq Content] [LinearOrder Group] [OrderBot Group]
  {names : GroupNames Content Group} {tables tbl : SimilarityTables Content Group}

/-- Whenever the matching is at rest, every group is an exact star around its reference; and the index of the four words misses
no pair within the maximum distance. -/
theorem similarity_groups_exact_stars {groups : List Group} {referenceRevision : Nat} {actions : List (SimilarAction Content)}
    (hrun : SimilarRun names (freshTables groups referenceRevision) actions tables) (hidle : loadWork tables = none) :
    (∀ reference ∈ tables.references, tables.IsStar reference) ∧
      ∀ left right : SimilarVariant, candidateDistance left.candidate right.candidate ≤ similarityMaxDistance →
        ∃ band, right.candidate band ∈ bandNeighbors (left.candidate band) :=
  ⟨fun _ hr => (SimilarRun.matched hrun).isStar_of_idle hidle hr, fun _ _ hc => exists_band_of_close hc⟩

/-! ## Contents that are left out -/

/-- A content matches a reference that was published before it. -/
def SimilarityTables.Absorbed (tables : SimilarityTables Content Group) (evidenceId : Nat) : Prop :=
  ∃ reference ∈ tables.references, reference.2 < evidenceId ∧ tables.Similar reference.2 evidenceId

/-- How references come about when no group is known beforehand: contents are finished in the order of their publication. -/
structure SimilarityTables.InOrder (tables : SimilarityTables Content Group) : Prop where
  groups : tables.groups = tables.references.map (·.1)
  order : ∀ work ∈ tables.work, ∀ later ∈ tables.work, work.evidenceId < later.evidenceId → work.phase ≠ .complete →
    later.phase = .references ∧ ¬tables.IsReference later.evidenceId
  settled : ∀ evidenceId, tables.Settled evidenceId →
    tables.Absorbed evidenceId ∨ ∀ other < evidenceId, ¬tables.Similar evidenceId other
  own : ∀ reference ∈ tables.references, ∃ distance, tables.members reference.1 reference.2 = some distance

end Results

/-! ## A content that is left out -/

section Stranded

/-- A hash with the given words. -/
def wordsOf (first second third fourth : BitVec 16) : SimilarVariant := ⟨![first, second, third, fourth], fun _ => 0⟩

/-- Groups are named by the successor of their content. -/
def successorNames : GroupNames Nat Nat := ⟨(· + 1), fun content => Nat.succ_pos content⟩

/-- Two contents form a group; a third is unlike both and is finished alone; a fourth is like the first and the third. -/
def strandedActions : List (SimilarAction Nat) :=
  [.publish 1 (.ready [wordsOf 0x100 0 0 0]), .publish 2 (.ready [wordsOf 0x100 0 0 0x8000]),
    .publish 3 (.ready [wordsOf 0x13f 63 15 15])] ++ List.replicate 21 .window ++
  [.publish 4 (.ready [wordsOf 0x107 7 3 3])] ++ List.replicate 4 .window

/-- At rest the fourth content is a member of the group of the first, and the third of none. -/
theorem stranded_run : ∃ tbl : SimilarityTables Nat Nat,
    SimilarRun successorNames (freshTables [] 0) strandedActions tbl ∧ loadWork tbl = none ∧
      tbl.references = [(2, 1)] ∧ tbl.members 2 3 = none ∧ tbl.members 2 4 = some 10 ∧
      tbl.variantsOf 1 = [wordsOf 0x100 0 0 0] ∧ tbl.variantsOf 3 = [wordsOf 0x13f 63 15 15] ∧
      tbl.variantsOf 4 = [wordsOf 0x107 7 3 3] := by
  have he : (strandedActions.foldlM (similarStep successorNames) (freshTables [] 0)).any (fun tbl =>
      decide (loadWork tbl = none ∧ tbl.references = [(2, 1)] ∧ tbl.members 2 3 = none ∧
        tbl.members 2 4 = some 10 ∧ tbl.variantsOf 1 = [wordsOf 0x100 0 0 0] ∧
        tbl.variantsOf 3 = [wordsOf 0x13f 63 15 15] ∧ tbl.variantsOf 4 = [wordsOf 0x107 7 3 3])) = true := by
    decide +kernel
  cases hr : strandedActions.foldlM (similarStep successorNames) (freshTables [] 0) with
  | none =>
    rw [hr] at he
    cases he
  | some tbl =>
    rw [hr] at he
    exact ⟨tbl, Transition.Run.of_foldlM hr, of_decide_eq_true he⟩

theorem similarity_groups_exact_stars_four : ∃ tables : SimilarityTables Nat Nat,
    SimilarRun successorNames (freshTables [] 0) strandedActions tables ∧ loadWork tables = none ∧
      tables.members 2 4 = some 10 ∧
      (∀ reference ∈ tables.references, tables.IsStar reference) ∧
      ∀ left right : SimilarVariant, candidateDistance left.candidate right.candidate ≤ similarityMaxDistance →
        ∃ band, right.candidate band ∈ bandNeighbors (left.candidate band) := by
  obtain ⟨tables, hr, hi, -, -, hm, -⟩ := stranded_run
  exact ⟨tables, hr, hi, hm, similarity_groups_exact_stars hr hi⟩

end Stranded

end Ame
