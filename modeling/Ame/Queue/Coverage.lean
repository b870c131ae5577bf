import Ame.Domain.Intent
import Ame.Lib.PathRegion

/-!
# Coverage between intents (`change_queue/coalescing.rs`)

The predicates the queue coalesces by: when one intent covers another, when two overlap, and how the evidence of one is merged
into the other. The meaning they are measured against is `LibraryChangeIntent.denote`: the paths an intent asks to examine.
-/

namespace Ame

open PathRegion LibraryChangeIntent

/-! ## The predicates of the source -/

/-- `is_within_subtree` -/
def isWithinSubtree (path subtree : String) : Bool :=
  path == subtree || (stripPrefix path subtree).any (fun suffix => startsWith suffix '/')

section

variable (intent : LibraryChangeIntent)

/-- `rename_lineage_previous_path`: the previous path of a rename candidate, or of a path reconcile that remembers one. -/
def renameLineagePreviousPath : Option String :=
  if intent.kind = .renameCandidate ∨ intent.kind = .reconcile ∧ intent.scope = .path then intent.previousRelativePath
  else none

/-- `path_rename_lineage_previous_path` -/
def pathRenameLineagePreviousPath : Option String :=
  if intent.scope = .path then renameLineagePreviousPath intent else none

/-- `is_precise_dirty_reconcile`: a reconcile of one path from a source that saw that path change. -/
def isPreciseDirtyReconcile : Bool :=
  intent.kind == .reconcile && intent.scope == .path &&
    match intent.origin with
    | .liveNotification | .startupCatchUp | .metadataInventory => true
    | .userRefresh | .consistencyAudit => false

end

/-- `same_rename_lineage` -/
def sameRenameLineage (left right : LibraryChangeIntent) : Bool :=
  left.scope == .path && right.scope == .path && left.relativePath == right.relativePath &&
    (pathRenameLineagePreviousPath left).isSome &&
    pathRenameLineagePreviousPath left == pathRenameLineagePreviousPath right

/-- `same_work_key` -/
def sameWorkKey (left right : LibraryChangeIntent) : Bool :=
  (left.kind == right.kind && left.scope == right.scope && left.relativePath == right.relativePath &&
    left.previousRelativePath == right.previousRelativePath) || sameRenameLineage left right

/-- `intent_covers` -/
def intentCovers (covering candidate : LibraryChangeIntent) : Bool :=
  if covering.scope ≠ .path ∧ isPreciseDirtyReconcile candidate then false
  else if covering.scope = .root then true
  else if covering.scope = .subtree then
    (affectedPaths candidate).all fun candidatePath =>
      (affectedPaths covering).any fun subtreePath => isWithinSubtree candidatePath subtreePath
  else
    sameWorkKey covering candidate ||
      (pathRenameLineagePreviousPath covering).isSome && candidate.kind == .reconcile && candidate.scope == .path &&
        covering.relativePath == candidate.relativePath

/-- `affected_paths_overlap` -/
def affectedPathsOverlap (left right : LibraryChangeIntent) : Bool :=
  (affectedPaths left).any fun leftPath =>
    (affectedPaths right).any fun rightPath =>
      leftPath == rightPath || left.scope == .subtree && isWithinSubtree rightPath leftPath ||
        right.scope == .subtree && isWithinSubtree leftPath rightPath

/-- `stale_overlap` -/
def staleOverlap (leased incoming : LibraryChangeIntent) : Bool :=
  intentCovers leased incoming || intentCovers incoming leased || affectedPathsOverlap leased incoming

/-- `has_conflicting_rename`: the incoming intent and another one move overlapping paths in different ways. -/
def hasConflictingRename (active : List LibraryChangeIntent) (incoming : LibraryChangeIntent) : Bool :=
  (renameLineagePreviousPath incoming).isSome && active.any fun change =>
    (renameLineagePreviousPath change).isSome && !sameWorkKey change incoming && affectedPathsOverlap change incoming

/-- `intent_strength` -/
def intentStrength (intent : LibraryChangeIntent) : Nat :=
  if intent.kind = .reconcile ∧ (pathRenameLineagePreviousPath intent).isSome then 2
  else
    match intent.kind, intent.scope with
    | .freshnessUnknown, _ => 5
    | _, .root => 4
    | _, .subtree => 3
    | .renameCandidate, _ => 2
    | _, _ => 1

/-- The bound of a `u32`, at which observation counts saturate. -/
def u32Max : Nat := 2 ^ 32 - 1

section

variable (target evidence : LibraryChangeIntent)

/-- `merge_dirty_rename_semantics`: a reconcile and a rename of one path become a reconcile that remembers the old path. -/
def mergeDirtyRenameSemantics : LibraryChangeIntent :=
  if target.scope ≠ .path ∨ evidence.scope ≠ .path ∨ target.relativePath ≠ evidence.relativePath then target
  else
    let targetPrevious := pathRenameLineagePreviousPath target
    let evidencePrevious := pathRenameLineagePreviousPath evidence
    if targetPrevious.isSome ∧ evidencePrevious.isSome ∧ targetPrevious ≠ evidencePrevious then target
    else
      let previous :=
        if target.kind = .reconcile then evidencePrevious
        else if evidence.kind = .reconcile then targetPrevious
        else none
      match previous with
      | none => target
      | some previous => { target with kind := .reconcile, previousRelativePath := some previous }

/-- `merge_evidence_range` -/
def mergeEvidenceRange : LibraryChangeIntent :=
  let target := mergeDirtyRenameSemantics target evidence
  { target with
    firstObservedUnixMs := min target.firstObservedUnixMs evidence.firstObservedUnixMs
    firstSequence := min target.firstSequence evidence.firstSequence
    coalescedObservationCount := min (target.coalescedObservationCount + evidence.coalescedObservationCount) u32Max }

/-- `merge_newer_evidence` -/
def mergeNewerEvidence : LibraryChangeIntent :=
  { mergeEvidenceRange target evidence with
    mostRecentObservedUnixMs := evidence.mostRecentObservedUnixMs
    mostRecentSequence := evidence.mostRecentSequence
    origin := evidence.origin }

/-- `merge_older_evidence` -/
def mergeOlderEvidence : LibraryChangeIntent := mergeEvidenceRange target evidence

end

section

variable (intent : LibraryChangeIntent)

/-- What a list of work becomes when it cannot be told apart any more: an unknown-freshness intent over the whole root. -/
def widenToRoot : LibraryChangeIntent :=
  { intent with kind := .freshnessUnknown, scope := .root, relativePath := "", previousRelativePath := none }

/-! ## What an intent denotes -/

/-- The region of the root an intent speaks about. -/
def LibraryChangeIntent.region : Region Char :=
  match intent.scope with
  | .root => .all
  | .subtree => .below ((affectedPaths intent).map String.toList)
  | .path => .only ((affectedPaths intent).map String.toList)

/-- The paths an intent asks to examine: every path for `Root`, every path at or below one it names for `Subtree`, exactly the
ones it names for `Path`. -/
def LibraryChangeIntent.denote (path : String) : Prop :=
  intent.region.Mem '/' path.toList

end

/-- The paths a list of intents asks to examine. -/
def Denotes (intents : List LibraryChangeIntent) (path : String) : Prop := ∃ intent ∈ intents, intent.denote path

/-- `is_within_subtree` decides lying within, with the slash as separator. -/
theorem isWithinSubtree_iff (path subtree : String) :
    isWithinSubtree path subtree = true ↔ Within '/' path.toList subtree.toList := by
  unfold isWithinSubtree Within stripPrefix startsWith
  rw [Bool.or_eq_true, beq_iff_eq, String.toList_inj]
  refine or_congr Iff.rfl ?_
  constructor
  · intro h
    cases hd : path.toList.dropPrefix? subtree.toList with
    | none => simp [hd] at h
    | some suffix =>
      obtain ⟨pre, hp, heq⟩ := List.dropPrefix?_eq_some_iff.mp hd
      simp only [hd, Option.map_some, Option.any_some, String.toList_ofList, beq_iff_eq] at h
      obtain ⟨rest, rfl⟩ := List.head?_eq_some_iff.mp h
      rw [hp, ← eq_of_beq heq]
      exact ⟨rest, by simp⟩
  · rintro ⟨rest, hr⟩
    simp [← hr, List.dropPrefix?_append_of_beq]

section

variable {i : LibraryChangeIntent}

/-- A root-scope intent denotes everything. -/
theorem denote_of_root (h : i.scope = .root) (p : String) : i.denote p := by
  simp [denote, region, h, Region.Mem]

/-- What a subtree-scope intent denotes. -/
theorem denote_subtree_iff (h : i.scope = .subtree) (p : String) :
    i.denote p ↔ ∃ q ∈ affectedPaths i, Within '/' p.toList q.toList := by
  simp [denote, region, h, Region.Mem]

/-- What a path-scope intent denotes. -/
theorem denote_path_iff (h : i.scope = .path) (p : String) : i.denote p ↔ p ∈ affectedPaths i := by
  simp [denote, region, h, Region.Mem, String.toList_inj]

@[simp] theorem mem_affectedPaths {p : String} :
    p ∈ affectedPaths i ↔ p = i.relativePath ∨ i.previousRelativePath = some p := by
  simp [affectedPaths]

end

/-- An intent's denotation depends only on its scope and its paths. -/
theorem denote_congr {i j : LibraryChangeIntent} (hs : i.scope = j.scope) (hr : i.relativePath = j.relativePath)
    (hp : i.previousRelativePath = j.previousRelativePath) (p : String) : i.denote p ↔ j.denote p := by
  simp only [denote, region, affectedPaths, hs, hr, hp]

end Ame
