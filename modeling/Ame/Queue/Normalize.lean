import Ame.Lemmas.Coverage
import Ame.Lib.Iter
import Mathlib

/-!
# Normalizing a journal batch (`change_queue/coalescing.rs`)

`normalize_persistent_journal_intents` coalesces the intents of one journal batch before they are enqueued: it sorts them by
sequence and folds them into a list, one at a time. An incoming intent that moves a path another one moves elsewhere turns the
list into one root-scope intent; an intent that a listed one covers is merged into it; and otherwise the intents it covers are
merged into one.
-/

namespace Ame

open Iter

/-- The key a batch is processed by. -/
def processingKey (intent : LibraryChangeIntent) : Nat ×ₗ Nat ×ₗ String :=
  toLex (intent.mostRecentSequence, toLex (intent.firstSequence, canonicalIntent intent))

/-- The batch in processing order: `sort_by_cached_key` is a stable sort. -/
def processingOrder (intents : List LibraryChangeIntent) : List LibraryChangeIntent :=
  intents.insertionSort (fun a b => processingKey a ≤ processingKey b)

section

variable (active : List LibraryChangeIntent) (incoming : LibraryChangeIntent)

/-- The intents an incoming one covers, each with its position: `absorbed`. -/
def absorbedBy : List (LibraryChangeIntent × Nat) :=
  active.zipIdx.filter (fun change => intentCovers incoming change.1)

/-- The strongest of the intents an incoming one covers: `stronger`. -/
def strongerOf : Option (LibraryChangeIntent × Nat) :=
  maxByKey (fun change => intentStrength change.1) (absorbedBy active incoming)

end

/-- The merged intent when the incoming one is covered by `target`; `others` are the rest of the list. -/
def mergeIntoCovering (target incoming : LibraryChangeIntent) (others : List LibraryChangeIntent) : LibraryChangeIntent :=
  let merged := mergeNewerEvidence target incoming
  let merged := if incoming.kind = .freshnessUnknown then { merged with kind := .freshnessUnknown } else merged
  others.foldl (fun merged change => if intentCovers merged change then mergeOlderEvidence merged change else merged) merged

section

variable (active : List LibraryChangeIntent) (incoming : LibraryChangeIntent)

/-- The merged intent when nothing covers the incoming one. -/
def mergeAbsorbed : LibraryChangeIntent :=
  let stronger := strongerOf active incoming
  let merged := match stronger with
    | some change => mergeNewerEvidence change.1 incoming
    | none => incoming
  (absorbedBy active incoming).foldl
    (fun merged change => if some change.2 ≠ stronger.map (·.2) then mergeOlderEvidence merged change.1 else merged) merged

/-- `normalize_persistent_journal_intent`: fold one intent into the list. -/
def normalizePersistentJournalIntent : List LibraryChangeIntent :=
  if hasConflictingRename active incoming then [active.foldl mergeOlderEvidence (widenToRoot incoming)]
  else
    match active.findIdx? (fun change => intentCovers change incoming) with
    | some targetIndex =>
      let target := active.getD targetIndex incoming
      let merged := mergeIntoCovering target incoming (active.eraseIdx targetIndex)
      (active.take targetIndex).filter (fun change => !intentCovers merged change) ++
        merged :: (active.drop (targetIndex + 1)).filter (fun change => !intentCovers merged change)
    | none =>
      active.filter (fun change => !intentCovers incoming change) ++ [mergeAbsorbed active incoming]

end

/-- `normalize_persistent_journal_intents` -/
def normalizePersistentJournalIntents (intents : List LibraryChangeIntent) : Except ScanError (List LibraryChangeIntent) :=
  match intents with
  | [] => .ok []
  | first :: _ => do
    validateIntentBatch intents first
    let normalized := (processingOrder intents).foldl normalizePersistentJournalIntent []
    .ok (normalized.insertionSort (fun a b => canonicalIntent a ≤ canonicalIntent b))

end Ame
