import Ame.Discovery.Cohorts
import Ame.Lib.Iter
import Ame.Lib.Lead
import Mathlib

/-!
# Selection of a category scheme

`application/classification_discovery/scheme/selection.rs`. Proposed categories that repeat an existing definition or an existing
name are set aside. Of the others one at a time is removed, until each has enough members of its own, no two have one name and no
more are left than may be added. A sample is a member of the category that is best for it, if that category is eligible, better
than what the sample has, and better than every other category by the required margins.

Scores are rational numbers. Lower case is any function on labels. The cancellation flag has one value during a call.
-/

namespace Ame

structure CategoryDefinition where
  id : String
  label : String
  descriptions : List String
  deriving DecidableEq, Repr

inductive CategorySchemeDisposition where
  | admitted
  | existingDefinition (id : String)
  | nameConflict
  | insufficientMembers
  | overlappingProposal
  | additionBudget
  deriving DecidableEq, Repr

structure CategorySchemeCandidate where
  categoryId : String
  disposition : CategorySchemeDisposition
  uniqueMembers : Nat
  meanMarginalGain : ℚ
  deriving DecidableEq, Repr

/-- The criteria the selection reads. -/
structure CategoryAdmissionCriteria where
  minimumMembers : Nat
  minimumImprovement : ℚ
  minimumSeparation : ℚ
  maxProposals : Nat

/-- The scores of one sample: the similarity of its present category and of each proposal. -/
structure ScoredSample (count : Nat) where
  baseline : ℚ
  proposed : Fin count → ℚ
  eligible : Fin count → Bool

structure Support where
  members : Nat
  gain : ℚ
  deriving DecidableEq, Repr

/-- `scheme::invalid`. -/
def schemeInvalid : ScanError :=
  ⟨"classification_scheme_invalid",
    "Category scheme assessment requires compatible bounded samples and unchanged existing definitions"⟩

section

variable {count : Nat} (active : Finset (Fin count))

/-- The proposals of a set in ascending order. -/
def ascending : List (Fin count) := (List.finRange count).filter (· ∈ active)

/-- The proposal a sample supports, and by how much. -/
def supportingCandidate (sample : ScoredSample count) (criteria : CategoryAdmissionCriteria) : Option (Fin count × ℚ) :=
  let scan := Lead.scan sample.baseline sample.proposed (ascending active)
  match scan.leading with
  | none => none
  | some index =>
    let improvement := scan.best - sample.baseline
    let separation := scan.best - scan.second
    if sample.eligible index ∧ 0 < improvement ∧ criteria.minimumImprovement ≤ improvement ∧ 0 < separation ∧
        criteria.minimumSeparation ≤ separation then
      some (index, separation)
    else none

/-- Count one sample. -/
def countSupport (criteria : CategoryAdmissionCriteria) (support : Fin count → Support)
    (sample : ScoredSample count) : Fin count → Support :=
  match supportingCandidate active sample criteria with
  | none => support
  | some (index, separation) =>
    Function.update support index ⟨(support index).members + 1, (support index).gain + separation⟩

/-- The support of each proposal among the active ones. -/
def schemeSupport (samples : List (ScoredSample count)) (criteria : CategoryAdmissionCriteria) : Fin count → Support :=
  samples.foldl (countSupport active criteria) fun _ => ⟨0, 0⟩

/-- The proposal with the least gain, then the fewest members, then the last one. -/
def weakest (indices : List (Fin count)) (support : Fin count → Support) : Option (Fin count) :=
  Iter.minByKey (fun index => toLex ((support index).gain, toLex ((support index).members, OrderDual.toDual index))) indices

/-- Write the support of a proposal into its outcome. -/
def recordSupport (candidate : CategorySchemeCandidate) (support : Support) : CategorySchemeCandidate :=
  { candidate with
    uniqueMembers := support.members
    meanMarginalGain := if support.members = 0 then 0 else support.gain / support.members }

variable (lowercase : String → String)

/-- Whether another active proposal has the same name. -/
def hasNamesake (proposed : Fin count → CategoryDefinition) (active : Finset (Fin count)) (index : Fin count) : Bool :=
  (ascending active).any fun other => index ≠ other ∧ lowercase (proposed index).label = lowercase (proposed other).label

/-- The proposals one of which has to go, and why; nothing if all may stay. -/
def removable (proposed : Fin count → CategoryDefinition)
    (criteria : CategoryAdmissionCriteria) (active : Finset (Fin count)) (statistics : Fin count → Support) :
    Option (List (Fin count) × CategorySchemeDisposition) :=
  let weak := (ascending active).filter fun index => (statistics index).members < criteria.minimumMembers
  if weak ≠ [] then some (weak, .overlappingProposal)
  else
    let duplicateNames := (ascending active).filter (hasNamesake lowercase proposed active)
    if duplicateNames ≠ [] then some (duplicateNames, .nameConflict)
    else if criteria.maxProposals < active.card then some (ascending active, .additionBudget)
    else none

/-- The disposition of a removed proposal: one that overlaps others may have too few members even alone. -/
def removedDisposition (samples : List (ScoredSample count)) (criteria : CategoryAdmissionCriteria) (index : Fin count)
    (disposition : CategorySchemeDisposition) : CategorySchemeDisposition :=
  if disposition = .overlappingProposal ∧ (schemeSupport {index} samples criteria index).members < criteria.minimumMembers then
    .insufficientMembers
  else disposition

theorem mem_ascending {active : Finset (Fin count)} {idx : Fin count} : idx ∈ ascending active ↔ idx ∈ active := by
  simp [ascending]

/-- What may have to go is active. -/
theorem removable_active {lower : String → String} {proposed : Fin count → CategoryDefinition}
    {criteria : CategoryAdmissionCriteria} {active : Finset (Fin count)} {statistics : Fin count → Support}
    {indices : List (Fin count)} {disposition : CategorySchemeDisposition}
    (h : removable lower proposed criteria active statistics = some (indices, disposition)) :
    indices ≠ [] ∧ ∀ idx ∈ indices, idx ∈ active := by
  unfold removable at h
  dsimp only at h
  split at h
  · next hw =>
    cases h
    exact ⟨hw, fun idx hi => mem_ascending.mp (List.mem_filter.mp hi).1⟩
  · split at h
    · next hd =>
      cases h
      exact ⟨hd, fun idx hi => mem_ascending.mp (List.mem_filter.mp hi).1⟩
    · split at h
      · next hb =>
        cases h
        refine ⟨?_, fun idx hi => mem_ascending.mp hi⟩
        intro hn
        have he : active = ∅ := by
          ext idx
          rw [← mem_ascending, hn]
          simp
        rw [he] at hb
        simp at hb
      · cases h

theorem weakest_mem {indices : List (Fin count)} {support : Fin count → Support} {idx : Fin count}
    (h : weakest indices support = some idx) : idx ∈ indices :=
  Iter.minByKey_mem h

/-- The rounds of the selection. -/
def reduceScheme (lowercase : String → String) (proposed : Fin count → CategoryDefinition)
    (samples : List (ScoredSample count)) (criteria : CategoryAdmissionCriteria) (cancelled : Bool)
    (active : Finset (Fin count)) (outcomes : Fin count → CategorySchemeCandidate) :
    Except ScanError (Fin count → CategorySchemeCandidate) := do
  checkCancelled cancelled
  let statistics := schemeSupport active samples criteria
  match _h : removable lowercase proposed criteria active statistics with
  | none =>
    return fun index => if index ∈ active then recordSupport (outcomes index) (statistics index) else outcomes index
  | some (indices, disposition) =>
    match _hindex : weakest indices statistics with
    | none => .error schemeInvalid
    | some index =>
      reduceScheme lowercase proposed samples criteria cancelled (active.erase index) (Function.update outcomes index
          { recordSupport (outcomes index) (statistics index) with
            disposition := removedDisposition samples criteria index disposition })
termination_by active.card
decreasing_by exact Finset.card_erase_lt_of_mem ((removable_active _h).2 _ (weakest_mem _hindex))

/-- What is said of a proposal before the selection: it repeats a definition, it repeats a name, or it is a candidate. -/
def initialDisposition (existing : List CategoryDefinition) (category : CategoryDefinition) :
    CategorySchemeDisposition :=
  match existing.find? fun known => known.descriptions = category.descriptions with
  | some known => .existingDefinition known.id
  | none =>
    if existing.any fun known => lowercase known.label = lowercase category.label then .nameConflict else .admitted

/-- `selection::select`. -/
def selectScheme (existing : List CategoryDefinition)
    (proposed : Fin count → CategoryDefinition) (samples : List (ScoredSample count)) (criteria : CategoryAdmissionCriteria)
    (cancelled : Bool) : Except ScanError (Fin count → CategorySchemeCandidate) :=
  reduceScheme lowercase proposed samples criteria cancelled
    (Finset.univ.filter fun index => initialDisposition lowercase existing (proposed index) = .admitted)
    fun index =>
      { categoryId := (proposed index).id
        disposition := initialDisposition lowercase existing (proposed index)
        uniqueMembers := 0
        meanMarginalGain := 0 }

end

end Ame
