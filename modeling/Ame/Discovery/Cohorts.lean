import Ame.Domain.Text
import Mathlib

/-!
# Discovery cohorts

`application/classification_discovery/cohorts.rs` and `cohorts/linkage.rs`. The samples of a window are grouped by complete
linkage: as long as two groups are so similar that even their least similar members are, the most similar two are joined. A group
becomes a cohort if it is large enough and some other sample is ranked under one of its categories; the others are deferred.

The similarities are any linear order with a zero and a one, the cosine of two features any partial function into it (it fails on
features of different dimensions). What the matcher says about a feature is a parameter: its leading category, if it can rank the
feature, and whether the feature belongs to its model. The cancellation flag has one value during a call.
-/

namespace Ame

structure ClassificationContent where
  scheme : String
  digest : List Nat
  byteLength : Nat
  deriving DecidableEq, Repr

/-- `content_key`. -/
def contentKey (content : ClassificationContent) : String ×ₗ (List Nat ×ₗ Nat) :=
  toLex (content.scheme, toLex (content.digest, content.byteLength))

structure DiscoverySample (Feature : Type) where
  content : ClassificationContent
  feature : Feature
  deriving DecidableEq, Repr

/-- What the category matcher answers for a feature. -/
structure CategoryMatcher (Feature Category : Type) where
  /-- `rank(feature)?.leading().category_id` -/
  leading : Feature → Option Category
  /-- the feature has the identity and the dimensions of the matcher's model -/
  compatible : Feature → Bool

structure DiscoveryCohortPolicy (Sim : Type) where
  minimumPairCosine : Sim
  minimumMembers : Nat
  maximumCohorts : Nat

inductive DiscoveryCohortDeferral where
  | insufficientMembers | missingComparison | cohortLimit
  deriving DecidableEq, Repr

structure DeferredDiscoveryCohort where
  members : List ClassificationContent
  reason : DiscoveryCohortDeferral
  deriving DecidableEq, Repr

/-- A cohort: its members in the order of their content, and the samples it is compared with. -/
structure DiscoveryCohort (Feature : Type) where
  memberSamples : List (DiscoverySample Feature)
  comparisonSamples : List (DiscoverySample Feature)
  deriving DecidableEq, Repr

structure DiscoveryCohortBatch (Feature : Type) where
  cohorts : List (DiscoveryCohort Feature)
  deferred : List DeferredDiscoveryCohort
  deriving DecidableEq, Repr

inductive DiscoveryError where
  | invalidCohort | duplicateContent | incompatibleFeature
  deriving DecidableEq, Repr

/-- `cohorts::invalid`. -/
def cohortInvalid : ScanError :=
  ⟨"classification_cohort_invalid", "Discovery grouping requires a bounded compatible window of distinct content features"⟩

/-- `check_cancelled`. -/
def checkCancelled (cancelled : Bool) : Except ScanError Unit :=
  if cancelled then .error ⟨"classification_cancelled", "Classification was cancelled"⟩ else .ok ()

/-! ## Linkage -/

section Linkage

variable {Feature Sim : Type} [LinearOrder Sim] {count : Nat}

/-- The state of the grouping: the group kept at each index and the links between the groups. The link of an index with itself is
never read. -/
structure Clustering (Sim : Type) (count : Nat) where
  clusters : Fin count → List (Fin count)
  links : Fin count → Fin count → WithBot Sim

/-- Write one link. -/
def setLink (links : Fin count → Fin count → WithBot Sim) (row column : Fin count) (value : WithBot Sim) :
    Fin count → Fin count → WithBot Sim :=
  fun i j => if i = row ∧ j = column then value else links i j

variable (cosine : Feature → Feature → Option Sim) (samples : Fin count → DiscoverySample Feature)

/-- The links of one row with the later indices. -/
def measureRow (links : Fin count → Fin count → WithBot Sim) (left : Fin count) :
    Except ScanError (Fin count → Fin count → WithBot Sim) :=
  ((List.finRange count).filter (left < ·)).foldlM (fun links right =>
    match cosine (samples left).feature (samples right).feature with
    | none => .error cohortInvalid
    | some value => .ok (setLink (setLink links left right value) right left value)) links

/-- The links of all the samples. -/
def measureLinks (cancelled : Bool) : Except ScanError (Fin count → Fin count → WithBot Sim) :=
  (List.finRange count).foldlM (fun links left => do
    checkCancelled cancelled
    measureRow cosine samples links left) fun _ _ => ⊥

/-- The index pairs in the order of the search. -/
def indexPairs (count : Nat) : List (Fin count × Fin count) :=
  (List.finRange count).flatMap fun left => ((List.finRange count).filter (left < ·)).map fun right => (left, right)

variable (minimumSimilarity : Sim) (state : Clustering Sim count)

/-- One pair of the search: `closest` and `best` so far. -/
def considerPair (found : Option (Fin count × Fin count) × WithBot Sim) (pair : Fin count × Fin count) :
    Option (Fin count × Fin count) × WithBot Sim :=
  if state.clusters pair.1 = [] ∨ state.clusters pair.2 = [] then found
  else if (minimumSimilarity : WithBot Sim) ≤ state.links pair.1 pair.2 ∧
      (found.1 = none ∨ found.2 < state.links pair.1 pair.2) then
    (some pair, state.links pair.1 pair.2)
  else found

/-- The most similar two groups, if any two are similar enough. -/
def closestPair : Option (Fin count × Fin count) :=
  ((indexPairs count).foldl (considerPair minimumSimilarity state) (none, minimumSimilarity)).1

/-- The links of the joined group to one other group. -/
def joinLink (clusters : Fin count → List (Fin count)) (left right : Fin count)
    (links : Fin count → Fin count → WithBot Sim) (other : Fin count) : Fin count → Fin count → WithBot Sim :=
  if other = left ∨ other = right ∨ clusters other = [] then links
  else
    let completeLink := min (links left other) (links right other)
    setLink (setLink links left other completeLink) other left completeLink

/-- Join the group at `right` to the group at `left`. -/
def Clustering.join (left right : Fin count) : Clustering Sim count :=
  { clusters := Function.update (Function.update state.clusters right []) left
      ((state.clusters left ++ state.clusters right).insertionSort (· ≤ ·))
    links := (List.finRange count).foldl (joinLink state.clusters left right) state.links }

/-- The number of groups. -/
def Clustering.size : Nat :=
  (Finset.univ.filter fun index => state.clusters index ≠ []).card

/-- A pair of different groups that are similar enough. -/
def Joinable (pair : Fin count × Fin count) : Prop :=
  state.clusters pair.1 ≠ [] ∧ state.clusters pair.2 ≠ [] ∧ (minimumSimilarity : WithBot Sim) ≤ state.links pair.1 pair.2

/-- One pair of the search replaces what was found only by a pair that may be joined. -/
theorem considerPair_cases (minSim : Sim) (st : Clustering Sim count)
    (found : Option (Fin count × Fin count) × WithBot Sim) (pair : Fin count × Fin count) :
    (considerPair minSim st found pair = found ∧ (found.1 = none → ¬Joinable minSim st pair)) ∨
    (Joinable minSim st pair ∧ (considerPair minSim st found pair).1 = some pair) := by
  unfold considerPair Joinable
  split
  · next he => exact .inl ⟨rfl, fun _ h => he.elim h.1 h.2.1⟩
  · next hf =>
    rw [not_or] at hf
    split
    · next hs => exact .inr ⟨⟨hf.1, hf.2, hs.1⟩, rfl⟩
    · next hs => exact .inl ⟨rfl, fun hn h => hs ⟨h.2.2, .inl hn⟩⟩

theorem foldl_considerPair_some {minSim : Sim} {st : Clustering Sim count}
    {pairs : List (Fin count × Fin count)} {found : Option (Fin count × Fin count) × WithBot Sim}
    {pair : Fin count × Fin count} (h : (pairs.foldl (considerPair minSim st) found).1 = some pair) :
    found.1 = some pair ∨ pair ∈ pairs ∧ Joinable minSim st pair := by
  induction pairs generalizing found with
  | nil => exact .inl h
  | cons first pairs ih =>
    rcases ih h with hn | ⟨hm, hj⟩
    · rcases considerPair_cases minSim st found first with ⟨heq, -⟩ | ⟨hj, heq⟩
      · exact .inl (heq ▸ hn)
      · rw [heq] at hn
        cases hn
        exact .inr ⟨List.mem_cons_self, hj⟩
    · exact .inr ⟨List.mem_cons_of_mem _ hm, hj⟩

theorem foldl_considerPair_none {minSim : Sim} {st : Clustering Sim count} {pairs : List (Fin count × Fin count)}
    {found : Option (Fin count × Fin count) × WithBot Sim} (h : (pairs.foldl (considerPair minSim st) found).1 = none) :
    found.1 = none ∧ ∀ pair ∈ pairs, ¬Joinable minSim st pair := by
  induction pairs generalizing found with
  | nil => exact ⟨h, by simp⟩
  | cons first pairs ih =>
    obtain ⟨hn, hr⟩ := ih h
    rcases considerPair_cases minSim st found first with ⟨heq, hf⟩ | ⟨-, heq⟩
    · rw [heq] at hn
      exact ⟨hn, List.forall_mem_cons.mpr ⟨hf hn, hr⟩⟩
    · rw [heq] at hn
      cases hn

theorem mem_indexPairs {left right : Fin count} : (left, right) ∈ indexPairs count ↔ left < right := by
  simp [indexPairs]

/-- What the search finds is a pair that may be joined. -/
theorem closestPair_some {minSim : Sim} {st : Clustering Sim count} {left right : Fin count}
    (h : closestPair minSim st = some (left, right)) : left < right ∧ Joinable minSim st (left, right) := by
  rcases foldl_considerPair_some h with hn | ⟨hm, hj⟩
  · cases hn
  · exact ⟨mem_indexPairs.mp hm, hj⟩

/-- The search finds nothing only if no pair may be joined. -/
theorem closestPair_none {minSim : Sim} {st : Clustering Sim count} (h : closestPair minSim st = none)
    {left right : Fin count} (hlt : left < right) : ¬Joinable minSim st (left, right) :=
  (foldl_considerPair_none h).2 _ (mem_indexPairs.mpr hlt)

@[simp]
theorem Clustering.join_clusters_left (st : Clustering Sim count) (left right : Fin count) :
    (st.join left right).clusters left = (st.clusters left ++ st.clusters right).insertionSort (· ≤ ·) := by
  simp [Clustering.join]

theorem Clustering.join_clusters_right (st : Clustering Sim count) {left right : Fin count} (hne : left ≠ right) :
    (st.join left right).clusters right = [] := by
  simp [Clustering.join, Function.update_of_ne hne.symm]

theorem Clustering.join_clusters_other (st : Clustering Sim count) {left right o : Fin count} (hl : o ≠ left)
    (hr : o ≠ right) : (st.join left right).clusters o = st.clusters o := by
  simp [Clustering.join, Function.update_of_ne hl, Function.update_of_ne hr]

/-- A join leaves one group less. -/
theorem Clustering.join_size {st : Clustering Sim count} {left right : Fin count} (hne : left ≠ right)
    (hle : st.clusters left ≠ []) (hri : st.clusters right ≠ []) : (st.join left right).size < st.size := by
  apply Finset.card_lt_card
  rw [Finset.ssubset_iff_of_subset]
  · exact ⟨right, by simp [hri], by simp [join_clusters_right st hne]⟩
  · intro idx hi
    simp only [Finset.mem_filter, Finset.mem_univ, true_and] at hi ⊢
    by_cases hl : idx = left
    · rwa [hl]
    · by_cases hr : idx = right
      · rwa [hr]
      · rwa [join_clusters_other st hl hr] at hi

/-- The rounds of the grouping. -/
def joinClosest (minimumSimilarity : Sim) (cancelled : Bool) (state : Clustering Sim count) :
    Except ScanError (Clustering Sim count) := do
  checkCancelled cancelled
  match _h : closestPair minimumSimilarity state with
  | none => return state
  | some (left, right) => joinClosest minimumSimilarity cancelled (state.join left right)
termination_by state.size
decreasing_by
  obtain ⟨hlt, hleft, hright, -⟩ := closestPair_some _h
  exact Clustering.join_size (ne_of_lt hlt) hleft hright

/-- `linkage::groups`. -/
def linkageGroups (cancelled : Bool) : Except ScanError (List (List (Fin count))) := do
  let links ← measureLinks cosine samples cancelled
  let state ← joinClosest minimumSimilarity cancelled { clusters := fun index => [index], links }
  return ((List.finRange count).map state.clusters).filter (· ≠ [])

end Linkage

/-! ## Cohorts -/

section Form

variable {Feature Category Sim : Type} [LinearOrder Sim] [Zero Sim] [One Sim] [DecidableEq Category]

/-- One sample of a new cohort: its content is new and its feature belongs to the model. -/
def visitCohortSample (compatible : Feature → Bool) (seen : List (String ×ₗ (List Nat ×ₗ Nat)))
    (sample : DiscoverySample Feature) : Except DiscoveryError (List (String ×ₗ (List Nat ×ₗ Nat))) :=
  if contentKey sample.content ∈ seen then .error .duplicateContent
  else if !compatible sample.feature then .error .incompatibleFeature
  else .ok (contentKey sample.content :: seen)

/-- `DiscoveryCohort::new`. -/
def DiscoveryCohort.new (compatible : Feature → Bool) (members comparison : List (DiscoverySample Feature)) :
    Except DiscoveryError (DiscoveryCohort Feature) := do
  if members = [] ∨ comparison = [] ∨ 512 < members.length + comparison.length then
    .error .invalidCohort
  else
    let _ ← (members ++ comparison).foldlM (visitCohortSample compatible) []
    return {
      memberSamples := members.insertionSort fun a b => contentKey a.content ≤ contentKey b.content
      comparisonSamples := comparison }

/-- Whether two neighbours have the same content: `windows(2).any(..)`. -/
def adjacentDuplicate : List (DiscoverySample Feature) → Bool
  | first :: second :: rest =>
    contentKey first.content == contentKey second.content || adjacentDuplicate (second :: rest)
  | _ => false

/-- The samples in the order of their content. -/
def orderSamples (samples : List (DiscoverySample Feature)) : List (DiscoverySample Feature) :=
  samples.insertionSort fun a b => contentKey a.content ≤ contentKey b.content

/-- The order in which groups are taken: larger groups first, then by their indices. -/
def orderClusters {count : Nat} (clusters : List (List (Fin count))) : List (List (Fin count)) :=
  clusters.insertionSort fun a b => b.length < a.length ∨ b.length = a.length ∧ a.map Fin.val ≤ b.map Fin.val

/-- The samples outside a group that are ranked under one of its categories. -/
def comparisonIndices {count : Nat} (current : Fin count → Option Category) (cluster : List (Fin count)) : List (Fin count) :=
  (List.finRange count).filter fun index => index ∉ cluster ∧ current index ∈ cluster.map current

/-- Why a group is no cohort, if it is none. -/
def cohortDeferral (policy : DiscoveryCohortPolicy Sim) (formed clusterSize comparisonSize : Nat) :
    Option DiscoveryCohortDeferral :=
  if clusterSize < policy.minimumMembers then some .insufficientMembers
  else if comparisonSize = 0 then some .missingComparison
  else if formed = policy.maximumCohorts then some .cohortLimit
  else none

/-- One group. -/
def placeCluster {count : Nat} (matcher : CategoryMatcher Feature Category) (policy : DiscoveryCohortPolicy Sim)
    (cancelled : Bool) (ordered : Fin count → DiscoverySample Feature) (current : Fin count → Option Category)
    (result : DiscoveryCohortBatch Feature) (cluster : List (Fin count)) :
    Except ScanError (DiscoveryCohortBatch Feature) := do
  checkCancelled cancelled
  let comparison := comparisonIndices current cluster
  match cohortDeferral policy result.cohorts.length cluster.length comparison.length with
  | some reason =>
    return { result with
      deferred := result.deferred ++ [{ members := cluster.map fun index => (ordered index).content, reason }] }
  | none =>
    let cohort ← (DiscoveryCohort.new matcher.compatible (cluster.map ordered) (comparison.map ordered)).mapError
      fun _ => cohortInvalid
    return { result with cohorts := result.cohorts ++ [cohort] }

/-- The leading category of each sample. -/
def rankSamples (matcher : CategoryMatcher Feature Category) (cancelled : Bool)
    (ordered : List (DiscoverySample Feature)) : Except ScanError (List Category) :=
  ordered.mapM fun sample => do
    checkCancelled cancelled
    match matcher.leading sample.feature with
    | none => .error cohortInvalid
    | some category => return category

/-- `form_discovery_cohorts`. -/
def formDiscoveryCohorts (cosine : Feature → Feature → Option Sim) (samples : List (DiscoverySample Feature))
    (matcher : CategoryMatcher Feature Category) (policy : DiscoveryCohortPolicy Sim) (cancelled : Bool) :
    Except ScanError (DiscoveryCohortBatch Feature) := do
  checkCancelled cancelled
  if 512 < samples.length ∨ ¬(0 ≤ policy.minimumPairCosine ∧ policy.minimumPairCosine ≤ 1) ∨
      ¬(2 ≤ policy.minimumMembers ∧ policy.minimumMembers ≤ 512) ∨
      ¬(1 ≤ policy.maximumCohorts ∧ policy.maximumCohorts ≤ 64) then
    .error cohortInvalid
  else
    let ordered := orderSamples samples
    if adjacentDuplicate ordered then .error cohortInvalid
    else
      let current ← rankSamples matcher cancelled ordered
      let clusters ← linkageGroups cosine ordered.get policy.minimumPairCosine cancelled
      let result ← (orderClusters clusters).foldlM
        (placeCluster matcher policy cancelled ordered.get fun index => current[index]?)
        { cohorts := [], deferred := [] }
      checkCancelled cancelled
      return result

end Form

end Ame
