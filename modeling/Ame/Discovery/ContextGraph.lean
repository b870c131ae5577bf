import Ame.Discovery.Cohorts
import Ame.Discovery.Nomination
import Ame.Domain.Text
import Ame.Lib.Result
import Mathlib

/-!
# The walk over broader concepts

`application/classification_discovery/context_graph.rs`, with `read_page` of `classification_discovery.rs`. From the concepts that
were retrieved for a cohort, the seeds, the walk follows the broader relation of the vocabulary, a bounded number of steps from each
seed, and collects which seeds lead to which concept. The vocabulary answers in pages and may change between two calls; the walk
fails when it notices that.

Maps and sets of identifiers are lists; the map of groups is the list of its pairs of a concept and a seed. A concept has its
identifier and the revision the source derives from the rest of it.
-/

namespace Ame

open Result

structure VocabularyConcept (Id Rev : Type) where
  id : Id
  revision : Rev
  deriving DecidableEq

inductive ConceptNeighborhood (Id : Type) where
  | entryPoints
  | related (id : Id)
  | broader (id : Id)

structure ConceptPage (Id Rev : Type) where
  concepts : List (VocabularyConcept Id Rev)
  hasMore : Bool

/-- The port to a vocabulary whose present state is a value of `σ`. -/
structure ClassificationVocabulary (σ Id Rev : Type) where
  revision : σ → Rev
  readConcepts : σ → ConceptNeighborhood Id → Option Id → Nat → Except ScanError (ConceptPage Id Rev × σ)

structure ConceptConsolidationLimits where
  hops : Nat
  concepts : Nat
  edges : Nat

/-- The retrieved concepts, as far as the walk reads them. -/
structure DiscoveryCandidates (Id Rev : Type) where
  vocabularyRevision : Rev
  nearest : List (VocabularyConcept Id Rev)
  distinctive : List (VocabularyConcept Id Rev)

inductive TraversalScope (Id : Type) where
  | frontier (concepts : List Id)
  | allContexts

structure ResolvedContexts (Id Rev : Type) where
  concepts : List (VocabularyConcept Id Rev)
  groups : List (Id × Id)
  parents : List (Id × List Id)
  unresolved : List Id
  visitedEdges : Nat
  deriving DecidableEq

section

variable {σ Id Rev : Type} [LinearOrder Id] [DecidableEq Rev]

/-- `check_revision`. -/
def checkRevision (vocabulary : ClassificationVocabulary σ Id Rev) (state : σ) (revision : Rev) : Except ScanError Unit :=
  if vocabulary.revision state ≠ revision then
    throw ⟨"classification_vocabulary_changed", "The discovery vocabulary changed during retrieval"⟩
  else .ok ()

/-- `invalid_page`. -/
def invalidPage : ScanError := ⟨"classification_vocabulary_invalid", "The vocabulary returned an invalid concept window"⟩

/-- Each identifier comes after the one before it, the first after the cursor. -/
def ascendsAfter : Option Id → List Id → Bool
  | _, [] => true
  | previous, id :: ids => !previous.any (fun before => id ≤ before) && ascendsAfter (some id) ids

/-- `read_page`. -/
def readConceptPage (vocabulary : ClassificationVocabulary σ Id Rev) (state : σ) (revision : Rev)
    (neighborhood : ConceptNeighborhood Id) (after : Option Id) (remaining : Nat) (cancelled : Bool) :
    Except ScanError (ConceptPage Id Rev × σ) := do
  checkCancelled cancelled
  checkRevision vocabulary state revision
  let limit := min remaining 64
  let (page, state) ← vocabulary.readConcepts state neighborhood after limit
  checkCancelled cancelled
  checkRevision vocabulary state revision
  if limit < page.concepts.length ∨ page.hasMore ∧ page.concepts.length = 0 then throw invalidPage
  if !ascendsAfter after (page.concepts.map (·.id)) then throw invalidPage
  return (page, state)

/-- `remember`. -/
def remember (limit : Nat) (concepts : List (VocabularyConcept Id Rev)) (concept : VocabularyConcept Id Rev) :
    Except ScanError (List (VocabularyConcept Id Rev)) :=
  match concepts.find? fun previous => previous.id = concept.id with
  | some previous =>
    if previous.revision ≠ concept.revision then
      .error ⟨"classification_vocabulary_changed", "A broader concept changed within the naming vocabulary"⟩
    else .ok concepts
  | none => if concepts.length = limit then .error discoveryLimitError else .ok (concepts ++ [concept])

/-- What a page that `read_page` lets pass is like. -/
theorem readConceptPage_ok {vocabulary : ClassificationVocabulary σ Id Rev} {st st' : σ} {revision : Rev}
    {neighborhood : ConceptNeighborhood Id} {after : Option Id} {rem : Nat} {stop : Bool} {page : ConceptPage Id Rev}
    (h : readConceptPage vocabulary st revision neighborhood after rem stop = .ok (page, st')) :
    vocabulary.readConcepts st neighborhood after (min rem 64) = .ok (page, st') ∧
      page.concepts.length ≤ min rem 64 ∧ (page.hasMore = true → page.concepts.length ≠ 0) ∧
      ascendsAfter after (page.concepts.map (·.id)) = true := by
  obtain ⟨_, _, h⟩ := bind_ok h
  obtain ⟨_, _, h⟩ := bind_ok h
  obtain ⟨⟨read, next⟩, hr, h⟩ := bind_ok h
  obtain ⟨_, _, h⟩ := bind_ok h
  obtain ⟨_, _, h⟩ := bind_ok h
  obtain ⟨hs, h⟩ := ite_throw_bind_ok.mp h
  obtain ⟨ha, h⟩ := ite_throw_bind_ok.mp h
  cases h
  rw [not_or] at hs
  refine ⟨hr, Nat.not_lt.mp hs.1, ?_, by simpa using ha⟩
  intro hm he
  exact hs.2 ⟨hm, he⟩

/-- What has been read of the parents of one concept. -/
structure ParentReading (σ Id Rev : Type) where
  concepts : List (VocabularyConcept Id Rev)
  ids : List Id
  readEdges : Nat
  vocabulary : σ

/-- Read the parents of a concept, page after page. -/
def readParents (vocabulary : ClassificationVocabulary σ Id Rev) (revision : Rev) (limits : ConceptConsolidationLimits)
    (cancelled : Bool) (id : Id) (after : Option Id) (reading : ParentReading σ Id Rev) :
    Except ScanError (ParentReading σ Id Rev) :=
  if reading.readEdges = limits.edges then .error discoveryLimitError
  else
    match _hpage : readConceptPage vocabulary reading.vocabulary revision (.broader id) after (limits.edges - reading.readEdges)
        cancelled with
    | .error e => .error e
    | .ok (page, state) =>
      match page.concepts.foldlM (remember limits.concepts) reading.concepts with
      | .error e => .error e
      | .ok concepts =>
        let next : ParentReading σ Id Rev :=
          { concepts
            ids := reading.ids ++ page.concepts.map (·.id)
            readEdges := reading.readEdges + page.concepts.length
            vocabulary := state }
        if page.hasMore then
          readParents vocabulary revision limits cancelled id (page.concepts.getLast?.map (·.id)) next
        else .ok next
termination_by limits.edges - reading.readEdges
decreasing_by
  rename_i hmore
  obtain ⟨_, hlength, hnonempty, _⟩ := readConceptPage_ok _hpage
  have := hnonempty hmore
  omega

/-- The state of the walk. The edges followed never exceed the limit. -/
structure Traversal (σ Id Rev : Type) (edgeLimit : Nat) where
  concepts : List (VocabularyConcept Id Rev)
  pending : List (Id × Id × Nat)
  scheduled : List (Id × Id)
  parents : List (Id × List Id)
  groups : List (Id × Id)
  readEdges : Nat
  visitedEdges : Nat
  visited_le : visitedEdges ≤ edgeLimit
  vocabulary : σ

/-- Follow the edge to one parent: it is put on the queue the first time the seed leads to it. -/
def scheduleParent {edgeLimit : Nat} (seed : Id) (depth : Nat) (walk : Traversal σ Id Rev edgeLimit) (parent : Id) :
    Except ScanError (Traversal σ Id Rev edgeLimit) :=
  if h : walk.visitedEdges = edgeLimit then .error discoveryLimitError
  else
    let counted := { walk with visitedEdges := walk.visitedEdges + 1, visited_le := by have := walk.visited_le; omega }
    if (parent, seed) ∈ walk.scheduled then .ok counted
    else
      .ok { counted with
        scheduled := (parent, seed) :: walk.scheduled
        pending := walk.pending ++ [(parent, seed, depth + 1)] }

/-- Read the parents of a concept, unless that has been done. -/
def loadParents (vocabulary : ClassificationVocabulary σ Id Rev) (revision : Rev) (limits : ConceptConsolidationLimits)
    (cancelled : Bool) (id : Id) (walk : Traversal σ Id Rev limits.edges) :
    Except ScanError (Traversal σ Id Rev limits.edges) :=
  if (walk.parents.lookup id).isSome then .ok walk
  else do
    let reading ← readParents vocabulary revision limits cancelled id none ⟨walk.concepts, [], walk.readEdges, walk.vocabulary⟩
    return { walk with
      concepts := reading.concepts
      parents := (id, reading.ids) :: walk.parents
      readEdges := reading.readEdges
      vocabulary := reading.vocabulary }

/-- Whether a concept stands in a group, and whether the walk goes on from it. -/
def TraversalScope.collects : TraversalScope Id → Id → Bool
  | .frontier concepts, id => concepts.contains id
  | .allContexts, _ => true

def TraversalScope.expands : TraversalScope Id → Id → Bool
  | .frontier concepts, id => !concepts.contains id
  | .allContexts, _ => true

/-- One round of the loop, for the entry taken from the queue. -/
def visitConcept (vocabulary : ClassificationVocabulary σ Id Rev) (revision : Rev) (limits : ConceptConsolidationLimits)
    (scope : TraversalScope Id) (cancelled : Bool) (id seed : Id) (depth : Nat) (walk : Traversal σ Id Rev limits.edges) :
    Except ScanError (Traversal σ Id Rev limits.edges) := do
  checkCancelled cancelled
  checkRevision vocabulary walk.vocabulary revision
  let walk := if scope.collects id then { walk with groups := walk.groups.insert (id, seed) } else walk
  if scope.expands id then
    if depth = limits.hops then return walk
    else
      let walk ← loadParents vocabulary revision limits cancelled id walk
      ((walk.parents.lookup id).getD []).foldlM (scheduleParent seed depth) walk
  else return walk

/-- The work left: an entry is put on the queue only when an edge is followed. -/
def Traversal.work {edgeLimit : Nat} (walk : Traversal σ Id Rev edgeLimit) : Nat :=
  walk.pending.length + (edgeLimit - walk.visitedEdges)

omit [DecidableEq Rev] in
theorem scheduleParent_work {edgeLimit : Nat} {seed par : Id} {depth : Nat} {walk walk' : Traversal σ Id Rev edgeLimit}
    (h : scheduleParent seed depth walk par = .ok walk') : walk'.work ≤ walk.work := by
  have hle := walk.visited_le
  unfold scheduleParent at h
  split at h
  · cases h
  · next hl =>
    dsimp only at h
    split at h
    all_goals
      cases h
      simp only [Traversal.work, List.length_append, List.length_singleton]
      omega

omit [DecidableEq Rev] in
theorem foldlM_scheduleParent_work {edgeLimit : Nat} {seed : Id} {depth : Nat} {ids : List Id}
    {walk walk' : Traversal σ Id Rev edgeLimit} (h : ids.foldlM (scheduleParent seed depth) walk = .ok walk') :
    walk'.work ≤ walk.work := by
  refine foldlM_invariant (P := fun o => o.work ≤ walk.work) ?_ h (Nat.le_refl _)
  intro par _ st next hle hs
  exact Nat.le_trans (scheduleParent_work hs) hle

section

variable {vocabulary : ClassificationVocabulary σ Id Rev} {revision : Rev} {limits : ConceptConsolidationLimits}

/-- What reading the parents of a concept leaves as it is, and that the parents are there afterwards. -/
theorem loadParents_ok {stop : Bool} {id : Id} {walk walk' : Traversal σ Id Rev limits.edges}
    (h : loadParents vocabulary revision limits stop id walk = .ok walk') :
    walk' = walk ∧ (walk.parents.lookup id).isSome ∨
      ∃ reading, readParents vocabulary revision limits stop id none ⟨walk.concepts, [], walk.readEdges, walk.vocabulary⟩ =
        .ok reading ∧
        walk' = { walk with
          concepts := reading.concepts
          parents := (id, reading.ids) :: walk.parents
          readEdges := reading.readEdges
          vocabulary := reading.vocabulary } := by
  unfold loadParents at h
  split at h
  · next hs => exact .inl ⟨(Except.ok.inj h).symm, hs⟩
  · obtain ⟨reading, hr, h⟩ := bind_ok h
    exact .inr ⟨reading, hr, (Except.ok.inj h).symm⟩

theorem visitConcept_work {scope : TraversalScope Id} {stop : Bool} {id seed : Id} {depth : Nat}
    {walk walk' : Traversal σ Id Rev limits.edges}
    (h : visitConcept vocabulary revision limits scope stop id seed depth walk = .ok walk') : walk'.work ≤ walk.work := by
  unfold visitConcept at h
  obtain ⟨_, _, h⟩ := bind_ok h
  obtain ⟨_, _, h⟩ := bind_ok h
  generalize hc : (if scope.collects id = true then { walk with groups := walk.groups.insert (id, seed) }
    else walk) = collected at h
  have hw : collected.work = walk.work := by
    rw [← hc]
    split <;> rfl
  split at h
  · split at h
    · exact Except.ok.inj h ▸ Nat.le_of_eq hw
    · obtain ⟨loaded, hl, h⟩ := bind_ok h
      have hle := foldlM_scheduleParent_work h
      have hs : loaded.work = collected.work := by
        rcases loadParents_ok hl with ⟨rfl, _⟩ | ⟨reading, _, rfl⟩ <;> rfl
      omega
  · exact Except.ok.inj h ▸ Nat.le_of_eq hw

end

/-- The loop over the queue. -/
def traverseLoop (vocabulary : ClassificationVocabulary σ Id Rev) (revision : Rev) (limits : ConceptConsolidationLimits)
    (scope : TraversalScope Id) (cancelled : Bool) (walk : Traversal σ Id Rev limits.edges) :
    Except ScanError (Traversal σ Id Rev limits.edges) :=
  match _hpending : walk.pending with
  | [] => .ok walk
  | (id, seed, depth) :: pending =>
    match _hvisit : visitConcept vocabulary revision limits scope cancelled id seed depth { walk with pending } with
    | .error e => .error e
    | .ok next => traverseLoop vocabulary revision limits scope cancelled next
termination_by walk.work
decreasing_by
  have hle := visitConcept_work _hvisit
  simp only [Traversal.work, _hpending, List.length_cons] at hle ⊢
  omega

/-- The concepts retrieved, each once, and their identifiers in ascending order. -/
def rememberCandidates (retrieved : DiscoveryCandidates Id Rev) (limits : ConceptConsolidationLimits) :
    Except ScanError (List (VocabularyConcept Id Rev)) :=
  (retrieved.nearest ++ retrieved.distinctive).foldlM (remember limits.concepts) []

def seedsOf (concepts : List (VocabularyConcept Id Rev)) : List Id := (concepts.map (·.id)).insertionSort (· ≤ ·)

/-- `traverse`. -/
def traverse (retrieved : DiscoveryCandidates Id Rev) (limits : ConceptConsolidationLimits) (scope : TraversalScope Id)
    (vocabulary : ClassificationVocabulary σ Id Rev) (state : σ) (cancelled : Bool) :
    Except ScanError (ResolvedContexts Id Rev) := do
  let concepts ← rememberCandidates retrieved limits
  let seeds := seedsOf concepts
  let walk ← traverseLoop vocabulary retrieved.vocabularyRevision limits scope cancelled
    { concepts
      pending := seeds.map fun id => (id, id, 0)
      scheduled := seeds.map fun id => (id, id)
      parents := []
      groups := []
      readEdges := 0
      visitedEdges := 0
      visited_le := Nat.zero_le _
      vocabulary := state }
  let covered := walk.groups.map (·.2)
  return {
    concepts := walk.concepts
    groups := walk.groups
    parents := walk.parents
    unresolved := seeds.filter fun id => !covered.contains id
    visitedEdges := walk.visitedEdges }

/-- The seeds of a concept in the map of groups. -/
def ResolvedContexts.group (resolved : ResolvedContexts Id Rev) (concept : Id) : List Id :=
  (resolved.groups.filter fun entry => entry.1 = concept).map (·.2)

end

end Ame
