import Ame.Domain.Text
import Ame.Lib.Iter
import Ame.Lib.Result
import Ame.Lib.Worklist
import Mathlib

/-!
# Selection of naming contexts

`application/classification_discovery/nomination/selection.rs`. Each candidate context covers some members of the cohort that is
to be named. A context whose members are all covered by a context above it in the concept graph is subsumed; of the others the
selection takes, as long as there is room, the one that covers the most members nobody selected before it covers.

Concept identifiers are any linear order, and so are the two scores: the source compares the scores by the total order of their
bit patterns only.
-/

namespace Ame

open Result

/-- The members a context covers, of at most 512: one bit a member. -/
structure MemberCoverage where
  words : Fin 8 → BitVec 64
  deriving DecidableEq

namespace MemberCoverage

/-- `MemberCoverage::default`. -/
def empty : MemberCoverage := ⟨fun _ => 0⟩

def insert (self : MemberCoverage) (index : Fin 512) : MemberCoverage :=
  ⟨Function.update self.words ⟨index / 64, by omega⟩ (self.words ⟨index / 64, by omega⟩ ||| 1#64 <<< (index.val % 64))⟩

/-- `u64::count_ones`. -/
def countOnes (word : BitVec 64) : Nat := Nat.count (fun i => word.getLsbD i) 64

def contains (self other : MemberCoverage) : Bool :=
  (List.finRange 8).all fun word => self.words word &&& other.words word == other.words word

def uncovered (self covered : MemberCoverage) : Nat :=
  ((List.finRange 8).map fun word => countOnes (self.words word &&& ~~~covered.words word)).sum

/-- `MemberCoverage::include`. -/
def includeOther (self other : MemberCoverage) : MemberCoverage := ⟨fun word => self.words word ||| other.words word⟩

end MemberCoverage

section Select

variable {Id Score : Type} [LinearOrder Id]

/-- A candidate context. -/
structure ContextSupport (Id Score : Type) where
  id : Id
  coverage : MemberCoverage
  meanImprovement : Score
  contrast : Score
  deriving DecidableEq

structure ContextSelection (Id : Type) where
  selected : List Id
  subsumed : Nat
  candidateLimitReached : Bool
  ancestryEdges : Nat
  deriving DecidableEq, Repr

/-- `context_graph::limit_error`. -/
def discoveryLimitError : ScanError :=
  ⟨"classification_discovery_limit", "Context discovery requires complete retrieval within its resource limits"⟩

variable (contexts : List (ContextSupport Id Score))

/-- The map from identifiers to coverage: of two contexts with one identifier the later one. -/
def coverageOf (id : Id) : Option MemberCoverage :=
  (contexts.reverse.find? fun context => context.id = id).map (·.coverage)

/-- What the walk over the ancestors has found: the contexts with a broader one, each such pair, and the edges followed, which
never exceed the limit. -/
structure Ancestry (Id : Type) (edgeLimit : Nat) where
  hasBroader : List Id
  children : List (Id × Id)
  ancestryEdges : Nat
  edges_le : ancestryEdges ≤ edgeLimit
  deriving DecidableEq

/-- The walk from one context: the concepts to look at next and those met. -/
structure Climb (Id : Type) (edgeLimit : Nat) extends Ancestry Id edgeLimit where
  pending : List Id
  visited : List Id

variable {edgeLimit : Nat}

/-- One parent of the concept the walk is at. -/
def climbParent (contexts : List (ContextSupport Id Score)) (context : ContextSupport Id Score)
    (climb : Climb Id edgeLimit) (parent : Id) : Except ScanError (Climb Id edgeLimit) :=
  if h : climb.ancestryEdges = edgeLimit then .error discoveryLimitError
  else
    let counted := { climb with ancestryEdges := climb.ancestryEdges + 1, edges_le := by have := climb.edges_le; omega }
    if parent ∈ climb.visited then .ok counted
    else
      let met := { counted with visited := parent :: climb.visited, pending := climb.pending ++ [parent] }
      if (coverageOf contexts parent).any (·.contains context.coverage) then
        .ok { met with hasBroader := context.id :: climb.hasBroader, children := climb.children ++ [(parent, context.id)] }
      else .ok met

/-- The work left: a concept is put on the list only when an edge is followed. -/
def Climb.work (climb : Climb Id edgeLimit) : Nat :=
  climb.pending.length + (edgeLimit - climb.ancestryEdges)

theorem climbParent_work {contexts : List (ContextSupport Id Score)} {ctx : ContextSupport Id Score}
    {climb climb' : Climb Id edgeLimit} {par : Id} (h : climbParent contexts ctx climb par = .ok climb') :
    climb'.work ≤ climb.work := by
  have hle := climb.edges_le
  unfold climbParent at h
  split at h
  · cases h
  · next hl =>
    dsimp only at h
    split at h
    · cases h
      simp only [Climb.work]
      omega
    · split at h
      all_goals
        cases h
        simp only [Climb.work, List.length_append, List.length_singleton]
        omega

theorem foldlM_climbParent_work {contexts : List (ContextSupport Id Score)}
    {ctx : ContextSupport Id Score} {parents : List Id} {climb climb' : Climb Id edgeLimit}
    (h : parents.foldlM (climbParent contexts ctx) climb = .ok climb') : climb'.work ≤ climb.work := by
  refine foldlM_invariant (P := fun o => o.work ≤ climb.work) ?_ h (Nat.le_refl _)
  intro par _ st next hle hs
  exact Nat.le_trans (climbParent_work hs) hle

/-- The breadth-first walk over the ancestors of one context. -/
def climb (contexts : List (ContextSupport Id Score)) (parents : Id → List Id)
    (context : ContextSupport Id Score) (state : Climb Id edgeLimit) : Except ScanError (Climb Id edgeLimit) :=
  match _hpending : state.pending with
  | [] => .ok state
  | current :: pending =>
    match _hstep : (parents current).foldlM (climbParent contexts context) { state with pending } with
    | .error e => .error e
    | .ok next => climb contexts parents context next
termination_by state.work
decreasing_by
  have hle := foldlM_climbParent_work _hstep
  simp only [Climb.work, _hpending, List.length_cons] at hle ⊢
  omega

/-- The walk of one context, with what the walks before it have found. -/
def climbContext (contexts : List (ContextSupport Id Score)) (parents : Id → List Id)
    (found : Ancestry Id edgeLimit) (context : ContextSupport Id Score) : Except ScanError (Ancestry Id edgeLimit) :=
  (climb contexts parents context ⟨found, [context.id], [context.id]⟩).map (·.toAncestry)

/-- The identifiers without a broader context, in ascending order. -/
def selectionRoots (hasBroader : List Id) : List Id :=
  ((contexts.map (·.id)).dedup.insertionSort (· ≤ ·)).filter (· ∉ hasBroader)

/-- The identifiers of the contexts that a root subsumes. -/
def subsumedIds (children : List (Id × Id)) (roots : List Id) : List Id :=
  (Worklist.spread children roots roots).filter (· ∉ roots)

/-- The state of the selection loop. -/
structure Picking (Id Score : Type) where
  covered : MemberCoverage
  selected : List Id
  remaining : List (ContextSupport Id Score)

variable [LinearOrder Score]

/-- By what the selection prefers a context: most new members, then the scores, then the smallest identifier. -/
def preference (covered : MemberCoverage) (entry : Nat × ContextSupport Id Score) : Nat ×ₗ (Score ×ₗ (Score ×ₗ Idᵒᵈ)) :=
  toLex (entry.2.coverage.uncovered covered,
    toLex (entry.2.meanImprovement, toLex (entry.2.contrast, OrderDual.toDual entry.2.id)))

/-- The selection loop; `room` is how many contexts may still be selected. -/
def pickContexts (minimumNewMembers : Nat) : Nat → Picking Id Score → Picking Id Score
  | 0, state => state
  | room + 1, state =>
    match Iter.maxByKey (preference state.covered) (state.remaining.zipIdx.map Prod.swap) with
    | none => state
    | some (index, next) =>
      if next.coverage.uncovered state.covered < minimumNewMembers then state
      else
        pickContexts minimumNewMembers room
          { covered := state.covered.includeOther next.coverage
            selected := state.selected ++ [next.id]
            remaining := Iter.swapRemove state.remaining index }

/-- `selection::select`. The parent map is given as the function that looks a concept up in it, with no parents where the map
has no entry. -/
def selectContexts (contexts : List (ContextSupport Id Score)) (parents : Id → List Id)
    (minimumNewMembers maxCandidates edgeLimit : Nat) : Except ScanError (ContextSelection Id) := do
  let found ← contexts.foldlM (climbContext contexts parents) (⟨[], [], 0, Nat.zero_le edgeLimit⟩ : Ancestry Id edgeLimit)
  let roots := selectionRoots contexts found.hasBroader
  let subsumed := subsumedIds found.children roots
  let picked := pickContexts minimumNewMembers maxCandidates
    { covered := .empty, selected := [], remaining := contexts.filter fun context => context.id ∉ subsumed }
  return {
    selected := picked.selected
    subsumed := subsumed.length
    candidateLimitReached :=
      picked.remaining.any fun context => minimumNewMembers ≤ context.coverage.uncovered picked.covered
    ancestryEdges := found.ancestryEdges }

end Select

end Ame
