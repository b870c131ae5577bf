import Ame.Discovery.ContextGraph
import Ame.Lib.Worklist

/-!
# Broader contexts of a category merge

`application/classification_discovery/context_vocabulary/relations.rs` and `compatible_context_target` of
`domain/classification/maintenance/merging_rules.rs`. A category may be merged into another one if the naming context of the second
is broader than that of the first: a short path of broader relations leads from one to the other, and none back.

The maps of the source are lists of pairs. Category identifiers are strings; whether the definition of a category still is the one
a concept gives it (`matches_definition` of the projected concept) is a parameter.
-/

namespace Ame

open List Result Worklist

section

variable {Id Rev : Type} [DecidableEq Id]

/-- The parts of `NamingContextCatalog` that the relations are read from. The contexts are kept by their identifiers. -/
structure NamingContextCatalog (Id Rev : Type) where
  contexts : List (VocabularyConcept Id Rev)
  broader : List (Id × List Id)
  revision : Rev

structure CategoryMergeContext (Id Rev : Type) where
  catalog : Rev
  narrower : VocabularyConcept Id Rev
  broader : VocabularyConcept Id Rev
  path : List Id
  deriving DecidableEq

namespace NamingContextCatalog

variable (catalog : NamingContextCatalog Id Rev)

/-- The context with an identifier. -/
def contextOf (id : Id) : Option (VocabularyConcept Id Rev) := catalog.contexts.find? fun concept => concept.id = id

/-- The broader concepts of a concept, none if the catalog has no entry for it. -/
def parentsOf (id : Id) : List Id := (catalog.broader.lookup id).getD []

/-- The broader relation as a list of pairs. -/
def links : List (Id × Id) := catalog.broader.flatMap fun entry => entry.2.map fun parent => (entry.1, parent)

theorem mem_links {id par : Id} (h : par ∈ catalog.parentsOf id) : (id, par) ∈ catalog.links := by
  unfold parentsOf at h
  cases hl : catalog.broader.lookup id with
  | none => simp [hl] at h
  | some parents =>
    rw [hl] at h
    obtain ⟨front, back, hs, -⟩ := lookup_eq_some_iff.mp hl
    refine mem_flatMap.mpr ⟨(id, parents), ?_, mem_map_of_mem h⟩
    rw [hs]
    simp

/-- One parent in the loop of `broader_path`: the path that is found, or the queue and the visited concepts. -/
def extendPath (target : Id) (path : List Id) (state : List (List Id) × List Id) (parent : Id) :
    Except (List Id) (List (List Id) × List Id) :=
  if parent ∈ state.2 then .ok state
  else if parent = target then .error (path ++ [parent])
  else .ok (state.1 ++ [path ++ [parent]], state.2 ++ [parent])

/-- One parent in the loop of `reaches`; nothing if it is the target. -/
def meetParent (target : Id) (state : List Id × List Id) (parent : Id) : Option (List Id × List Id) :=
  if parent = target then none else some (Worklist.visit state parent)

/-- A path is put on the queue only when a concept is visited that some link leads to. -/
theorem extendPath_measure {target : Id} {path : List Id} {id par : Id} {st st' : List (List Id) × List Id}
    (hp : par ∈ catalog.parentsOf id) (h : extendPath target path st par = .ok st') :
    st'.1.length + openLinks catalog.links st'.2 ≤ st.1.length + openLinks catalog.links st.2 := by
  unfold extendPath at h
  split at h
  · cases h
    exact Nat.le_refl _
  · next hf =>
    split at h
    · cases h
    · cases h
      have hlt := openLinks_append_lt (catalog.mem_links hp) hf
      simp only [length_append, length_singleton]
      omega

theorem foldlM_extendPath_measure {target : Id} {path : List Id} {id : Id} {parents : List Id}
    {st st' : List (List Id) × List Id} (hp : ∀ par ∈ parents, par ∈ catalog.parentsOf id)
    (h : parents.foldlM (extendPath target path) st = .ok st') :
    st'.1.length + openLinks catalog.links st'.2 ≤ st.1.length + openLinks catalog.links st.2 := by
  refine foldlM_invariant (P := fun o => o.1.length + openLinks catalog.links o.2 ≤
    st.1.length + openLinks catalog.links st.2) ?_ h (Nat.le_refl _)
  intro par hpa before after hle hs
  exact Nat.le_trans (catalog.extendPath_measure (hp par hpa) hs) hle

/-- The loop of `broader_path`. Paths have a last concept, so the default is never read. -/
def searchPath (origin target : Id) (cancelled : Bool) (pending : List (List Id)) (visited : List Id) :
    Except ScanError (Option (List Id)) :=
  match pending with
  | [] => .ok none
  | path :: pending =>
    match checkCancelled cancelled with
    | .error e => .error e
    | .ok _ =>
      if 4 < path.length then searchPath origin target cancelled pending visited
      else
        match _hstep : (catalog.parentsOf (path.getLastD origin)).foldlM (extendPath target path) (pending, visited) with
        | .error found => .ok (some found)
        | .ok state => searchPath origin target cancelled state.1 state.2
termination_by pending.length + Worklist.openLinks catalog.links visited
decreasing_by
  · simp only [length_cons]
    omega
  · have hle := catalog.foldlM_extendPath_measure (fun _ h => h) _hstep
    simp only [length_cons] at hle ⊢
    omega

/-- `broader_path`. -/
def broaderPath (origin target : Id) (cancelled : Bool) : Except ScanError (Option (List Id)) :=
  catalog.searchPath origin target cancelled [[origin]] [origin]

theorem foldlM_meetParent_eq {target : Id} {parents : List Id} {st st' : List Id × List Id}
    (h : parents.foldlM (meetParent target) st = some st') : target ∉ parents ∧ st' = parents.foldl visit st := by
  induction parents generalizing st with
  | nil => exact ⟨not_mem_nil, (Option.some.inj h).symm⟩
  | cons par parents ih =>
    obtain ⟨middle, hm, h⟩ := Option.bind_eq_some_iff.mp h
    unfold meetParent at hm
    split at hm
    · cases hm
    · next hne =>
      cases hm
      obtain ⟨hme, heq⟩ := ih h
      refine ⟨?_, heq⟩
      rw [mem_cons, not_or]
      exact ⟨Ne.symm hne, hme⟩

/-- The loop of `reaches`. -/
def searchTarget (target : Id) (cancelled : Bool) (pending visited : List Id) : Except ScanError Bool :=
  match pending with
  | [] => .ok false
  | current :: pending =>
    match checkCancelled cancelled with
    | .error e => .error e
    | .ok _ =>
      match _hstep : (catalog.parentsOf current).foldlM (meetParent target) (pending, visited) with
      | none => .ok true
      | some state => searchTarget target cancelled state.1 state.2
termination_by pending.length + Worklist.openLinks catalog.links visited
decreasing_by
  rw [(foldlM_meetParent_eq _hstep).2]
  have hle := Worklist.foldl_visit_measure (catalog.parentsOf current) (fun _ h => catalog.mem_links h) (pending, visited)
  simp only [length_cons] at hle ⊢
  omega

/-- `reaches`. -/
def reaches (origin target : Id) (cancelled : Bool) : Except ScanError Bool :=
  catalog.searchTarget target cancelled [origin] [origin]

/-- `broader_merge_context`. -/
def broaderMergeContext (narrower broader : Id) (cancelled : Bool) :
    Except ScanError (Option (CategoryMergeContext Id Rev)) := do
  checkCancelled cancelled
  match catalog.contextOf narrower, catalog.contextOf broader with
  | some narrowerConcept, some broaderConcept =>
    if narrower = broader then return none
    else
      match ← catalog.broaderPath narrower broader cancelled with
      | none => return none
      | some path =>
        -- Cycles establish no strict semantic containment, even beyond the admitted path.
        if ← catalog.reaches broader narrower cancelled then return none
        else
          return some
            { catalog := catalog.revision
              narrower := narrowerConcept
              broader := broaderConcept
              path }
  | _, _ => return none

end NamingContextCatalog

/-- What `compatible_context_target` asks of the context alone. -/
def CategoryMergeContext.pathFits (context : CategoryMergeContext Id Rev) : Bool :=
  !(context.narrower.id = context.broader.id ∨ ¬(2 ≤ context.path.length ∧ context.path.length ≤ 5) ∨
    context.path.head? ≠ some context.narrower.id ∨ context.path.getLast? ≠ some context.broader.id)

end

end Ame
