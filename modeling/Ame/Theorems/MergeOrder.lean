import Ame.Discovery.Relations
import Ame.Lib.BreadthFirst
import Mathlib

/-!
# Merges follow a strict order

The search for a path is a breadth-first search of four steps over the broader relation, the search back one without a bound. So
a merge context exists exactly for two known concepts of which the first lies strictly below the second, at most four steps away,
and merges that are justified by such contexts never lead back.
-/

namespace Ame

open List BreadthFirst Result

section

variable {Id Rev : Type} [DecidableEq Id] {catalog : NamingContextCatalog Id Rev} {origin target : Id}

namespace NamingContextCatalog

variable {parents visited path : List Id} {pend : List (List Id)} {st : List (List Id) × List Id} {done : List (Id × Nat)}

/-- One broader step. -/
def Broader (catalog : NamingContextCatalog Id Rev) (id parent : Id) : Prop := parent ∈ catalog.parentsOf id

/-! ## The search without a bound -/

/-- The target is met exactly if one of the steps leads to it. -/
theorem foldlM_meetParent_none {st : List Id × List Id} : parents.foldlM (meetParent target) st = none ↔ target ∈ parents := by
  constructor
  · intro h
    by_contra hm
    induction parents generalizing st with
    | nil => cases h
    | cons par parents ih =>
      rw [mem_cons, not_or] at hm
      rw [foldlM_cons, meetParent, if_neg (Ne.symm hm.1)] at h
      exact ih h hm.2
  · intro hm
    by_contra h
    obtain ⟨st', hs⟩ := Option.ne_none_iff_exists'.mp h
    exact (foldlM_meetParent_eq hs).1 hm

/-- What holds while the search for the target goes on. -/
structure Marked (catalog : NamingContextCatalog Id Rev) (origin target : Id) (pending visited : List Id) : Prop where
  begins : origin ∈ visited
  reached : ∀ id ∈ visited, Relation.ReflTransGen catalog.Broader origin id
  queued : ∀ id ∈ pending, id ∈ visited
  closed : ∀ id ∈ visited, id ∈ pending ∨ ∀ parent, catalog.Broader id parent → parent ∈ visited ∧ parent ≠ target

/-- Taking a concept from which the target is not one step away. -/
theorem Marked.expand {cur : Id} {pend : List Id} (h : Marked catalog origin target (cur :: pend) visited)
    (ht : target ∉ catalog.parentsOf cur) :
    Marked catalog origin target ((catalog.parentsOf cur).foldl Worklist.visit (pend, visited)).1
      ((catalog.parentsOf cur).foldl Worklist.visit (pend, visited)).2 := by
  obtain ⟨fresh, heq, hsu, hco⟩ := Worklist.foldl_visit_eq (catalog.parentsOf cur) (pend, visited)
  rw [heq]
  have hcu := h.reached cur (h.queued cur mem_cons_self)
  refine ⟨mem_append_left _ h.begins, ?_, ?_, ?_⟩
  · intro id hid
    rcases mem_append.mp hid with hid | hid
    · exact h.reached id hid
    · exact hcu.tail (hsu id hid)
  · intro id hid
    rcases mem_append.mp hid with hid | hid
    · exact mem_append_left _ (h.queued id (mem_cons_of_mem _ hid))
    · exact mem_append_right _ hid
  · intro id hid
    rcases mem_append.mp hid with hid | hid
    · rcases h.closed id hid with hm | hc
      · rcases mem_cons.mp hm with rfl | hm
        · exact .inr fun par hp => ⟨mem_append.mpr (hco par hp), fun hs => ht (hs ▸ hp)⟩
        · exact .inl (mem_append_left _ hm)
      · exact .inr fun par hp => ⟨mem_append_left _ (hc par hp).1, (hc par hp).2⟩
    · exact .inl (mem_append_right _ hid)

/-- When nothing is left to take, everything reached has been visited, and the target is no step away from any of it. -/
theorem Marked.not_reached (h : Marked catalog origin target [] visited) : ¬Relation.TransGen catalog.Broader origin target := by
  intro ht
  have hv : ∀ id, Relation.ReflTransGen catalog.Broader origin id → id ∈ visited := by
    intro id hid
    induction hid with
    | refl => exact h.begins
    | tail _ hs ih => exact ((h.closed _ ih).resolve_left not_mem_nil _ hs).1
  obtain ⟨last, hl, hs⟩ := Relation.TransGen.tail'_iff.mp ht
  exact ((h.closed last (hv last hl)).resolve_left not_mem_nil target hs).2 rfl

theorem searchTarget_ok {pend : List Id} (h : Marked catalog origin target pend visited) :
    ∃ found, catalog.searchTarget target false pend visited = .ok found ∧
      (found = true ↔ Relation.TransGen catalog.Broader origin target) := by
  fun_induction searchTarget catalog target false pend visited with
  | case1 visited => exact ⟨false, rfl, by simpa using h.not_reached⟩
  | case2 visited cur pend e hc => cases hc
  | case3 visited cur pend _ _ hs =>
    have hm := foldlM_meetParent_none.mp hs
    have hcu := h.reached cur (h.queued cur mem_cons_self)
    exact ⟨true, rfl, by simpa using Relation.TransGen.tail' hcu hm⟩
  | case4 visited cur pend _ _ st hs ih =>
    obtain ⟨hm, rfl⟩ := foldlM_meetParent_eq hs
    exact ih (h.expand hm)

/-- The search back answers whether a number of steps, at least one, leads to the target. -/
theorem reaches_ok (catalog : NamingContextCatalog Id Rev) (origin target : Id) :
    ∃ found, catalog.reaches origin target false = .ok found ∧
      (found = true ↔ Relation.TransGen catalog.Broader origin target) := by
  apply searchTarget_ok
  refine ⟨mem_singleton.mpr rfl, ?_, fun id hid => hid, fun id hid => .inl hid⟩
  intro id hid
  rw [mem_singleton.mp hid]

/-! ## The search for a path -/

/-- What extending a path by the parents of its last concept adds to the queue and to the visited concepts. -/
theorem foldlM_extendPath_ok {st' : List (List Id) × List Id} (h : parents.foldlM (extendPath target path) st = .ok st') :
    ∃ fresh, st' = (st.1 ++ fresh.map (fun par => path ++ [par]), st.2 ++ fresh) ∧
      (∀ par ∈ fresh, par ∈ parents ∧ par ∉ st.2 ∧ par ≠ target) ∧
      ∀ par ∈ parents, par ∈ st.2 ∨ par ∈ fresh := by
  induction parents generalizing st with
  | nil =>
    cases h
    exact ⟨[], by simp⟩
  | cons par parents ih =>
    obtain ⟨middle, hm, h⟩ := bind_ok h
    obtain ⟨fresh, heq, hs, hc⟩ := ih h
    unfold extendPath at hm
    split at hm
    · next hme =>
      cases hm
      refine ⟨fresh, heq, fun o ho => ⟨mem_cons_of_mem _ (hs o ho).1, (hs o ho).2⟩, ?_⟩
      rintro o (_ | ⟨_, ho⟩)
      · exact .inl hme
      · exact hc o ho
    · next hf =>
      split at hm
      · cases hm
      · next hne =>
        cases hm
        refine ⟨par :: fresh, by simpa using heq, ?_, ?_⟩
        · rintro o (_ | ⟨_, ho⟩)
          · exact ⟨mem_cons_self, hf, hne⟩
          · obtain ⟨hme, hv, ht⟩ := hs o ho
            exact ⟨mem_cons_of_mem _ hme, fun hin => hv (mem_append_left _ hin), ht⟩
        · rintro o (_ | ⟨_, ho⟩)
          · exact .inr mem_cons_self
          · rcases hc o ho with hin | hin
            · rcases mem_append.mp hin with hin | hin
              · exact .inl hin
              · exact .inr (mem_singleton.mp hin ▸ mem_cons_self)
            · exact .inr (mem_cons_of_mem _ hin)

theorem foldlM_extendPath_error {found : List Id}
    (h : parents.foldlM (extendPath target path) st = .error found) : found = path ++ [target] ∧ target ∈ parents := by
  induction parents generalizing st with
  | nil => cases h
  | cons par parents ih =>
    rw [foldlM_cons] at h
    cases hm : extendPath target path st par with
    | ok middle =>
      rw [hm] at h
      exact ⟨(ih h).1, mem_cons_of_mem _ (ih h).2⟩
    | error o =>
      rw [hm] at h
      cases h
      unfold extendPath at hm
      split at hm
      · cases hm
      · split at hm
        · next heq =>
          cases hm
          exact ⟨by rw [heq], heq ▸ mem_cons_self⟩
        · cases hm

/-- The queue as the search sees it: the last concept of each path and the number of its steps. -/
def ends (origin : Id) (pending : List (List Id)) : List (Id × Nat) :=
  pending.map fun path => (path.getLastD origin, path.length - 1)

/-- A path of distinct concepts along the broader relation that begins at `origin`. -/
structure IsPath (catalog : NamingContextCatalog Id Rev) (origin : Id) (path : List Id) : Prop where
  head : path.head? = some origin
  chain : path.IsChain catalog.Broader
  distinct : path.Nodup

theorem IsPath.getLast? (h : IsPath catalog origin path) : path.getLast? = some (path.getLastD origin) := by
  cases path with
  | nil => cases h.head
  | cons first rest => rw [getLast?_cons, getLastD_cons, getLastD_eq_getLast?]

theorem IsPath.extend {par : Id} (h : IsPath catalog origin path)
    (hp : par ∈ catalog.parentsOf (path.getLastD origin)) (hfr : par ∉ path) :
    IsPath catalog origin (path ++ [par]) where
  head := by rw [head?_append, h.head]; rfl
  chain := by
    rw [isChain_append]
    refine ⟨h.chain, isChain_singleton _, ?_⟩
    intro last hl first hf
    rw [h.getLast?, Option.mem_some_iff] at hl
    rw [head?_cons, Option.mem_some_iff] at hf
    exact hl ▸ hf ▸ hp
  distinct := by
    rw [nodup_append]
    refine ⟨h.distinct, nodup_singleton _, ?_⟩
    intro id hid o ho heq
    exact hfr (mem_singleton.mp ho ▸ heq ▸ hid)

/-- What holds of the queue and the visited concepts when `done` is what was taken from the queue. -/
structure Searched (catalog : NamingContextCatalog Id Rev) (origin target : Id) (pending : List (List Id)) (visited : List Id)
    (done : List (Id × Nat)) : Prop where
  layered : Layered catalog.Broader 4 (· = origin) done (ends origin pending)
  marks : ∀ id, id ∈ visited ↔ ∃ depth, (id, depth) ∈ done ++ ends origin pending
  paths : ∀ path ∈ pending, IsPath catalog origin path ∧ ∀ id ∈ path, id ∈ visited
  unmet : target ∉ visited

/-- Taking a path: `fresh` is what its last concept leads to and was not visited, if the path may be extended. -/
theorem Searched.expand (h : Searched catalog origin target (path :: pend) visited done) (fresh : List Id)
    (hf : ∀ par ∈ fresh, path.length ≤ 4 ∧ par ∈ catalog.parentsOf (path.getLastD origin) ∧ par ∉ visited ∧ par ≠ target)
    (hc : path.length ≤ 4 → ∀ par ∈ catalog.parentsOf (path.getLastD origin), par ∈ visited ∨ par ∈ fresh) :
    Searched catalog origin target (pend ++ fresh.map fun par => path ++ [par]) (visited ++ fresh)
      (done ++ [(path.getLastD origin, path.length - 1)]) := by
  obtain ⟨hpa, hin⟩ := h.paths path mem_cons_self
  have hpo : 0 < path.length := by
    cases path with
    | nil => cases hpa.head
    | cons => exact Nat.succ_pos _
  have he : ends origin (pend ++ fresh.map fun par => path ++ [par]) =
      ends origin pend ++ fresh.map fun par => (par, path.length - 1 + 1) := by
    unfold ends
    rw [map_append, map_map]
    congr 1
    apply map_congr_left
    simp only [Function.comp_apply, getLastD_concat, length_append, length_singleton, Prod.mk.injEq, true_and]
    omega
  have hl : Layered catalog.Broader 4 (· = origin) done ((path.getLastD origin, path.length - 1) :: ends origin pend) := h.layered
  refine ⟨?_, ?_, ?_, ?_⟩
  · rw [he]
    apply hl.expand
    · intro par hp
      obtain ⟨hle, hme, _⟩ := hf par hp
      exact ⟨by omega, hme⟩
    · intro hlt par hp
      rcases hc (by omega) par hp with hme | hme
      · exact .inr ((h.marks par).mp hme)
      · exact .inl hme
  · intro id
    have hm : done ++ ends origin (path :: pend) = done ++ [(path.getLastD origin, path.length - 1)] ++ ends origin pend := by
      simp [ends]
    rw [mem_append, h.marks, he, hm, ← append_assoc]
    constructor
    · rintro (⟨d, hd⟩ | hme)
      · exact ⟨d, mem_append_left _ hd⟩
      · exact ⟨_, mem_append_right _ (mem_map_of_mem hme)⟩
    · rintro ⟨d, hd⟩
      rcases mem_append.mp hd with hd | hd
      · exact .inl ⟨d, hd⟩
      · obtain ⟨_, hme, heq⟩ := mem_map.mp hd
        exact .inr ((Prod.mk.inj heq).1 ▸ hme)
  · intro o ho
    rcases mem_append.mp ho with ho | ho
    · obtain ⟨ho, hi⟩ := h.paths o (mem_cons_of_mem _ ho)
      exact ⟨ho, fun id hid => mem_append_left _ (hi id hid)⟩
    · obtain ⟨par, hp, rfl⟩ := mem_map.mp ho
      obtain ⟨-, hme, hn, -⟩ := hf par hp
      refine ⟨hpa.extend hme fun hme => hn (hin par hme), ?_⟩
      intro id hid
      rcases mem_append.mp hid with hid | hid
      · exact mem_append_left _ (hin id hid)
      · exact mem_append_right _ (mem_singleton.mp hid ▸ hp)
  · intro hme
    rcases mem_append.mp hme with hme | hme
    · exact h.unmet hme
    · exact (hf target hme).2.2.2 rfl

/-- A shortest path of at most four steps to the target. -/
structure IsShortest (catalog : NamingContextCatalog Id Rev) (origin target : Id) (path : List Id) : Prop
    extends IsPath catalog origin path where
  last : path.getLast? = some target
  length : 2 ≤ path.length ∧ path.length ≤ 5
  shortest : ∀ n, Walk catalog.Broader n origin target → path.length ≤ n + 1

/-- The path that ends the search is a shortest one. -/
theorem Searched.found (h : Searched catalog origin target (path :: pend) visited done) (hl : path.length ≤ 4)
    (ht : target ∈ catalog.parentsOf (path.getLastD origin)) : IsShortest catalog origin target (path ++ [target]) := by
  obtain ⟨hp, hin⟩ := h.paths path mem_cons_self
  refine ⟨hp.extend ht fun hm => h.unmet (hin target hm), by simp, ?_, ?_⟩
  · have hpo : path ≠ [] := by
      rintro rfl
      cases hp.head
    have := length_pos_iff.mpr hpo
    rw [length_append, length_singleton]
    omega
  · intro n hw
    rw [length_append, length_singleton]
    by_contra hlt
    -- A shorter walk would have led the search to the target before.
    obtain ⟨depth, -, hm⟩ := h.layered.met (n := n) (by omega)
      (fun e he => by have := h.layered.head_le e he; dsimp only at this; omega) rfl hw
    exact h.unmet ((h.marks target).mpr ⟨depth, hm⟩)

/-- The search ends, and finds a short path if there is one. -/
theorem searchPath_ok (h : Searched catalog origin target pend visited done) :
    ∃ res, catalog.searchPath origin target false pend visited = .ok res ∧
      (res = none → ∀ n ≤ 4, ¬Walk catalog.Broader n origin target) ∧
      ∀ path, res = some path → IsShortest catalog origin target path := by
  fun_induction searchPath catalog origin target false pend visited generalizing done with
  | case1 visited =>
    refine ⟨none, rfl, ?_, by simp⟩
    rintro - n hn hw
    obtain ⟨depth, -, hm⟩ := h.layered.met hn (by simp [ends]) rfl hw
    exact h.unmet ((h.marks target).mpr ⟨depth, hm⟩)
  | case2 visited path pend e hc => cases hc
  | case3 visited path pend _ _ hl ih =>
    have hne := h.expand [] (by simp) (fun hle => by omega)
    rw [map_nil, append_nil, append_nil] at hne
    exact ih hne
  | case4 visited path pend _ _ hl found hs =>
    obtain ⟨rfl, hm⟩ := foldlM_extendPath_error hs
    refine ⟨some (path ++ [target]), rfl, by simp, ?_⟩
    rintro _ ⟨⟩
    exact h.found (Nat.not_lt.mp hl) hm
  | case5 visited path pend _ _ hl st hs ih =>
    obtain ⟨fresh, rfl, hf, hco⟩ := foldlM_extendPath_ok hs
    exact ih (h.expand fresh (fun par hp => ⟨Nat.not_lt.mp hl, hf par hp⟩) fun _ => hco)

/-- The search for a path finds a shortest one exactly if there is one of at most four steps. -/
theorem broaderPath_ok (catalog : NamingContextCatalog Id Rev) (hne : origin ≠ target) :
    ∃ res, catalog.broaderPath origin target false = .ok res ∧ (res = none → ∀ n ≤ 4, ¬Walk catalog.Broader n origin target) ∧
      ∀ path, res = some path → IsShortest catalog origin target path := by
  have hs : Searched catalog origin target [[origin]] [origin] [] := ?_
  · exact searchPath_ok hs
  refine ⟨?_, ?_, ?_, ?_⟩
  · exact Layered.initial [origin] fun a => by simp
  · simp [ends]
  · intro path hp
    obtain rfl := mem_singleton.mp hp
    exact ⟨⟨rfl, isChain_singleton _, nodup_singleton _⟩, fun id hid => hid⟩
  · simpa using hne.symm

/-! ## Merge contexts -/

/-- `id` is known to the catalog. -/
def Known (catalog : NamingContextCatalog Id Rev) (id : Id) : Prop := (catalog.contextOf id).isSome = true

/-- A merge from one concept into the other is justified by a context. -/
def MergesInto (catalog : NamingContextCatalog Id Rev) (narrower broader : Id) : Prop :=
  ∃ context, catalog.broaderMergeContext narrower broader false = .ok (some context)

/-- What `broader_merge_context` answers when the call is not cancelled. -/
theorem broaderMergeContext_ok (catalog : NamingContextCatalog Id Rev) (narrower broader : Id) :
    ∃ res, catalog.broaderMergeContext narrower broader false = .ok res ∧
      (res = none → ¬(catalog.Known narrower ∧ catalog.Known broader ∧ narrower ≠ broader ∧
        (∃ n ≤ 4, Walk catalog.Broader n narrower broader) ∧ ¬Relation.ReflTransGen catalog.Broader broader narrower)) ∧
      ∀ ctx, res = some ctx → catalog.Known narrower ∧ catalog.Known broader ∧ narrower ≠ broader ∧
        ¬Relation.ReflTransGen catalog.Broader broader narrower ∧ IsShortest catalog narrower broader ctx.path ∧
        catalog.contextOf narrower = some ctx.narrower ∧ catalog.contextOf broader = some ctx.broader := by
  unfold broaderMergeContext Known
  cases hna : catalog.contextOf narrower with
  | none => exact ⟨none, rfl, by simp, by simp⟩
  | some narrowerConcept =>
    cases hb : catalog.contextOf broader with
    | none => exact ⟨none, rfl, by simp, by simp⟩
    | some broaderConcept =>
      by_cases hne : narrower = broader
      · simp [checkCancelled, hne, bind, Except.bind, pure, Except.pure]
      · obtain ⟨res, hp, hno, hso⟩ := catalog.broaderPath_ok hne
        obtain ⟨found, hr, hba⟩ := catalog.reaches_ok broader narrower
        have hs : Relation.ReflTransGen catalog.Broader broader narrower ↔ found = true := by
          rw [hba, Relation.reflTransGen_iff_eq_or_transGen]
          exact ⟨fun h => h.resolve_left hne, .inr⟩
        cases res with
        | none =>
          refine ⟨none, ?_, ?_, by simp⟩
          · simp [checkCancelled, hne, hp, bind, Except.bind, pure, Except.pure]
          · rintro - ⟨-, -, -, ⟨n, hn, hw⟩, -⟩
            exact hno rfl n hn hw
        | some path =>
          cases found with
          | true =>
            refine ⟨none, ?_, ?_, by simp⟩
            · simp [checkCancelled, hne, hp, hr, bind, Except.bind, pure, Except.pure]
            · rintro - ⟨-, -, -, -, hc⟩
              exact hc (hs.mpr rfl)
          | false =>
            refine ⟨some ⟨catalog.revision, narrowerConcept, broaderConcept, path⟩, ?_, by simp, ?_⟩
            · simp [checkCancelled, hne, hp, hr, bind, Except.bind, pure, Except.pure]
            · rintro ctx ⟨⟩
              exact ⟨rfl, rfl, hne, fun hc => Bool.false_ne_true (hs.mp hc), hso path rfl, rfl, rfl⟩

/-- A shortest path is a walk. -/
theorem IsPath.walk (h : IsPath catalog origin path) (ht : path.getLast? = some target) :
    Walk catalog.Broader (path.length - 1) origin target := by
  induction path using List.reverseRecOn generalizing target with
  | nil => cases h.head
  | append_singleton path last ih =>
    obtain rfl : last = target := by simpa using ht
    cases hs : path.getLast? with
    | none =>
      obtain rfl := getLast?_eq_none_iff.mp hs
      obtain rfl : last = origin := by simpa using h.head
      exact .refl _
    | some before =>
      obtain ⟨hc, -, hst⟩ := isChain_append.mp h.chain
      have hh : path.head? = some origin := by
        have := h.head
        cases path with
        | nil => cases hs
        | cons => exact this
      have hp : path ≠ [] := by
        rintro rfl
        cases hs
      have hw := (ih ⟨hh, hc, (nodup_append.mp h.distinct).1⟩ hs).tail (hst before hs last rfl)
      have hl := length_pos_iff.mpr hp
      rwa [length_append, ← Nat.sub_add_cancel hl]

/-- A merge leads strictly upwards. -/
theorem MergesInto.strict {narrower broader : Id} (h : catalog.MergesInto narrower broader) :
    Relation.ReflTransGen catalog.Broader narrower broader ∧ ¬Relation.ReflTransGen catalog.Broader broader narrower := by
  obtain ⟨ctx, hc⟩ := h
  obtain ⟨res, hr, -, hs⟩ := catalog.broaderMergeContext_ok narrower broader
  rw [hr] at hc
  obtain ⟨-, -, -, hb, hp, -⟩ := hs ctx (Except.ok.inj hc)
  exact ⟨(hp.toIsPath.walk hp.last).reflTransGen, hb⟩

/-- Merges follow the broader relation. -/
theorem reachable_of_merges {first last : Id} (h : Relation.ReflTransGen catalog.MergesInto first last) :
    Relation.ReflTransGen catalog.Broader first last := by
  induction h with
  | refl => exact .refl
  | tail _ hm ih => exact ih.trans hm.strict.1

/-- The context kept for an identifier is the one with that identifier. -/
theorem id_of_contextOf {id : Id} {concept : VocabularyConcept Id Rev} (h : catalog.contextOf id = some concept) :
    concept.id = id := by
  simpa using find?_some h

end NamingContextCatalog

open NamingContextCatalog

/-- There is a merge context exactly for two known, distinct concepts of which a path of at most four broader steps leads from the
first to the second and none back. Its path then is a shortest one, of two to five distinct concepts joined by broader steps, as
the test on merge targets requires, and no chain of merges with such contexts returns to where it began. -/
theorem broaderMergeContext_exact (catalog : NamingContextCatalog Id Rev) :
    (∀ narrower broader, (∃ result, catalog.broaderMergeContext narrower broader false = .ok result) ∧
      ((∃ context, catalog.broaderMergeContext narrower broader false = .ok (some context)) ↔
        catalog.Known narrower ∧ catalog.Known broader ∧ narrower ≠ broader ∧
          (∃ n ≤ 4, Walk catalog.Broader n narrower broader) ∧ ¬Relation.ReflTransGen catalog.Broader broader narrower)) ∧
    (∀ narrower broader context, catalog.broaderMergeContext narrower broader false = .ok (some context) →
      context.path.head? = some narrower ∧ context.path.getLast? = some broader ∧
        (2 ≤ context.path.length ∧ context.path.length ≤ 5) ∧ context.path.Nodup ∧ context.path.IsChain catalog.Broader ∧
        (∀ n, Walk catalog.Broader n narrower broader → context.path.length ≤ n + 1) ∧ context.pathFits = true) ∧
    ∀ concept, ¬Relation.TransGen catalog.MergesInto concept concept := by
  refine ⟨?_, ?_, ?_⟩
  · intro narrower broader
    obtain ⟨result, hr, hno, hs⟩ := catalog.broaderMergeContext_ok narrower broader
    refine ⟨⟨result, hr⟩, ?_⟩
    constructor
    · rintro ⟨context, hc⟩
      rw [hr] at hc
      obtain ⟨hn, hb, hne, hba, hp, -⟩ := hs context (Except.ok.inj hc)
      have hle := hp.length.2
      exact ⟨hn, hb, hne, ⟨_, by omega, hp.toIsPath.walk hp.last⟩, hba⟩
    · intro hco
      cases result with
      | none => exact absurd hco (hno rfl)
      | some context => exact ⟨context, hr⟩
  · intro narrower broader context hc
    obtain ⟨result, hr, -, hs⟩ := catalog.broaderMergeContext_ok narrower broader
    rw [hr] at hc
    obtain ⟨-, -, hne, -, hp, hn, hb⟩ := hs context (Except.ok.inj hc)
    refine ⟨hp.head, hp.last, hp.length, hp.distinct, hp.chain, hp.shortest, ?_⟩
    simp [CategoryMergeContext.pathFits, id_of_contextOf hn, id_of_contextOf hb, hne, hp.head, hp.last, hp.length]
  · intro concept hch
    obtain ⟨following, hf, hre⟩ := Relation.TransGen.head'_iff.mp hch
    -- The first merge goes strictly up, the others never go down.
    exact hf.strict.2 (reachable_of_merges hre)

end

end Ame
