import Ame.Discovery.ContextGraph
import Ame.Lib.BreadthFirst

/-!
# What the walk over broader concepts finds

The walk is a breadth-first search over pairs of a concept and the seed it was met from. If the vocabulary serves one broader
relation, page by page, then the groups are the ancestors within the permitted number of steps, and nothing else.
-/

namespace Ame

open List BreadthFirst Result TraversalScope

section

variable {σ Id Rev : Type} [LinearOrder Id] [DecidableEq Rev] {vocabulary : ClassificationVocabulary σ Id Rev}
  {broader : Id → Id → Prop} {rev : Rev} {limits : ConceptConsolidationLimits} {scope : TraversalScope Id}
  {stop cancelled : Bool} {after : Option Id} {ids seeds : List Id} {state st : σ} {id seed : Id}
  {reading res : ParentReading σ Id Rev}
  {limit depth : Nat} {concepts concepts' added : List (VocabularyConcept Id Rev)}
  {walk walk' : Traversal σ Id Rev limits.edges} {done : List ((Id × Id) × Nat)}

/-- Every page of broader concepts is a part of one relation, and what it leaves out comes later. -/
structure Serves (vocabulary : ClassificationVocabulary σ Id Rev) (broader : Id → Id → Prop) : Prop where
  sound : ∀ {state next id after limit page}, vocabulary.readConcepts state (.broader id) after limit = .ok (page, next) →
    ∀ concept ∈ page.concepts, broader id concept.id
  complete : ∀ {state next id after limit page}, vocabulary.readConcepts state (.broader id) after limit = .ok (page, next) →
    ∀ parent, broader id parent → (∀ before ∈ after, before < parent) → (∃ concept ∈ page.concepts, concept.id = parent) ∨
        page.hasMore = true ∧ ∀ concept ∈ page.concepts, concept.id < parent

/-! ## Reading the parents of a concept -/

omit [DecidableEq Rev] in
theorem ascendsAfter_iff :
    ascendsAfter after ids = true ↔ ids.Pairwise (· < ·) ∧ ∀ id ∈ ids, ∀ before ∈ after, before < id := by
  induction ids generalizing after with
  | nil => simp [ascendsAfter]
  | cons id ids ih =>
    rw [ascendsAfter, Bool.and_eq_true, ih, pairwise_cons, forall_mem_cons]
    have hh : (!after.any fun before => decide (id ≤ before)) = true ↔ ∀ before ∈ after, before < id := by
      cases after <;> simp
    rw [hh]
    constructor
    · rintro ⟨hid, hp, hi⟩
      refine ⟨⟨fun o ho => hi o ho id rfl, hp⟩, hid, ?_⟩
      exact fun o ho before hb => (hid before hb).trans (hi o ho id rfl)
    · rintro ⟨⟨hl, hp⟩, hid, _⟩
      exact ⟨hid, hp, fun o ho before hb => Option.mem_some_iff.mp hb ▸ hl o ho⟩

/-- What a page adds: the parents up to its last one. -/
theorem readConceptPage_parents (hs : Serves vocabulary broader) {st' : σ} {rem : Nat} {page : ConceptPage Id Rev}
    (h : readConceptPage vocabulary st rev (.broader id) after rem stop = .ok (page, st')) (par : Id) :
    (broader id par ∧ ∀ before ∈ after, before < par) ↔ par ∈ page.concepts.map (·.id) ∨
        page.hasMore = true ∧ broader id par ∧ ∀ before ∈ page.concepts.getLast?.map (·.id), before < par := by
  obtain ⟨hr, -, hn, hasc⟩ := readConceptPage_ok h
  obtain ⟨hpa, ha⟩ := ascendsAfter_iff.mp hasc
  have hl : ∀ before ∈ page.concepts.getLast?.map (·.id), before ∈ page.concepts.map (·.id) := by
    intro before hb
    obtain ⟨concept, hc, rfl⟩ := Option.mem_map.mp hb
    exact mem_map_of_mem (mem_of_mem_getLast? hc)
  constructor
  · rintro ⟨hp, hb⟩
    rcases hs.complete hr par hp hb with ⟨concept, hc, rfl⟩ | ⟨hm, hbe⟩
    · exact .inl (mem_map_of_mem hc)
    · refine .inr ⟨hm, hp, fun before hme => ?_⟩
      obtain ⟨concept, hc, rfl⟩ := mem_map.mp (hl before hme)
      exact hbe concept hc
  · rintro (hme | ⟨hm, hp, hbe⟩)
    · obtain ⟨concept, hc, hid⟩ := mem_map.mp hme
      exact ⟨hid ▸ hs.sound hr concept hc, ha par hme⟩
    · refine ⟨hp, fun before hb => ?_⟩
      -- A page that announces more has a last concept, which comes after the cursor and before the parent.
      obtain ⟨last, hgl⟩ : ∃ last, page.concepts.getLast? = some last := by
        refine Option.ne_none_iff_exists'.mp fun hno => hn hm ?_
        rw [getLast?_eq_none_iff.mp hno, length_nil]
      have hcu : last.id ∈ page.concepts.getLast?.map (·.id) := by rw [hgl]; rfl
      exact (ha _ (hl _ hcu) before hb).trans (hbe _ hcu)

/-- A property of the cursor and of what has been read that every page keeps holds when the parents have been read, where the
last page announces no more. -/
theorem readParents_invariant {P : Option Id → ParentReading σ Id Rev → Prop} {Q : ParentReading σ Id Rev → Prop}
    (hp : ∀ after reading page st concepts, P after reading →
      readConceptPage vocabulary reading.vocabulary rev (.broader id) after (limits.edges - reading.readEdges) stop =
        .ok (page, st) →
      page.concepts.foldlM (remember limits.concepts) reading.concepts = .ok concepts →
      let next : ParentReading σ Id Rev :=
        ⟨concepts, reading.ids ++ page.concepts.map (·.id), reading.readEdges + page.concepts.length, st⟩
      if page.hasMore then P (page.concepts.getLast?.map (·.id)) next else Q next) (hs : P after reading)
    (h : readParents vocabulary rev limits stop id after reading = .ok res) : Q res := by
  fun_induction readParents vocabulary rev limits stop id after reading with
  | case1 => cases h
  | case2 => cases h
  | case3 => cases h
  | case4 after reading hl page st hre concepts hr next hm ih =>
    have hn := hp after reading page st concepts hs hre hr
    rw [if_pos hm] at hn
    exact ih hn h
  | case5 after reading hl page st hre concepts hr next hm =>
    have hn := hp after reading page st concepts hs hre hr
    rw [if_neg hm] at hn
    exact Except.ok.inj h ▸ hn

/-- The parents read are the parents of the concept. -/
theorem readParents_ids (hse : Serves vocabulary broader) (he : reading.ids = [])
    (h : readParents vocabulary rev limits stop id none reading = .ok res) (par : Id) : par ∈ res.ids ↔ broader id par := by
  -- Up to the cursor all parents have been read, and none after it.
  refine readParents_invariant
    (P := fun after reading => ∀ par, broader id par ↔ par ∈ reading.ids ∨ broader id par ∧ ∀ before ∈ after, before < par)
    (Q := fun res => ∀ par, par ∈ res.ids ↔ broader id par) ?_ ?_ h par
  · intro after reading page st concepts hr hre _ foll
    have hs := readConceptPage_parents hse hre
    split
    · next hm =>
      intro par
      calc broader id par
        _ ↔ _ := hr par
        _ ↔ _ := or_congr_right (hs par)
        _ ↔ _ := by rw [← or_assoc, ← mem_append]; simp only [hm, true_and, foll]
    · next hm =>
      intro par
      refine Iff.symm ?_
      calc broader id par
        _ ↔ _ := hr par
        _ ↔ _ := or_congr_right (hs par)
        _ ↔ _ := by rw [← or_assoc, ← mem_append]; simp only [hm, false_and, or_false, foll, Bool.false_eq_true]
  · simp [he]

/-- What follows one remembered concept after another keeps the concepts within their limit. -/
theorem remember_length {concept : VocabularyConcept Id Rev}
    (h : remember limit concepts concept = .ok concepts') (hle : concepts.length ≤ limit) : concepts'.length ≤ limit := by
  unfold remember at h
  split at h
  · split at h
    · cases h
    · exact Except.ok.inj h ▸ hle
  · split at h
    · cases h
    · next hne =>
      cases h
      rw [length_append, length_singleton]
      omega

theorem foldlM_remember_length
    (h : added.foldlM (remember limit) concepts = .ok concepts') (hle : concepts.length ≤ limit) : concepts'.length ≤ limit :=
  foldlM_invariant (P := fun o => o.length ≤ limit) (fun _ _ _ _ ho hs => remember_length hs ho) h hle

/-- Reading parents keeps to the limit. -/
theorem readParents_length (h : readParents vocabulary rev limits stop id none reading = .ok res)
    (hle : reading.concepts.length ≤ limits.concepts) : res.concepts.length ≤ limits.concepts := by
  refine readParents_invariant (P := fun _ reading => reading.concepts.length ≤ limits.concepts)
    (Q := fun res => res.concepts.length ≤ limits.concepts) ?_ hle h
  intro after reading page st concepts hre _ hr
  have hc := foldlM_remember_length hr hre
  split <;> exact hc

/-! ## One round of the walk -/

/-- The queue as the search sees it: a pair of a concept and a seed, and its depth. -/
def entries (pending : List (Id × Id × Nat)) : List ((Id × Id) × Nat) :=
  pending.map fun entry => ((entry.1, entry.2.1), entry.2.2)

section

variable (broader : Id → Id → Prop) (scope : TraversalScope Id)

/-- The steps the search takes: the concept goes to a parent, unless the walk ends at it, and the seed stays. -/
def climbs (concept parent : Id) : Prop :=
  scope.expands concept = true ∧ broader concept parent

def pairStep (first second : Id × Id) : Prop :=
  climbs broader scope first.1 second.1 ∧ second.2 = first.2

end

omit [DecidableEq Rev] in
/-- What following the edges to the parents of a concept changes. -/
theorem foldlM_scheduleParent_ok {edgeLimit : Nat}
    {walk walk' : Traversal σ Id Rev edgeLimit} (h : ids.foldlM (scheduleParent seed depth) walk = .ok walk') :
    ∃ fresh : List Id, walk'.pending = walk.pending ++ fresh.map (fun par => (par, seed, depth + 1)) ∧
      (∀ par ∈ fresh, par ∈ ids) ∧ (∀ par ∈ ids, par ∈ fresh ∨ (par, seed) ∈ walk.scheduled) ∧
      (∀ pair, pair ∈ walk'.scheduled ↔ pair ∈ walk.scheduled ∨ pair ∈ fresh.map fun par => (par, seed)) ∧
      walk'.groups = walk.groups ∧ walk'.parents = walk.parents ∧ walk'.concepts = walk.concepts := by
  induction ids generalizing walk with
  | nil =>
    cases h
    exact ⟨[], by simp⟩
  | cons par ids ih =>
    rw [foldlM_cons] at h
    obtain ⟨middle, hm, h⟩ := bind_ok h
    obtain ⟨fresh, hpe, hsu, hco, hs, hg, hp, hc⟩ := ih h
    unfold scheduleParent at hm
    split at hm
    · cases hm
    · dsimp only at hm
      split at hm
      · next hme =>
        cases hm
        refine ⟨fresh, hpe, fun o ho => mem_cons_of_mem _ (hsu o ho), ?_, hs, hg, hp, hc⟩
        intro o ho
        rcases mem_cons.mp ho with rfl | ho
        · exact .inr hme
        · exact hco o ho
      · cases hm
        refine ⟨par :: fresh, by simpa using hpe, ?_, ?_, ?_, hg, hp, hc⟩
        · intro o ho
          rcases mem_cons.mp ho with rfl | ho
          · exact mem_cons_self
          · exact mem_cons_of_mem _ (hsu o ho)
        · intro o ho
          rcases mem_cons.mp ho with rfl | ho
          · exact .inl mem_cons_self
          · rcases hco o ho with hf | hme
            · exact .inl (mem_cons_of_mem _ hf)
            · rcases mem_cons.mp hme with heq | hme
              · exact .inl (by rw [(Prod.mk.inj heq).1]; exact mem_cons_self)
              · exact .inr hme
        · intro pair
          rw [hs pair, map_cons, mem_cons, mem_cons]
          tauto

/-- Every list of parents the walk keeps is the list of all parents. -/
def KnowsParents (broader : Id → Id → Prop) (parents : List (Id × List Id)) : Prop :=
  ∀ id ids, parents.lookup id = some ids → ∀ parent, parent ∈ ids ↔ broader id parent

/-- After the parents of a concept are loaded, they are known, and the concepts are within their limit. -/
theorem loadParents_known (hs : Serves vocabulary broader)
    (h : loadParents vocabulary rev limits stop id walk = .ok walk') (hp : KnowsParents broader walk.parents)
    (hc : walk.concepts.length ≤ limits.concepts) :
    KnowsParents broader walk'.parents ∧ walk'.concepts.length ≤ limits.concepts ∧
      ∀ par, par ∈ (walk'.parents.lookup id).getD [] ↔ broader id par := by
  rcases loadParents_ok h with ⟨rfl, hso⟩ | ⟨reading, hr, rfl⟩
  · obtain ⟨ids, hi⟩ := Option.isSome_iff_exists.mp hso
    refine ⟨hp, hc, ?_⟩
    rw [hi]
    exact hp id ids hi
  · have hi := readParents_ids hs rfl hr
    refine ⟨?_, readParents_length hr hc, ?_⟩
    · intro o ids hl
      rw [lookup_cons] at hl
      split at hl
      · next heq =>
        obtain rfl := eq_of_beq heq
        exact Option.some.inj hl ▸ hi
      · exact hp o ids hl
    · simpa using hi

/-- What one round changes: the concept taken joins a group if the scope collects it, and what it leads to and was not met is put
on the queue. -/
theorem visitConcept_ok (hse : Serves vocabulary broader)
    (h : visitConcept vocabulary rev limits scope stop id seed depth walk = .ok walk')
    (hpar : KnowsParents broader walk.parents) (hco : walk.concepts.length ≤ limits.concepts) :
    ∃ fresh : List Id, walk'.pending = walk.pending ++ fresh.map (fun par => (par, seed, depth + 1)) ∧
      (∀ par ∈ fresh, depth ≠ limits.hops ∧ climbs broader scope id par) ∧
      (depth ≠ limits.hops → ∀ par, climbs broader scope id par → par ∈ fresh ∨ (par, seed) ∈ walk.scheduled) ∧
      (∀ pair, pair ∈ walk'.scheduled ↔ pair ∈ walk.scheduled ∨ pair ∈ fresh.map fun par => (par, seed)) ∧
      (∀ pair, pair ∈ walk'.groups ↔ pair ∈ walk.groups ∨ scope.collects id = true ∧ pair = (id, seed)) ∧
      KnowsParents broader walk'.parents ∧ walk'.concepts.length ≤ limits.concepts := by
  obtain ⟨_, _, h⟩ := bind_ok h
  obtain ⟨_, _, h⟩ := bind_ok h
  generalize hcol : (if scope.collects id = true then { walk with groups := walk.groups.insert (id, seed) }
    else walk) = collected at h
  obtain ⟨hpe, hsc, hsa, hle⟩ : collected.pending = walk.pending ∧ collected.scheduled = walk.scheduled ∧
      collected.parents = walk.parents ∧ collected.concepts = walk.concepts := by
    rw [← hcol]
    split <;> exact ⟨rfl, rfl, rfl, rfl⟩
  have hgr : ∀ pair, pair ∈ collected.groups ↔ pair ∈ walk.groups ∨ scope.collects id = true ∧ pair = (id, seed) := by
    intro pair
    rw [← hcol]
    split
    · next hc =>
      rw [mem_insert_iff, or_comm]
      simp only [hc, true_and]
    · next hc => simp only [hc, Bool.false_eq_true, false_and, or_false]
  rw [← hpe, ← hsc]
  rw [← hsa] at hpar
  rw [← hle] at hco
  by_cases hst : scope.expands id = true ∧ depth ≠ limits.hops
  · rw [if_pos hst.1, if_neg hst.2] at h
    obtain ⟨loaded, hl, h⟩ := bind_ok h
    obtain ⟨hk, hw, hi⟩ := loadParents_known hse hl hpar hco
    obtain ⟨fresh, hn, hsu, hcov, hno, hgro, hke, hli⟩ := foldlM_scheduleParent_ok h
    have hls : loaded.pending = collected.pending ∧ loaded.scheduled = collected.scheduled ∧
        loaded.groups = collected.groups := by
      rcases loadParents_ok hl with ⟨rfl, _⟩ | ⟨reading, _, rfl⟩ <;> exact ⟨rfl, rfl, rfl⟩
    obtain ⟨hp, hs, hg⟩ := hls
    refine ⟨fresh, hp ▸ hn, ?_, ?_, hs ▸ hno, fun pair => by rw [hgro, hg, hgr], hke ▸ hk, hli ▸ hw⟩
    · exact fun par hpa => ⟨hst.2, hst.1, (hi par).mp (hsu par hpa)⟩
    · exact fun _ par hpa => hs ▸ hcov par ((hi par).mpr hpa.2)
  · have hr : walk' = collected := by
      split at h
      · next he =>
        have hh : depth = limits.hops := by
          by_contra hne
          exact hst ⟨he, hne⟩
        rw [if_pos hh] at h
        exact (Except.ok.inj h).symm
      · exact (Except.ok.inj h).symm
    subst hr
    refine ⟨[], by simp, by simp, ?_, by simp, hgr, hpar, hco⟩
    exact fun hh par hpa => absurd ⟨hpa.1, hh⟩ hst

/-! ## The whole walk -/

/-- What holds of the walk when `done` is what was taken from its queue. -/
structure Explored (broader : Id → Id → Prop) (scope : TraversalScope Id) (seeds : List Id)
    (walk : Traversal σ Id Rev limits.edges) (done : List ((Id × Id) × Nat)) : Prop where
  layered : Layered (pairStep broader scope) limits.hops (fun pair => pair.1 ∈ seeds ∧ pair.2 = pair.1) done
    (entries walk.pending)
  scheduled : ∀ pair, pair ∈ walk.scheduled ↔ ∃ depth, (pair, depth) ∈ done ++ entries walk.pending
  groups : ∀ pair, pair ∈ walk.groups ↔ scope.collects pair.1 = true ∧ ∃ depth, (pair, depth) ∈ done
  parents : KnowsParents broader walk.parents
  concepts : walk.concepts.length ≤ limits.concepts

/-- One round keeps it, with the entry taken added to what was taken. -/
theorem Explored.visit (hse : Serves vocabulary broader) {pending : List (Id × Id × Nat)}
    (he : Explored broader scope seeds walk done) (hpe : walk.pending = (id, seed, depth) :: pending)
    (h : visitConcept vocabulary rev limits scope stop id seed depth { walk with pending } = .ok walk') :
    Explored broader scope seeds walk' (done ++ [((id, seed), depth)]) := by
  obtain ⟨fresh, hn, hst, hcov, hs, hg, hp, hco⟩ :=
    visitConcept_ok hse h he.parents he.concepts
  have hl := he.layered
  have hw := he.scheduled
  rw [hpe] at hl hw
  have hen : entries walk'.pending =
      entries pending ++ (fresh.map fun parent => (parent, seed)).map fun pair => (pair, depth + 1) := by
    rw [hn]
    simp [entries]
  have hb : depth ≤ limits.hops := hl.bounded ((id, seed), depth) (by simp [entries])
  refine ⟨?_, ?_, ?_, hp, hco⟩
  · rw [hen]
    apply hl.expand
    · intro pair hpai
      obtain ⟨parent, hpa, rfl⟩ := mem_map.mp hpai
      obtain ⟨hne, hcl⟩ := hst parent hpa
      exact ⟨Nat.lt_of_le_of_ne hb hne, hcl, rfl⟩
    · rintro hlt ⟨parent, other⟩ ⟨hcl, rfl⟩
      rcases hcov (Nat.ne_of_lt hlt) parent hcl with hf | hme
      · exact .inl (mem_map_of_mem hf)
      · exact .inr ((hw _).mp hme)
  · intro pair
    have hm : done ++ entries ((id, seed, depth) :: pending) = done ++ [((id, seed), depth)] ++ entries pending := by
      simp [entries]
    rw [hs, hw, hen, hm, ← append_assoc]
    constructor
    · rintro (⟨d, hd⟩ | hf)
      · exact ⟨d, mem_append_left _ hd⟩
      · exact ⟨depth + 1, mem_append_right _ (mem_map_of_mem hf)⟩
    · rintro ⟨d, hd⟩
      rcases mem_append.mp hd with hd | hd
      · exact .inl ⟨d, hd⟩
      · obtain ⟨_, hf, heq⟩ := mem_map.mp hd
        exact .inr ((Prod.mk.inj heq).1 ▸ hf)
  · intro pair
    rw [hg, he.groups]
    constructor
    · rintro (⟨hc, d, hd⟩ | ⟨hc, rfl⟩)
      · exact ⟨hc, d, mem_append_left _ hd⟩
      · exact ⟨hc, depth, by simp⟩
    · rintro ⟨hc, d, hd⟩
      rcases mem_append.mp hd with hd | hd
      · exact .inl ⟨hc, d, hd⟩
      · obtain ⟨rfl, rfl⟩ := Prod.mk.inj (mem_singleton.mp hd)
        exact .inr ⟨hc, rfl⟩

/-- The loop ends with nothing on the queue. -/
theorem Explored.loop (hs : Serves vocabulary broader) (he : Explored broader scope seeds walk done)
    (h : traverseLoop vocabulary rev limits scope stop walk = .ok walk') :
    ∃ taken, Explored broader scope seeds walk' taken ∧ walk'.pending = [] := by
  fun_induction traverseLoop vocabulary rev limits scope stop walk generalizing done with
  | case1 walk hp =>
    cases h
    exact ⟨done, he, hp⟩
  | case2 => cases h
  | case3 walk id seed depth pending hp following hv ih => exact ih (he.visit hs hp hv) h

omit [DecidableEq Rev] in
/-- The walk begins with the seeds on the queue. -/
theorem Explored.initial (hc : concepts.length ≤ limits.concepts) (seeds : List Id) (state : σ) : Explored broader scope seeds
      ({ concepts
         pending := seeds.map fun id => (id, id, 0)
         scheduled := seeds.map fun id => (id, id)
         parents := []
         groups := []
         readEdges := 0
         visitedEdges := 0
         visited_le := Nat.zero_le _
         vocabulary := state } : Traversal σ Id Rev limits.edges) [] := by
  have he : entries (seeds.map fun id => (id, id, 0)) = (seeds.map fun id => (id, id)).map fun pair => (pair, 0) := by
    simp [entries]
  refine ⟨?_, ?_, by simp, ?_, hc⟩
  · dsimp only
    rw [he]
    apply Layered.initial
    rintro ⟨concept, seed⟩
    simp only [mem_map, Prod.mk.injEq]
    constructor
    · rintro ⟨hm, rfl⟩
      exact ⟨seed, hm, rfl, rfl⟩
    · rintro ⟨id, hm, rfl, rfl⟩
      exact ⟨hm, rfl⟩
  · intro pair
    rw [he]
    simp
  · intro id ids hl
    simp at hl

/-- What the search over pairs meets, seed by seed. -/
theorem walk_pairStep {concept origin : Id} {n : Nat} : Walk (pairStep broader scope) n (origin, origin) (concept, seed) ↔
      origin = seed ∧ Walk (climbs broader scope) n seed concept := by
  constructor
  · intro h
    have hse : ∀ {n : Nat} {first second : Id × Id}, Walk (pairStep broader scope) n first second → second.2 = first.2 := by
      intro n first second hw
      induction hw with
      | refl => rfl
      | tail _ hs ih => rw [hs.2, ih]
    obtain rfl : seed = origin := hse h
    exact ⟨rfl, h.map (f := Prod.fst) fun _ _ hs => hs.1⟩
  · rintro ⟨rfl, h⟩
    exact h.map (f := fun concept => (concept, origin)) fun _ _ hs => ⟨hs, rfl⟩

/-- The concepts remembered are those given, each identifier among them once. -/
theorem mem_foldlM_remember (h : added.foldlM (remember limit) concepts = .ok concepts') (id : Id) :
    id ∈ concepts'.map (·.id) ↔ id ∈ concepts.map (·.id) ∨ id ∈ added.map (·.id) := by
  refine foldlM_history (P := fun done o => id ∈ o.map (·.id) ↔ id ∈ concepts.map (·.id) ∨ id ∈ done.map (·.id)) ?_ h (by simp)
  intro done concept before after hb hs
  rw [map_append, mem_append, ← or_assoc, ← hb]
  unfold remember at hs
  split at hs
  · next prev hf =>
    have hk : concept.id ∈ before.map (·.id) := by
      have hid : prev.id = concept.id := by simpa using find?_some hf
      exact hid ▸ mem_map_of_mem (mem_of_find?_eq_some hf)
    split at hs
    · cases hs
    · cases hs
      constructor
      · exact .inl
      · rintro (hm | hm)
        · exact hm
        · rwa [mem_singleton.mp hm] at *
  · split at hs
    · cases hs
    · cases hs
      rw [map_append, mem_append]

/-- What a successful traversal is made of. -/
theorem traverse_ok (hse : Serves vocabulary broader) {retrieved : DiscoveryCandidates Id Rev}
    {resolved : ResolvedContexts Id Rev} (h : traverse retrieved limits scope vocabulary st stop = .ok resolved) :
    (∀ concept seed, seed ∈ resolved.group concept ↔ scope.collects concept = true ∧
      seed ∈ (retrieved.nearest ++ retrieved.distinctive).map (·.id) ∧
        ∃ n ≤ limits.hops, Walk (climbs broader scope) n seed concept) ∧
      (∀ seed, seed ∈ resolved.unresolved ↔ seed ∈ (retrieved.nearest ++ retrieved.distinctive).map (·.id) ∧
        ∀ concept, seed ∉ resolved.group concept) ∧
      resolved.visitedEdges ≤ limits.edges ∧ resolved.concepts.length ≤ limits.concepts := by
  obtain ⟨concepts, hc, h⟩ := bind_ok h
  obtain ⟨walk, hwa, h⟩ := bind_ok h
  cases h
  have hs : ∀ id, id ∈ seedsOf concepts ↔ id ∈ (retrieved.nearest ++ retrieved.distinctive).map (·.id) := by
    intro id
    rw [seedsOf, mem_insertionSort, mem_foldlM_remember hc]
    simp
  have hle := foldlM_remember_length hc (Nat.zero_le _)
  obtain ⟨done, he, hem⟩ := (Explored.initial hle (seedsOf concepts) st).loop hse hwa
  have hl := he.layered
  rw [hem] at hl
  have hg : ∀ concept seed, (concept, seed) ∈ walk.groups ↔ scope.collects concept = true ∧
      seed ∈ (retrieved.nearest ++ retrieved.distinctive).map (·.id) ∧
        ∃ n ≤ limits.hops, Walk (climbs broader scope) n seed concept := by
    intro concept seed
    rw [he.groups, hl.exact]
    refine and_congr_right fun _ => ?_
    constructor
    · rintro ⟨n, hn, ⟨origin, o⟩, ⟨hm, hsa⟩, hw⟩
      dsimp only at hm hsa
      subst hsa
      obtain ⟨rfl, hw⟩ := walk_pairStep.mp hw
      exact ⟨(hs _).mp hm, n, hn, hw⟩
    · rintro ⟨hm, n, hn, hw⟩
      exact ⟨n, hn, (seed, seed), ⟨(hs _).mpr hm, rfl⟩, walk_pairStep.mpr ⟨rfl, hw⟩⟩
  have hm : ∀ concept seed, seed ∈ (walk.groups.filter fun e => e.1 = concept).map (·.2) ↔ (concept, seed) ∈ walk.groups := by
    simp [mem_map, mem_filter]
  refine ⟨?_, ?_, walk.visited_le, he.concepts⟩
  · intro concept seed
    rw [ResolvedContexts.group, hm, hg]
  · intro seed
    rw [mem_filter, hs]
    simp only [ResolvedContexts.group, hm]
    simp

/-- A traversal that succeeds over all contexts groups with each concept the seeds it is reached from within the permitted steps,
and one that stops at a frontier the seeds that lead to the frontier concept without passing another one. Exactly the seeds of no
group are unresolved, and neither the edges nor the concepts exceed their limits. -/
theorem traverse_exact (hserves : Serves vocabulary broader) {retrieved : DiscoveryCandidates Id Rev} {state : σ}
    {resolved : ResolvedContexts Id Rev} (h : traverse retrieved limits scope vocabulary state cancelled = .ok resolved) :
    (scope = .allContexts → ∀ concept seed, seed ∈ resolved.group concept ↔
      seed ∈ (retrieved.nearest ++ retrieved.distinctive).map (·.id) ∧ ∃ n ≤ limits.hops, Walk broader n seed concept) ∧
    (∀ frontier, scope = .frontier frontier → ∀ concept seed, seed ∈ resolved.group concept ↔ concept ∈ frontier ∧
      seed ∈ (retrieved.nearest ++ retrieved.distinctive).map (·.id) ∧
        ∃ n ≤ limits.hops, Walk (fun earlier later => earlier ∉ frontier ∧ broader earlier later) n seed concept) ∧
    (∀ seed, seed ∈ resolved.unresolved ↔ seed ∈ (retrieved.nearest ++ retrieved.distinctive).map (·.id) ∧
      ∀ concept, seed ∉ resolved.group concept) ∧
    resolved.visitedEdges ≤ limits.edges ∧ resolved.concepts.length ≤ limits.concepts := by
  obtain ⟨hg, hr⟩ := traverse_ok hserves h
  refine ⟨?_, ?_, hr⟩
  · rintro rfl concept seed
    rw [hg]
    simp only [collects, true_and]
    have hc : climbs broader .allContexts = broader := by
      funext earlier later
      simp [climbs, expands]
    rw [hc]
  · rintro frontier rfl concept seed
    rw [hg]
    have hc : climbs broader (.frontier frontier) = fun earlier later => earlier ∉ frontier ∧ broader earlier later := by
      funext earlier later
      simp [climbs, expands]
    rw [hc]
    simp only [collects, contains_iff_mem]

/-- A vocabulary that lists the broader concepts of each concept, in ascending order. -/
def listedVocabulary (parents : Id → List Id) (revision : Rev) : ClassificationVocabulary Unit Id Rev where
  revision := fun _ => revision
  readConcepts := fun _ neighborhood after limit =>
    match neighborhood with
    | .broader id =>
      let later := (parents id).filter fun parent => after.all fun before => before < parent
      .ok (⟨(later.take limit).map fun parent => ⟨parent, revision⟩, limit < later.length⟩, ())
    | _ => .ok (⟨[], false⟩, ())

omit [DecidableEq Rev] in
theorem listedVocabulary_serves {parents : Id → List Id} (hs : ∀ id, (parents id).Pairwise (· < ·)) (rev : Rev) :
    Serves (listedVocabulary parents rev) fun id par => par ∈ parents id := by
  constructor
  · intro st foll id after limit page hr concept hc
    cases hr
    obtain ⟨par, hp, rfl⟩ := mem_map.mp hc
    exact (mem_filter.mp (mem_of_mem_take hp)).1
  · intro st foll id after limit page hr par hp haf
    cases hr
    dsimp only
    generalize hl : ((parents id).filter fun par => after.all fun before => decide (before < par)) = later
    have hm : par ∈ later := by
      rw [← hl, mem_filter]
      exact ⟨hp, by cases after <;> simp_all⟩
    have ha : (later.take limit ++ later.drop limit).Pairwise (· < ·) := by
      rw [take_append_drop, ← hl]
      exact (hs id).filter _
    rw [← take_append_drop limit later, mem_append] at hm
    rcases hm with hm | hm
    · exact .inl ⟨⟨par, rev⟩, mem_map_of_mem hm, rfl⟩
    · refine .inr ⟨?_, ?_⟩
      · have hpo := length_pos_of_mem hm
        rw [length_drop] at hpo
        exact decide_eq_true (by omega)
      · intro concept hc
        obtain ⟨o, ho, rfl⟩ := mem_map.mp hc
        exact (pairwise_append.mp ha).2.2 o ho par hm

end

/-- Two ways lead from the concept 1 to the concept 3, and from there one back to 1; the concept 5 has no broader one. -/
def roundaboutParents : Nat → List Nat
  | 1 => [2, 4]
  | 2 => [3]
  | 3 => [1]
  | 4 => [3]
  | _ => []

theorem traverse_exact_roundabout :
    ∃ resolved, traverse ⟨0, [⟨1, 0⟩], [⟨5, 0⟩]⟩ ⟨3, 8, 8⟩ (.frontier [3]) (listedVocabulary roundaboutParents 0) () false =
        .ok resolved ∧
      resolved.group 3 = [1] ∧ resolved.unresolved = [5] ∧
      (1 ∈ resolved.group 3 ↔ 3 ∈ [3] ∧ 1 ∈ [1, 5] ∧
        ∃ n ≤ 3, Walk (fun earlier later => earlier ∉ [3] ∧ later ∈ roundaboutParents earlier) n 1 3) := by
  have hs : ∀ id, (roundaboutParents id).Pairwise (· < ·) := by
    intro id
    unfold roundaboutParents
    split <;> decide
  have hr : traverse ⟨0, [⟨1, 0⟩], [⟨5, 0⟩]⟩ ⟨3, 8, 8⟩ (.frontier [3]) (listedVocabulary roundaboutParents 0) () false =
      .ok ⟨[⟨1, 0⟩, ⟨5, 0⟩, ⟨2, 0⟩, ⟨4, 0⟩, ⟨3, 0⟩], [(3, 1)], [(4, [3]), (2, [3]), (5, []), (1, [2, 4])], [5], 4⟩ := by
    decide +kernel
  exact ⟨_, hr, by decide, by decide, (traverse_exact (listedVocabulary_serves hs 0) hr).2.1 [3] rfl 3 1⟩

end Ame
