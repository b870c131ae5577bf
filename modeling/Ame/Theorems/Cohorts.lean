import Ame.Discovery.Cohorts
import Ame.Lib.Iter
import Ame.Lib.Linkage
import Ame.Lib.Result
import Mathlib

/-!
# Discovery cohorts are maximal groups of similar samples

The grouping keeps, at every round, the complete link of every two of its groups. It stops when no two groups may be joined, so
what it returns is a partition into groups of similar samples of which no two together are such a group. Forming the cohorts then
only sorts these groups into cohorts and deferred groups.
-/

namespace Ame

open List Result Linkage DiscoveryCohort
open scoped List

/-! ## Measuring -/

section Measure

variable {Feature Sim : Type} [LinearOrder Sim] {count : Nat} {cosine : Feature → Feature → Option Sim}
  {samples : Fin count → DiscoverySample Feature}
  {links : Fin count → Fin count → WithBot Sim} {left : Fin count}

/-- The similarity of two samples, with a least value where there is none. -/
def similarity (cosine : Feature → Feature → Option Sim) (samples : Fin count → DiscoverySample Feature)
    (i j : Fin count) : WithBot Sim :=
  cosine (samples i).feature (samples j).feature

omit [LinearOrder Sim] in
theorem similarity_symm (hs : ∀ a b, cosine a b = cosine b a) (i j : Fin count) :
    similarity cosine samples i j = similarity cosine samples j i := hs _ _

omit [LinearOrder Sim] in
theorem setLink_both {right : Fin count} {value : WithBot Sim}
    (i j : Fin count) : setLink (setLink links left right value) right left value i j =
      if i = left ∧ j = right ∨ i = right ∧ j = left then value else links i j := by
  unfold setLink
  by_cases hrl : i = right ∧ j = left
  · rw [if_pos hrl, if_pos (.inr hrl)]
  · rw [if_neg hrl]
    simp only [hrl, or_false]

omit [LinearOrder Sim] in
/-- A row writes the similarities of its index with the later ones. -/
theorem measureRow_ok (hsy : ∀ a b, cosine a b = cosine b a) {links' : Fin count → Fin count → WithBot Sim}
    (h : measureRow cosine samples links left = .ok links') :
    (∀ right, left < right → similarity cosine samples left right ≠ ⊥) ∧
    ∀ i j, links' i j =
      if i = left ∧ left < j ∨ j = left ∧ left < i then similarity cosine samples i j else links i j := by
  have hf := foldlM_history (P := fun done (now : Fin count → Fin count → WithBot Sim) =>
    (∀ right ∈ done, similarity cosine samples left right ≠ ⊥) ∧
    ∀ i j, now i j = if i = left ∧ j ∈ done ∨ j = left ∧ i ∈ done then similarity cosine samples i j else links i j)
    ?_ h ⟨by simp, by simp⟩
  · simpa using hf
  · rintro done right before after ⟨hd, hb⟩ hs
    cases hc : cosine (samples left).feature (samples right).feature with
    | none =>
      rw [hc] at hs
      cases hs
    | some value =>
      rw [hc] at hs
      cases hs
      have hv : (value : WithBot Sim) = similarity cosine samples left right := hc.symm
      constructor
      · intro o ho
        rcases mem_append.mp ho with ho | ho
        · exact hd o ho
        · rw [mem_singleton.mp ho, ← hv]
          exact WithBot.coe_ne_bot
      · intro i j
        rw [setLink_both, hb]
        by_cases hn : i = left ∧ j = right ∨ i = right ∧ j = left
        · rw [if_pos hn, if_pos (by rcases hn with ⟨rfl, rfl⟩ | ⟨rfl, rfl⟩ <;> simp), hv]
          rcases hn with ⟨rfl, rfl⟩ | ⟨rfl, rfl⟩
          · rfl
          · exact similarity_symm hsy _ _
        · rw [if_neg hn]
          rw [not_or] at hn
          have hi : (i = left ∧ j ∈ done ++ [right] ∨ j = left ∧ i ∈ done ++ [right]) ↔
              (i = left ∧ j ∈ done ∨ j = left ∧ i ∈ done) := by
            simp only [mem_append, mem_singleton]
            tauto
          simp only [hi]

omit [LinearOrder Sim] in
/-- The links measured are the similarities, and every two samples have one. -/
theorem measureLinks_ok (hs : ∀ a b, cosine a b = cosine b a)
    {stop : Bool} (h : measureLinks cosine samples stop = .ok links) {i j : Fin count} (hne : i ≠ j) :
    links i j = similarity cosine samples i j ∧ similarity cosine samples i j ≠ ⊥ := by
  have hf := foldlM_history (P := fun done (now : Fin count → Fin count → WithBot Sim) =>
    ∀ i j, i < j → i ∈ done → now i j = similarity cosine samples i j ∧ now j i = similarity cosine samples i j ∧
      similarity cosine samples i j ≠ ⊥) ?_ h (by simp)
  · rcases lt_or_gt_of_ne hne with hlt | hlt
    · obtain ⟨hij, -, hbo⟩ := hf i j hlt (mem_finRange i)
      exact ⟨hij, hbo⟩
    · obtain ⟨-, hij, hbo⟩ := hf j i hlt (mem_finRange j)
      rw [similarity_symm hs i j]
      exact ⟨hij, hbo⟩
  · intro done left before after hb hst i j hlt hi
    obtain ⟨-, hr⟩ := bind_unit_ok.mp hst
    obtain ⟨hbo, ha⟩ := measureRow_ok hs hr
    rw [ha i j, ha j i]
    by_cases hl : i = left
    · subst hl
      rw [if_pos (.inl ⟨rfl, hlt⟩), if_pos (.inr ⟨rfl, hlt⟩), similarity_symm hs j i]
      exact ⟨rfl, rfl, hbo j hlt⟩
    · have hd : i ∈ done := by
        rcases mem_append.mp hi with hi | hi
        · exact hi
        · exact absurd (mem_singleton.mp hi) hl
      have ho : ¬(j = left ∧ left < i) := fun hj => lt_asymm hlt (hj.1 ▸ hj.2)
      rw [if_neg (by rintro (h | h); exacts [hl h.1, ho h]), if_neg (by rintro (h | h); exacts [ho h, hl h.1])]
      exact hb i j hlt hd

end Measure

/-! ## Joining -/

section Join

variable {Sim : Type} [LinearOrder Sim] {count : Nat} {sim : Fin count → Fin count → WithBot Sim}
  {left right : Fin count} {bound : Sim} {stop : Bool}

/-- A group other than the two that are joined. -/
def IsOther (clusters : Fin count → List (Fin count)) (left right other : Fin count) : Prop :=
  other ≠ left ∧ other ≠ right ∧ clusters other ≠ []

instance (clusters : Fin count → List (Fin count)) (left right other : Fin count) :
    Decidable (IsOther clusters left right other) :=
  inferInstanceAs (Decidable (_ ∧ _ ∧ _))

/-- The links after a join: those of the joined group are the smaller of two, the others are as they were. -/
theorem foldl_joinLink {cls : Fin count → List (Fin count)} (hne : left ≠ right)
    {links : Fin count → Fin count → WithBot Sim} {others : List (Fin count)} (hn : others.Nodup) (i j : Fin count) :
    others.foldl (joinLink cls left right) links i j =
      if i = left ∧ j ∈ others ∧ IsOther cls left right j then min (links left j) (links right j)
      else if j = left ∧ i ∈ others ∧ IsOther cls left right i then min (links left i) (links right i)
      else links i j := by
  induction others using List.reverseRecOn generalizing i j with
  | nil => simp
  | append_singleton others o ih =>
    obtain ⟨hot, -, hd⟩ := nodup_append.mp hn
    have hf : o ∉ others := fun hm => hd o hm o (mem_singleton_self o) rfl
    have ih := ih hot
    rw [foldl_append, foldl_cons, foldl_nil, joinLink]
    by_cases ho : IsOther cls left right o
    · obtain ⟨hl, hr, hc⟩ := ho
      -- the links read in this round are those before the loop
      have hrl : others.foldl (joinLink cls left right) links left o = links left o := by
        rw [ih, if_neg (fun h => hf h.2.1), if_neg (fun h => hl h.1)]
      have hrr : others.foldl (joinLink cls left right) links right o = links right o := by
        rw [ih, if_neg (fun h => hne h.1.symm), if_neg (fun h => hl h.1)]
      rw [if_neg (by simp [hl, hr, hc])]
      rw [setLink_both, hrl, hrr, ih]
      by_cases hro : i = left ∧ j = o
      · obtain ⟨rfl, rfl⟩ := hro
        rw [if_pos (.inl ⟨rfl, rfl⟩), if_pos ⟨rfl, by simp, hl, hr, hc⟩]
      · by_cases hco : i = o ∧ j = left
        · obtain ⟨rfl, rfl⟩ := hco
          rw [if_pos (.inr ⟨rfl, rfl⟩), if_neg (fun h => hl h.1), if_pos ⟨rfl, by simp, hl, hr, hc⟩]
        · have hj : (i = left ∧ j ∈ others ++ [o] ∧ IsOther cls left right j) ↔
              (i = left ∧ j ∈ others ∧ IsOther cls left right j) := by
            simp only [mem_append, mem_singleton]
            tauto
          have hi : (j = left ∧ i ∈ others ++ [o] ∧ IsOther cls left right i) ↔
              (j = left ∧ i ∈ others ∧ IsOther cls left right i) := by
            simp only [mem_append, mem_singleton]
            tauto
          rw [if_neg (by tauto)]
          simp only [hj, hi]
    · have hs : o = left ∨ o = right ∨ cls o = [] := by
        simp only [IsOther, not_and_or, not_not] at ho
        exact ho
      have hm : ∀ k, k ∈ others ++ [o] ∧ IsOther cls left right k ↔ k ∈ others ∧ IsOther cls left right k := by
        intro k
        constructor
        · rintro ⟨hk, hv⟩
          rcases mem_append.mp hk with hk | hk
          · exact ⟨hk, hv⟩
          · exact absurd (mem_singleton.mp hk ▸ hv) ho
        · rintro ⟨hk, hv⟩
          exact ⟨mem_append_left _ hk, hv⟩
      rw [if_pos hs, ih]
      simp only [hm]

theorem Clustering.join_links {st : Clustering Sim count} (hne : left ≠ right)
    (i j : Fin count) : (st.join left right).links i j =
      if i = left ∧ IsOther st.clusters left right j then min (st.links left j) (st.links right j)
      else if j = left ∧ IsOther st.clusters left right i then min (st.links left i) (st.links right i)
      else st.links i j := by
  change (List.finRange count).foldl (joinLink st.clusters left right) st.links i j = _
  rw [foldl_joinLink hne (nodup_finRange count)]
  simp only [mem_finRange, true_and]

/-- What holds between the rounds of the grouping: the groups are a partition into groups of similar samples, and the links are
the complete links of the groups. -/
structure Clustering.Sound (sim : Fin count → Fin count → WithBot Sim) (bound : WithBot Sim) (state : Clustering Sim count) :
    Prop where
  covers : ∀ index, ∃ i, index ∈ state.clusters i
  disjoint : ∀ i j index, index ∈ state.clusters i → index ∈ state.clusters j → i = j
  nodup : ∀ i, (state.clusters i).Nodup
  close : ∀ i, Close sim bound (state.clusters i)
  links : ∀ i j, i ≠ j → state.clusters i ≠ [] → state.clusters j ≠ [] →
    IsLink sim (state.clusters i) (state.clusters j) (state.links i j)

/-- The members after a join. -/
theorem Clustering.mem_join {st : Clustering Sim count} (hne : left ≠ right)
    (i idx : Fin count) : idx ∈ (st.join left right).clusters i ↔
      i = left ∧ (idx ∈ st.clusters left ∨ idx ∈ st.clusters right) ∨
      i ≠ left ∧ i ≠ right ∧ idx ∈ st.clusters i := by
  by_cases hl : i = left
  · subst hl
    simp
  · by_cases hr : i = right
    · subst hr
      simp [join_clusters_right st hne, hl]
    · simp [join_clusters_other st hl hr, hl, hr]

/-- One round keeps the invariant. -/
theorem Clustering.Sound.join {st : Clustering Sim count} (hsy : ∀ i j, sim i j = sim j i) (h : st.Sound sim bound)
    (hne : left ≠ right) (hjo : Joinable bound st (left, right)) : (st.join left right).Sound sim bound := by
  obtain ⟨hle, hri, hs⟩ := hjo
  have hli := h.links left right hne hle hri
  have hml : ∀ idx, idx ∈ (st.join left right).clusters left ↔ idx ∈ st.clusters left ++ st.clusters right := by
    intro idx
    rw [join_clusters_left, (perm_insertionSort (· ≤ ·) _).mem_iff]
  -- the joined group with a third one
  have ht : ∀ j, IsOther st.clusters left right j → IsLink sim ((st.join left right).clusters left)
      (st.clusters j) (min (st.links left j) (st.links right j)) := by
    intro j hj
    exact ((h.links left j hj.1.symm hle hj.2.2).append (h.links right j hj.2.1.symm hri hj.2.2)).congr_left hml
  constructor
  · intro idx
    obtain ⟨i, hi⟩ := h.covers idx
    by_cases hl : i = left
    · exact ⟨left, (mem_join hne _ _).mpr (.inl ⟨rfl, .inl (hl ▸ hi)⟩)⟩
    · by_cases hr : i = right
      · exact ⟨left, (mem_join hne _ _).mpr (.inl ⟨rfl, .inr (hr ▸ hi)⟩)⟩
      · exact ⟨i, (mem_join hne _ _).mpr (.inr ⟨hl, hr, hi⟩)⟩
  · intro i j idx hi hj
    rw [mem_join hne] at hi hj
    rcases hi with ⟨rfl, hi⟩ | ⟨hil, hir, hi⟩
    · rcases hj with ⟨rfl, -⟩ | ⟨hjl, hjr, hj⟩
      · rfl
      · rcases hi with hi | hi
        · exact h.disjoint _ _ idx hi hj
        · exact absurd (h.disjoint _ _ idx hi hj).symm hjr
    · rcases hj with ⟨rfl, hj⟩ | ⟨-, -, hj⟩
      · rcases hj with hj | hj
        · exact h.disjoint _ _ idx hi hj
        · exact absurd (h.disjoint _ _ idx hi hj) hir
      · exact h.disjoint _ _ idx hi hj
  · intro i
    by_cases hl : i = left
    · rw [hl, join_clusters_left, (perm_insertionSort (· ≤ ·) _).nodup_iff, nodup_append]
      refine ⟨h.nodup left, h.nodup right, ?_⟩
      rintro a ha b hb rfl
      exact hne (h.disjoint _ _ a ha hb)
    · by_cases hr : i = right
      · rw [hr, join_clusters_right st hne]
        exact nodup_nil
      · rw [join_clusters_other st hl hr]
        exact h.nodup i
  · intro i
    by_cases hl : i = left
    · rw [hl]
      intro a ha b hb
      exact (h.close left).append hsy (h.close right) hli hs a ((hml a).mp ha) b ((hml b).mp hb)
    · by_cases hr : i = right
      · rw [hr, join_clusters_right st hne]
        intro a ha
        cases ha
      · rw [join_clusters_other st hl hr]
        exact h.close i
  · intro i j hij hi hj
    have hir : i ≠ right := by
      rintro rfl
      exact hi (join_clusters_right st hne)
    have hjr : j ≠ right := by
      rintro rfl
      exact hj (join_clusters_right st hne)
    rw [join_links hne]
    by_cases hl : i = left
    · subst hl
      rw [join_clusters_other st hij.symm hjr] at hj ⊢
      rw [if_pos ⟨rfl, hij.symm, hjr, hj⟩]
      exact ht j ⟨hij.symm, hjr, hj⟩
    · rw [if_neg (fun h => hl h.1), join_clusters_other st hl hir] at *
      by_cases hjl : j = left
      · subst hjl
        rw [if_pos ⟨rfl, hl, hir, hi⟩]
        exact (ht i ⟨hl, hir, hi⟩).symm hsy
      · rw [if_neg (fun h => hjl h.1), join_clusters_other st hjl hjr] at *
        exact h.links i j hij hi hj

/-- Every run of the grouping keeps the invariant and ends when no two groups may be joined. -/
theorem joinClosest_ok {st final : Clustering Sim count}
    (hsy : ∀ i j, sim i j = sim j i) (h : st.Sound sim bound) (hr : joinClosest bound stop st = .ok final) :
    final.Sound sim bound ∧ ∀ i j, i < j → ¬Joinable bound final (i, j) := by
  induction st using joinClosest.induct bound with
  | case1 st ih =>
    rw [joinClosest] at hr
    obtain ⟨-, hr⟩ := bind_unit_ok.mp hr
    split at hr
    · next hn =>
      cases hr
      exact ⟨h, fun i j hlt => closestPair_none hn hlt⟩
    · next left right hs =>
      obtain ⟨hlt, hj⟩ := closestPair_some hs
      exact ih left right hs (h.join hsy (ne_of_lt hlt) hj) hr

/-- A partition into groups of similar samples of which no two together are such a group. -/
structure IsGrouping (sim : Fin count → Fin count → WithBot Sim) (bound : WithBot Sim) (groups : List (List (Fin count))) :
    Prop where
  nonempty : ∀ group ∈ groups, group ≠ []
  partition : groups.flatten.Perm (List.finRange count)
  close : ∀ group ∈ groups, Close sim bound group
  apart : groups.Pairwise fun first second => ∃ i ∈ first, ∃ j ∈ second, i ≠ j ∧ sim i j < bound

/-- The groups in another order. -/
theorem IsGrouping.perm {bound : WithBot Sim} {groups groups' : List (List (Fin count))} (hs : ∀ i j, sim i j = sim j i)
    (h : IsGrouping sim bound groups) (hp : groups'.Perm groups) : IsGrouping sim bound groups' := by
  refine ⟨fun group hg => h.nonempty group (hp.subset hg), hp.flatten.trans h.partition,
    fun group hg => h.close group (hp.subset hg), (hp.pairwise_iff ?_).mpr h.apart⟩
  rintro first second ⟨i, hi, j, hj, hne, hlt⟩
  exact ⟨j, hj, i, hi, hne.symm, hs i j ▸ hlt⟩

/-- The groups that are left when no two may be joined. -/
theorem Clustering.Sound.isGrouping {st : Clustering Sim count} (h : st.Sound sim bound)
    (hd : ∀ i j, i < j → ¬Joinable bound st (i, j)) :
    IsGrouping sim bound (((List.finRange count).map st.clusters).filter (· ≠ [])) := by
  constructor
  · simp
  · rw [perm_ext_iff_of_nodup _ (nodup_finRange count)]
    · intro idx
      obtain ⟨i, hi⟩ := h.covers idx
      simp only [mem_flatten, mem_filter, mem_map, mem_finRange, true_and, iff_true]
      exact ⟨st.clusters i, ⟨⟨i, rfl⟩, by simpa using ne_nil_of_mem hi⟩, hi⟩
    · rw [nodup_flatten]
      constructor
      · intro group hg
        obtain ⟨i, -, rfl⟩ := mem_map.mp (mem_filter.mp hg).1
        exact h.nodup i
      · apply List.Pairwise.filter
        rw [pairwise_map]
        apply (nodup_finRange count).imp
        intro i j hne idx hi hj
        exact hne (h.disjoint i j idx hi hj)
  · intro group hg
    obtain ⟨i, -, rfl⟩ := mem_map.mp (mem_filter.mp hg).1
    exact h.close i
  · rw [pairwise_filter, pairwise_map]
    apply (pairwise_lt_finRange count).imp
    intro i j hlt hi hj
    have hi : st.clusters i ≠ [] := by simpa using hi
    have hj : st.clusters j ≠ [] := by simpa using hj
    -- no join is possible, so the pair that attains the link is below the bound
    have hl := h.links i j (ne_of_lt hlt) hi hj
    obtain ⟨a, ha, b, hb, hab⟩ := hl.attained
    refine ⟨a, ha, b, hb, ?_, ?_⟩
    · rintro rfl
      exact ne_of_lt hlt (h.disjoint i j a ha hb)
    rw [hab]
    exact lt_of_not_ge fun hle => hd i j hlt ⟨hi, hj, hle⟩

/-- The grouping of the samples. -/
theorem linkageGroups_ok {Feature : Type} {cosine : Feature → Feature → Option Sim}
    {samples : Fin count → DiscoverySample Feature} (hsy : ∀ a b, cosine a b = cosine b a)
    {groups : List (List (Fin count))} (h : linkageGroups cosine samples bound stop = .ok groups) :
    IsGrouping (similarity cosine samples) bound groups ∧ ∀ i j, i ≠ j → similarity cosine samples i j ≠ ⊥ := by
  unfold linkageGroups at h
  obtain ⟨links, hl, h⟩ := bind_ok h
  obtain ⟨final, hf, h⟩ := bind_ok h
  cases h
  have hm := fun i j (hne : i ≠ j) => measureLinks_ok hsy hl hne
  have hst : Clustering.Sound (similarity cosine samples) bound
      ({ clusters := fun idx => [idx], links } : Clustering Sim count) := by
    constructor
    · intro idx
      exact ⟨idx, mem_singleton_self idx⟩
    · intro i j idx hi hj
      rw [← mem_singleton.mp hi, ← mem_singleton.mp hj]
    · intro i
      exact nodup_singleton i
    · intro i a ha b hb hne
      exact absurd ((mem_singleton.mp ha).trans (mem_singleton.mp hb).symm) hne
    · intro i j hne _ _
      change IsLink _ [i] [j] (links i j)
      rw [(hm i j hne).1]
      exact isLink_singleton i j
  obtain ⟨hs, hd⟩ := joinClosest_ok (similarity_symm hsy) hst hf
  exact ⟨hs.isGrouping hd, fun i j hne => (hm i j hne).2⟩

end Join

/-! ## Sorting the groups -/

section Place

variable {Feature Category Sim : Type} [DecidableEq Category] {count : Nat}
  {matcher : CategoryMatcher Feature Category} {policy : DiscoveryCohortPolicy Sim} {stop : Bool}
  {ordered : Fin count → DiscoverySample Feature} {current : Fin count → Option Category}
  {cls : List (List (Fin count))} {group : List ClassificationContent} {cluster : List (Fin count)}

/-- The contents of a batch, group by group. -/
def DiscoveryCohortBatch.groups (batch : DiscoveryCohortBatch Feature) : List (List ClassificationContent) :=
  (batch.cohorts.map fun cohort => cohort.memberSamples.map (·.content)) ++ batch.deferred.map (·.members)

theorem DiscoveryCohort.new_ok {compatible : Feature → Bool} {mems comparison : List (DiscoverySample Feature)}
    {cohort : DiscoveryCohort Feature} (h : new compatible mems comparison = .ok cohort) :
    cohort.memberSamples.Perm mems := by
  unfold new at h
  split at h
  · cases h
  · obtain ⟨seen, -, h⟩ := bind_ok h
    cases h
    exact perm_insertionSort _ _

/-- The contents of groups of a batch are those of groups of samples. -/
def Contents (ordered : Fin count → DiscoverySample Feature) (groups : List (List ClassificationContent))
    (clusters : List (List (Fin count))) : Prop :=
  List.Forall₂ (fun group cluster => group.Perm (cluster.map fun index => (ordered index).content)) groups clusters

section

variable {groups : List (List ClassificationContent)} (h : Contents ordered groups cls)

include h

theorem Contents.snoc (hg : group.Perm (cluster.map fun idx => (ordered idx).content)) :
    Contents ordered (groups ++ [group]) (cls ++ [cluster]) :=
  rel_append h (.cons hg .nil)

/-- All the contents. -/
theorem Contents.flatten_perm : groups.flatten.Perm (cls.flatten.map fun idx => (ordered idx).content) := by
  induction h with
  | nil => exact .refl _
  | cons hg _ ih =>
    rw [flatten_cons, flatten_cons, map_append]
    exact hg.append ih

/-- Each group has its group of samples. -/
theorem Contents.exists_cluster
    (hg : group ∈ groups) : ∃ cluster ∈ cls, group.Perm (cluster.map fun idx => (ordered idx).content) := by
  induction h with
  | nil => cases hg
  | @cons first cluster rest cls hf _ ih =>
    rcases mem_cons.mp hg with rfl | hg
    · exact ⟨cluster, mem_cons_self, hf⟩
    · obtain ⟨found, hfo, hp⟩ := ih hg
      exact ⟨found, mem_cons_of_mem _ hfo, hp⟩

end

/-- A relation between every two groups of samples is one between every two groups of contents. -/
theorem Contents.pairwise {R : List (Fin count) → List (Fin count) → Prop}
    {S : List ClassificationContent → List ClassificationContent → Prop} {groups : List (List ClassificationContent)}
    (h : Contents ordered groups cls)
    (hRS : ∀ group cluster group' cluster', group.Perm (cluster.map fun idx => (ordered idx).content) →
      group'.Perm (cluster'.map fun idx => (ordered idx).content) → R cluster cluster' → S group group')
    (hR : cls.Pairwise R) : groups.Pairwise S := by
  induction h with
  | nil => exact .nil
  | @cons first cluster rest cls hf hr ih =>
    obtain ⟨hcl, hc⟩ := pairwise_cons.mp hR
    refine pairwise_cons.mpr ⟨?_, ih hc⟩
    intro group hg
    obtain ⟨found, hfo, hp⟩ := Contents.exists_cluster hr hg
    exact hRS _ _ _ _ hf hp (hcl found hfo)

/-- What is said of the batch after some groups: it holds these groups, and its cohorts keep the policy. -/
structure Placed (policy : DiscoveryCohortPolicy Sim) (ordered : Fin count → DiscoverySample Feature)
    (clusters : List (List (Fin count))) (batch : DiscoveryCohortBatch Feature) : Prop where
  groups : ∃ formed deferred : List (List (Fin count)), (formed ++ deferred).Perm clusters ∧
    Contents ordered (batch.cohorts.map fun cohort => cohort.memberSamples.map (·.content)) formed ∧
    Contents ordered (batch.deferred.map (·.members)) deferred
  limit : batch.cohorts.length ≤ policy.maximumCohorts
  sizes : ∀ cohort ∈ batch.cohorts, policy.minimumMembers ≤ cohort.memberSamples.length

theorem cohortDeferral_none {formed clusterSize comparisonSize : Nat}
    (h : cohortDeferral policy formed clusterSize comparisonSize = none) :
    policy.minimumMembers ≤ clusterSize ∧ formed ≠ policy.maximumCohorts := by
  unfold cohortDeferral at h
  split at h
  · cases h
  · next hs =>
    split at h
    · cases h
    · split at h
      · cases h
      · next hl => exact ⟨Nat.le_of_not_lt hs, hl⟩

/-- One group goes to the cohorts or to the deferred groups. -/
theorem placeCluster_placed {batch batch' : DiscoveryCohortBatch Feature} (h : Placed policy ordered cls batch)
    (hs : placeCluster matcher policy stop ordered current batch cluster = .ok batch') :
    Placed policy ordered (cls ++ [cluster]) batch' := by
  obtain ⟨formed, deferred, hp, hf, hd⟩ := h.groups
  obtain ⟨-, hs⟩ := bind_unit_ok.mp hs
  dsimp only at hs
  split at hs
  · cases hs
    refine ⟨⟨formed, deferred ++ [cluster], ?_, hf, ?_⟩, h.limit, h.sizes⟩
    · rw [← append_assoc]
      exact hp.append_right _
    · rw [map_append]
      exact hd.snoc (.refl _)
  · next hde =>
    obtain ⟨cohort, hn, hs⟩ := bind_ok hs
    cases hs
    have hm := new_ok (mapError_ok.mp hn)
    obtain ⟨hsi, hl⟩ := cohortDeferral_none hde
    have hco := h.limit
    refine ⟨⟨formed ++ [cluster], deferred, ?_, ?_, hd⟩, ?_, ?_⟩
    · calc formed ++ [cluster] ++ deferred
        _ ~ formed ++ (deferred ++ [cluster]) := by
          rw [append_assoc]
          exact perm_append_comm.append_left formed
        _ = formed ++ deferred ++ [cluster] := (append_assoc ..).symm
        _ ~ cls ++ [cluster] := hp.append_right _
    · rw [map_append]
      apply hf.snoc
      have hc := hm.map (·.content)
      rwa [map_map] at hc
    · simp only [length_append, length_singleton]
      omega
    · intro o ho
      rcases mem_append.mp ho with ho | ho
      · exact h.sizes o ho
      · rw [mem_singleton.mp ho, hm.length_eq, length_map]
        exact hsi

/-- All groups are placed. -/
theorem placeClusters_placed {batch : DiscoveryCohortBatch Feature}
    (h : cls.foldlM (placeCluster matcher policy stop ordered current) { cohorts := [], deferred := [] } =
      .ok batch) : Placed policy ordered cls batch := by
  refine foldlM_history ?_ h ?_
  · intro done cluster before after hb hs
    exact placeCluster_placed hb hs
  · exact ⟨⟨[], [], .refl _, .nil, .nil⟩, Nat.zero_le _, by simp⟩

end Place

/-! ## The order of the samples -/

section Order

variable {Feature : Type}

/-- A content is known by its key. -/
theorem contentKey_inj {a b : ClassificationContent} (h : contentKey a = contentKey b) : a = b := by
  cases a
  cases b
  simpa [contentKey] using h

theorem orderSamples_perm (samples : List (DiscoverySample Feature)) : (orderSamples samples).Perm samples :=
  perm_insertionSort _ _

theorem orderSamples_sorted (samples : List (DiscoverySample Feature)) :
    (orderSamples samples).Pairwise fun a b => contentKey a.content ≤ contentKey b.content :=
  pairwise_insertionSort _ _

/-- In the order of their content, two samples with the same content are neighbours. -/
theorem adjacentDuplicate_eq_false {ordered : List (DiscoverySample Feature)}
    (hs : ordered.Pairwise fun a b => contentKey a.content ≤ contentKey b.content) :
    adjacentDuplicate ordered = false ↔ (ordered.map (·.content)).Nodup := by
  induction ordered with
  | nil => simp [adjacentDuplicate]
  | cons first rest ih =>
    obtain ⟨hf, hr⟩ := pairwise_cons.mp hs
    cases rest with
    | nil => simp [adjacentDuplicate]
    | cons second rest =>
      rw [adjacentDuplicate, Bool.or_eq_false_iff, ih hr, map_cons (a := first), nodup_cons]
      refine and_congr_left fun _ => ?_
      rw [beq_eq_false_iff_ne]
      constructor
      · intro hne hm
        obtain ⟨o, ho, hc⟩ := mem_map.mp hm
        -- the neighbour lies between the two
        rcases mem_cons.mp ho with rfl | ho
        · exact hne (congrArg contentKey hc.symm)
        · have hle := (pairwise_cons.mp hr).1 o ho
          rw [hc] at hle
          exact hne (le_antisymm (hf second mem_cons_self) hle)
      · intro hn heq
        exact hn (mem_map.mpr ⟨second, mem_cons_self, (contentKey_inj heq).symm⟩)

/-- Samples with distinct contents have one order. -/
theorem orderSamples_eq_of_perm {samples samples' : List (DiscoverySample Feature)} (hp : samples'.Perm samples)
    (hn : (samples.map (·.content)).Nodup) : orderSamples samples' = orderSamples samples := by
  have hal : (orderSamples samples').Perm (orderSamples samples) :=
    (orderSamples_perm samples').trans (hp.trans (orderSamples_perm samples).symm)
  apply hal.eq_of_pairwise _ (orderSamples_sorted samples') (orderSamples_sorted samples)
  intro a b ha hb hab hba
  have hm := (orderSamples_perm samples).subset
  exact inj_on_of_nodup_map hn (hm (hal.subset ha)) (hm hb) (contentKey_inj (le_antisymm hab hba))

end Order

/-! ## Cohorts -/

section Form

variable {Feature Category Sim : Type} [LinearOrder Sim] [Zero Sim] [One Sim] [DecidableEq Category]
  {cosine : Feature → Feature → Option Sim} {samples : List (DiscoverySample Feature)}
  {matcher : CategoryMatcher Feature Category} {policy : DiscoveryCohortPolicy Sim} {cancelled stop : Bool}
  {batch : DiscoveryCohortBatch Feature}

/-- The groups of a batch are a partition of the samples into groups of similar samples of which no two together are such a
group, and its cohorts keep the policy. -/
structure MaximalCohorts (cosine : Feature → Feature → Option Sim) (samples : List (DiscoverySample Feature))
    (policy : DiscoveryCohortPolicy Sim) (batch : DiscoveryCohortBatch Feature) : Prop where
  distinct : (samples.map (·.content)).Nodup
  nonempty : ∀ group ∈ batch.groups, group ≠ []
  partition : batch.groups.flatten.Perm (samples.map (·.content))
  similar : ∀ group ∈ batch.groups, ∀ first ∈ samples, ∀ second ∈ samples, first.content ∈ group → second.content ∈ group →
    first.content ≠ second.content →
      ∃ value, cosine first.feature second.feature = some value ∧ policy.minimumPairCosine ≤ value
  apart : batch.groups.Pairwise fun group other => ∃ first ∈ samples, ∃ second ∈ samples, first.content ∈ group ∧
    second.content ∈ other ∧ ∃ value, cosine first.feature second.feature = some value ∧ value < policy.minimumPairCosine
  limit : batch.cohorts.length ≤ policy.maximumCohorts
  sizes : ∀ cohort ∈ batch.cohorts, policy.minimumMembers ≤ cohort.memberSamples.length

/-- What a successful call has done. -/
theorem formDiscoveryCohorts_ok (h : formDiscoveryCohorts cosine samples matcher policy stop = .ok batch) :
    (samples.map (·.content)).Nodup ∧ ∃ current : Fin (orderSamples samples).length → Option Category, ∃ cls,
      linkageGroups cosine (orderSamples samples).get policy.minimumPairCosine stop = .ok cls ∧
      (orderClusters cls).foldlM (placeCluster matcher policy stop (orderSamples samples).get current)
        { cohorts := [], deferred := [] } = .ok batch := by
  obtain ⟨-, h⟩ := bind_unit_ok.mp h
  split at h
  · cases h
  · dsimp only at h
    split at h
    · cases h
    · next hd =>
      obtain ⟨current, -, h⟩ := bind_ok h
      obtain ⟨cls, hc, h⟩ := bind_ok h
      obtain ⟨res, hr, h⟩ := bind_ok h
      obtain ⟨-, h⟩ := bind_unit_ok.mp h
      cases h
      refine ⟨?_, _, cls, hc, hr⟩
      have hn := (adjacentDuplicate_eq_false (orderSamples_sorted samples)).mp (by simpa using hd)
      exact ((orderSamples_perm samples).map _).nodup_iff.mp hn

/-- The order of the input makes no difference to the result. -/
theorem formDiscoveryCohorts_perm {samples' : List (DiscoverySample Feature)} (hp : samples'.Perm samples) :
    formDiscoveryCohorts cosine samples' matcher policy stop = formDiscoveryCohorts cosine samples matcher policy stop := by
  by_cases hn : (samples.map (·.content)).Nodup
  · unfold formDiscoveryCohorts
    rw [hp.length_eq, orderSamples_eq_of_perm hp hn]
  · have hn' : ¬(samples'.map (·.content)).Nodup := by rwa [(hp.map _).nodup_iff]
    have hd : ∀ l : List (DiscoverySample Feature), ¬(l.map (·.content)).Nodup → adjacentDuplicate (orderSamples l) = true := by
      intro l hl
      rw [← ((orderSamples_perm l).map _).nodup_iff, ← adjacentDuplicate_eq_false (orderSamples_sorted l)] at hl
      simpa using hl
    unfold formDiscoveryCohorts
    simp only [hd samples hn, hd samples' hn', hp.length_eq, if_true]

/-- Whenever cohorts are formed, the cohorts and the deferred groups are the maximal groups of similar samples, the cohorts keep
the policy, and any other order of the samples gives the same result. -/
theorem discovery_cohorts_maximal (hsymm : ∀ a b, cosine a b = cosine b a)
    (h : formDiscoveryCohorts cosine samples matcher policy cancelled = .ok batch) :
    MaximalCohorts cosine samples policy batch ∧ ∀ samples', samples'.Perm samples →
      formDiscoveryCohorts cosine samples' matcher policy cancelled = .ok batch := by
  refine ⟨?_, fun samples' hpe => (formDiscoveryCohorts_perm hpe).trans h⟩
  obtain ⟨hn, current, clusters, hclu, hp⟩ := formDiscoveryCohorts_ok h
  obtain ⟨hgr, hm⟩ := linkageGroups_ok hsymm hclu
  have hp := placeClusters_placed hp
  obtain ⟨formed, deferred, hpe, hf, hd⟩ := hp.groups
  have hgr := hgr.perm (similarity_symm hsymm) (hpe.trans (perm_insertionSort _ _))
  have hc : Contents (orderSamples samples).get batch.groups (formed ++ deferred) := rel_append hf hd
  have hge : ∀ idx, (orderSamples samples).get idx ∈ samples := fun idx =>
    (orderSamples_perm samples).subset (get_mem _ idx)
  -- a sample whose content is in a group is at one of the indices of the group
  have hin : ∀ {group : List ClassificationContent} {cluster : List (Fin (orderSamples samples).length)}
      {sample : DiscoverySample Feature},
      group.Perm (cluster.map fun idx => ((orderSamples samples).get idx).content) → sample ∈ samples →
        sample.content ∈ group → ∃ idx ∈ cluster, (orderSamples samples).get idx = sample := by
    intro group cluster sample hg hs hme
    obtain ⟨idx, hin, hco⟩ := mem_map.mp (hg.subset hme)
    exact ⟨idx, hin, inj_on_of_nodup_map hn (hge idx) hs hco⟩
  constructor
  · exact hn
  · intro group hg
    obtain ⟨cluster, hcl, hg⟩ := hc.exists_cluster hg
    rintro rfl
    exact hgr.nonempty cluster hcl (by simpa using hg.symm.eq_nil)
  · calc batch.groups.flatten
      _ ~ (formed ++ deferred).flatten.map fun idx => ((orderSamples samples).get idx).content := hc.flatten_perm
      _ ~ (List.finRange _).map fun idx => ((orderSamples samples).get idx).content := hgr.partition.map _
      _ = (orderSamples samples).map (·.content) := by
        rw [← Function.comp_def, ← map_map, map_get_finRange]
      _ ~ samples.map (·.content) := (orderSamples_perm samples).map _
  · intro group hg first hfi second hse hfm hsm hne
    obtain ⟨cluster, hcl, hg⟩ := hc.exists_cluster hg
    obtain ⟨i, hi, rfl⟩ := hin hg hfi hfm
    obtain ⟨j, hj, rfl⟩ := hin hg hse hsm
    have hle := hgr.close cluster hcl i hi j hj (by rintro rfl; exact hne rfl)
    obtain ⟨value, hv, hb⟩ := WithBot.coe_le_iff.mp hle
    exact ⟨value, hv, hb⟩
  · refine hc.pairwise ?_ hgr.apart
    rintro group cluster group' cluster' hg hg' ⟨i, hi, j, hj, hne, hlt⟩
    obtain ⟨value, hv⟩ := WithBot.ne_bot_iff_exists.mp (hm i j hne)
    refine ⟨_, hge i, _, hge j, hg.symm.subset (mem_map_of_mem hi), hg'.symm.subset (mem_map_of_mem hj), value, hv.symm, ?_⟩
    rwa [← hv, WithBot.coe_lt_coe] at hlt
  · exact hp.limit
  · exact hp.sizes

end Form

/-- A sample with the given digest, for examples. -/
def sampleOf (digest feature : Nat) : DiscoverySample Nat := ⟨⟨"blake3", [digest], 1⟩, feature⟩

theorem discovery_cohorts_maximal_pair : formDiscoveryCohorts (fun a b : Nat => some (if a / 10 = b / 10 then 1 else 0))
      [sampleOf 2 11, sampleOf 1 10, sampleOf 3 20] { leading := fun _ => some 0, compatible := fun _ => true } ⟨1, 2, 1⟩ false =
        .ok ⟨[⟨[sampleOf 1 10, sampleOf 2 11], [sampleOf 3 20]⟩], [⟨[⟨"blake3", [3], 1⟩], .insufficientMembers⟩]⟩ ∧
    MaximalCohorts (fun a b : Nat => some (if a / 10 = b / 10 then 1 else 0))
      [sampleOf 2 11, sampleOf 1 10, sampleOf 3 20] ⟨1, 2, 1⟩
      ⟨[⟨[sampleOf 1 10, sampleOf 2 11], [sampleOf 3 20]⟩], [⟨[⟨"blake3", [3], 1⟩], .insufficientMembers⟩]⟩ := by
  have hr : formDiscoveryCohorts (fun a b : Nat => some (if a / 10 = b / 10 then 1 else 0))
      [sampleOf 2 11, sampleOf 1 10, sampleOf 3 20] { leading := fun _ => some 0, compatible := fun _ => true } ⟨1, 2, 1⟩ false =
        .ok ⟨[⟨[sampleOf 1 10, sampleOf 2 11], [sampleOf 3 20]⟩], [⟨[⟨"blake3", [3], 1⟩], .insufficientMembers⟩]⟩ := by
    decide +kernel
  refine ⟨hr, (discovery_cohorts_maximal ?_ hr).1⟩
  intro a b
  simp only [eq_comm]

end Ame
