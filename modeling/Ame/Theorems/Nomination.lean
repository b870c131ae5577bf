import Ame.Discovery.Nomination
import Ame.Lib.History
import Mathlib

/-!
# Naming contexts lose no support

`selectContexts` against its purpose: what the selected contexts cover leaves of no context as many members as a context must
add. The coverage words are read as sets of members, the walk over the ancestors as a relation between contexts along which
coverage grows, and the selection loop by an invariant.
-/

namespace Ame

open List Result BitVec MemberCoverage

/-! ## Coverage as a set -/

namespace MemberCoverage

variable (self : MemberCoverage)

/-- Whether the bit of a member is set. -/
def covers (index : Nat) : Bool := (self.words (Fin.ofNat 8 (index / 64))).getLsbD (index % 64)

/-- The members covered. -/
def members : Finset Nat := (Finset.range 512).filter fun index => self.covers index

@[simp]
theorem mem_members {self : MemberCoverage} {index : Nat} : index ∈ self.members ↔ index < 512 ∧ self.covers index = true := by
  simp [members]

@[simp]
theorem members_empty : empty.members = ∅ := by
  ext idx
  simp [covers, empty]

@[simp]
theorem members_includeOther (self o : MemberCoverage) : (self.includeOther o).members = self.members ∪ o.members := by
  ext idx
  simp only [mem_members, Finset.mem_union, covers, includeOther, getLsbD_or, Bool.or_eq_true]
  tauto

/-- The bit of a word at which a member is kept. -/
theorem covers_bit (word : Fin 8) {bit : Nat} (h : bit < 64) :
    self.covers (64 * word + bit) = (self.words word).getLsbD bit := by
  have hw : Fin.ofNat 8 ((64 * word.val + bit) / 64) = word := by
    apply Fin.ext
    simp only [Fin.ofNat_eq_cast, Fin.val_natCast]
    omega
  have hb : (64 * word.val + bit) % 64 = bit := by omega
  rw [covers, hw, hb]

theorem contains_iff {self o : MemberCoverage} : self.contains o = true ↔ o.members ⊆ self.members := by
  simp only [contains, all_eq_true, mem_finRange, true_implies, beq_iff_eq]
  constructor
  · intro h idx hi
    obtain ⟨hlt, hc⟩ := mem_members.mp hi
    rw [covers, ← h, getLsbD_and, Bool.and_eq_true] at hc
    exact mem_members.mpr ⟨hlt, hc.1⟩
  · intro h word
    apply eq_of_getLsbD_eq
    intro bit hb
    rw [getLsbD_and]
    cases ho : (o.words word).getLsbD bit with
    | false => rw [Bool.and_false]
    | true =>
      have hs : 64 * word.val + bit ∈ self.members :=
        h (mem_members.mpr ⟨by omega, by rw [covers_bit o word hb, ho]⟩)
      rw [mem_members, covers_bit self word hb] at hs
      rw [hs.2, Bool.and_true]

/-- The numbers below `64 * n` that satisfy a predicate, counted word by word. -/
theorem count_words (p : Nat → Prop) [DecidablePred p] (n : Nat) :
    Nat.count p (64 * n) = ∑ word ∈ Finset.range n, Nat.count (fun bit => p (64 * word + bit)) 64 := by
  induction n with
  | zero => simp
  | succ n ih => rw [Nat.mul_succ, Nat.count_add, ih, Finset.sum_range_succ]

/-- `uncovered` counts the members that are covered here and not there. -/
theorem uncovered_eq (self cov : MemberCoverage) : self.uncovered cov = (self.members \ cov.members).card := by
  have hs : self.members \ cov.members =
      (Finset.range 512).filter fun idx => self.covers idx = true ∧ cov.covers idx = false := by
    ext idx
    simp only [Finset.mem_sdiff, mem_members, Finset.mem_filter, Finset.mem_range, Bool.eq_false_iff]
    tauto
  rw [hs, ← Nat.count_eq_card_filter_range, show (512 : Nat) = 64 * 8 from rfl, count_words, Finset.sum_range]
  refine congrArg List.sum (map_congr_left ?_)
  intro word _
  rw [countOnes, Nat.count_eq_card_filter_range, Nat.count_eq_card_filter_range]
  refine congrArg Finset.card (Finset.filter_congr ?_)
  intro bit hb
  have hlt := Finset.mem_range.mp hb
  rw [covers_bit self word hlt, covers_bit cov word hlt]
  simp [hlt]

end MemberCoverage

section

variable {Id Score : Type} [LinearOrder Id] {edgeLimit : Nat} {contexts : List (ContextSupport Id Score)}
  {id : Id} {context ctx : ContextSupport Id Score} {st : Climb Id edgeLimit} {parents : Id → List Id} {hasBroader : List Id}
  {index idx : Nat}

/-! ## What is subsumed -/

theorem coverageOf_some {coverage : MemberCoverage} (h : coverageOf contexts id = some coverage) :
    ∃ ctx ∈ contexts, ctx.id = id ∧ ctx.coverage = coverage := by
  obtain ⟨ctx, hf, rfl⟩ := Option.map_eq_some_iff.mp h
  exact ⟨ctx, mem_reverse.mp (mem_of_find?_eq_some hf), by simpa using find?_some hf, rfl⟩

/-- Every pair the walks have recorded is a pair of contexts of which the first covers what the second covers. -/
def Ancestry.Sound (contexts : List (ContextSupport Id Score)) (found : Ancestry Id edgeLimit) : Prop :=
  ∀ parent child, (parent, child) ∈ found.children →
    ∃ broader ∈ contexts, ∃ context ∈ contexts, broader.id = parent ∧ context.id = child ∧
      context.coverage.members ⊆ broader.coverage.members

/-- One step of a walk is sound. -/
theorem climbParent_sound {next : Climb Id edgeLimit} {par : Id} (hcon : ctx ∈ contexts) (hsound : st.toAncestry.Sound contexts)
    (h : climbParent contexts ctx st par = .ok next) : next.toAncestry.Sound contexts := by
  unfold climbParent at h
  split at h
  · cases h
  · dsimp only at h
    split at h
    · cases h
      exact hsound
    · split at h
      · next hb =>
        cases h
        obtain ⟨coverage, hco, hc⟩ := (Option.any_eq_true _ _).mp hb
        obtain ⟨broader, hm, hid, rfl⟩ := coverageOf_some hco
        intro p c hp
        rcases mem_append.mp hp with hp | hp
        · exact hsound p c hp
        · obtain ⟨rfl, rfl⟩ := Prod.mk.inj (mem_singleton.mp hp)
          exact ⟨broader, hm, ctx, hcon, hid, rfl, contains_iff.mp hc⟩
      · cases h
        exact hsound

theorem climb_nil (h : st.pending = []) : climb contexts parents ctx st = .ok st := by
  rw [climb]
  split
  · rfl
  · next heq => rw [h] at heq; cases heq

theorem climb_cons {current : Id} {pending : List Id} (h : st.pending = current :: pending) : climb contexts parents ctx st =
      (parents current).foldlM (climbParent contexts ctx) { st with pending } >>= climb contexts parents ctx := by
  rw [climb]
  split
  · next heq => rw [h] at heq; cases heq
  · next heq =>
    rw [h] at heq
    cases heq
    split
    · next hs => rw [hs]; rfl
    · next hs => rw [hs]; rfl

/-- A walk is sound. -/
theorem climb_sound {final : Climb Id edgeLimit} (hc : ctx ∈ contexts) (hsound : st.toAncestry.Sound contexts)
    (h : climb contexts parents ctx st = .ok final) : final.toAncestry.Sound contexts := by
  induction st using climb.induct contexts parents ctx with
  | case1 st hp =>
    rw [climb_nil hp] at h
    cases h
    exact hsound
  | case2 st current pending hp error hs =>
    rw [climb_cons hp, hs] at h
    cases h
  | case3 st current pending hp next hs ih =>
    rw [climb_cons hp, hs] at h
    refine ih (foldlM_invariant (P := fun other => other.toAncestry.Sound contexts) ?_ hs hsound) h
    intro parent _ before after hb hpa
    exact climbParent_sound hc hb hpa

/-- What the walks of all the contexts have recorded is sound. -/
theorem ancestry_sound {start found : Ancestry Id edgeLimit}
    (h : contexts.foldlM (climbContext contexts parents) start = .ok found) (hs : start.Sound contexts) :
      found.Sound contexts := by
  refine foldlM_invariant (P := fun found => found.Sound contexts) ?_ h hs
  intro ctx hco before after hb hst
  unfold climbContext at hst
  cases hc : climb contexts parents ctx ⟨before, [ctx.id], [ctx.id]⟩ with
  | error e =>
    rw [hc] at hst
    cases hst
  | ok final =>
    rw [hc] at hst
    cases hst
    exact climb_sound hco hb hc

/-- One of the roots covers what the context of an identifier covers. -/
def CoveredByRoot (contexts : List (ContextSupport Id Score)) (roots : List Id) (id : Id) : Prop :=
  ∃ root ∈ contexts, root.id ∈ roots ∧ ∀ context ∈ contexts, context.id = id → context.coverage.members ⊆ root.coverage.members

section

variable {found : Ancestry Id edgeLimit} (hids : (contexts.map (·.id)).Nodup) (hsound : found.Sound contexts)

include hids hsound

/-- Everything the roots reach over the recorded pairs is covered by one of them. -/
theorem reached_covered
    (hid : id ∈ Worklist.spread found.children (selectionRoots contexts hasBroader) (selectionRoots contexts hasBroader)) :
    CoveredByRoot contexts (selectionRoots contexts hasBroader) id := by
  have hu : ∀ first ∈ contexts, ∀ second ∈ contexts, first.id = second.id → first = second :=
    inj_on_of_nodup_map hids
  have hr : ∀ id ∈ selectionRoots contexts hasBroader, CoveredByRoot contexts (selectionRoots contexts hasBroader) id := by
    intro id hid
    obtain ⟨root, hro, rfl⟩ : ∃ root ∈ contexts, root.id = id := by
      simpa [selectionRoots] using (mem_filter.mp hid).1
    refine ⟨root, hro, hid, ?_⟩
    intro o ho heq
    rw [hu o ho root hro heq]
  refine Worklist.spread_invariant ?_ ⟨hr, hr⟩ id hid
  rintro par child hp ⟨root, hro, hid, hc⟩
  obtain ⟨broader, hb, narrow, hn, rfl, rfl, hs⟩ := hsound par child hp
  refine ⟨root, hro, hid, ?_⟩
  intro o ho heq
  rw [hu o ho narrow hn heq]
  exact hs.trans (hc broader hb rfl)

/-- A subsumed context is covered by one that is not. -/
theorem subsumed_covered (hc : context ∈ contexts)
    (hs : context.id ∈ subsumedIds found.children (selectionRoots contexts hasBroader)) :
    ∃ root ∈ contexts, root.id ∉ subsumedIds found.children (selectionRoots contexts hasBroader) ∧
      context.coverage.members ⊆ root.coverage.members := by
  obtain ⟨root, hr, hid, hco⟩ := reached_covered hids hsound (mem_filter.mp hs).1
  refine ⟨root, hr, ?_, hco context hc rfl⟩
  intro hm
  simpa [hid] using (mem_filter.mp hm).2

end

/-! ## The selection loop -/

/-- The members covered by the contexts with the given identifiers. -/
def coveredBy (contexts : List (ContextSupport Id Score)) (ids : List Id) : Finset Nat :=
  (Finset.range 512).filter fun index => ∃ context ∈ contexts, ids.contains context.id ∧ context.coverage.covers index = true

/-- The members some identifiers cover. -/
theorem mem_coveredBy {ids : List Id} : idx ∈ coveredBy contexts ids ↔
    ∃ ctx ∈ contexts, ctx.id ∈ ids ∧ idx ∈ ctx.coverage.members := by
  simp only [coveredBy, Finset.mem_filter, Finset.mem_range, mem_members, contains_iff_mem]
  constructor
  · rintro ⟨hlt, ctx, hc, hid, hco⟩
    exact ⟨ctx, hc, hid, hlt, hco⟩
  · rintro ⟨ctx, hc, hid, hlt, hco⟩
    exact ⟨hlt, ctx, hc, hid, hco⟩

theorem coveredBy_append_id (hids : (contexts.map (·.id)).Nodup) (hc : ctx ∈ contexts) (ids : List Id) :
    coveredBy contexts (ids ++ [ctx.id]) = coveredBy contexts ids ∪ ctx.coverage.members := by
  ext idx
  simp only [mem_coveredBy, Finset.mem_union, mem_append, mem_singleton]
  constructor
  · rintro ⟨o, ho, hid | hid, hi⟩
    · exact .inl ⟨o, ho, hid, hi⟩
    · rw [inj_on_of_nodup_map hids ho hc hid] at hi
      exact .inr hi
  · rintro (⟨o, ho, hid, hi⟩ | hi)
    · exact ⟨o, ho, .inl hid, hi⟩
    · exact ⟨ctx, hc, .inr rfl, hi⟩

/-- What holds between the rounds of the selection: `kept` are the contexts that were not subsumed. -/
structure Picking.Good (contexts kept : List (ContextSupport Id Score)) (minimumNewMembers : Nat)
    (state : Picking Id Score) : Prop where
  remaining : ∀ context ∈ state.remaining, context ∈ contexts
  covered : state.covered.members = coveredBy contexts state.selected
  accounted : ∀ context ∈ kept, context ∈ state.remaining ∨ context.id ∈ state.selected
  added : ∀ before id after, state.selected = before ++ id :: after → ∃ context ∈ contexts, context.id = id ∧
    minimumNewMembers ≤ (context.coverage.members \ coveredBy contexts before).card

variable {kept : List (ContextSupport Id Score)} {minimumNewMembers minNew : Nat}

/-- One round: a remaining context that adds enough members is selected. -/
theorem Picking.Good.pick {st : Picking Id Score} (hids : (contexts.map (·.id)).Nodup) (h : st.Good contexts kept minNew)
    (hi : idx < st.remaining.length) (ha : minNew ≤ st.remaining[idx].coverage.uncovered st.covered) :
    Picking.Good contexts kept minNew
      { covered := st.covered.includeOther st.remaining[idx].coverage
        selected := st.selected ++ [st.remaining[idx].id]
        remaining := Iter.swapRemove st.remaining idx } := by
  have hp := Iter.perm_cons_swapRemove hi
  have hn : st.remaining[idx] ∈ contexts := h.remaining _ (getElem_mem hi)
  constructor
  · intro ctx hc
    exact h.remaining ctx (hp.subset (mem_cons_of_mem _ hc))
  · rw [members_includeOther, coveredBy_append_id hids hn, h.covered]
  · intro ctx hc
    rcases h.accounted ctx hc with hr | hs
    · rcases mem_cons.mp (hp.symm.subset hr) with rfl | hre
      · exact .inr (by simp)
      · exact .inl hre
    · exact .inr (mem_append_left _ hs)
  · intro before id after heq
    rcases History.append_singleton_eq_iff.mp heq with ⟨-, rfl, rfl⟩ | ⟨rest, -, hs⟩
    · refine ⟨_, hn, rfl, ?_⟩
      rwa [← h.covered, ← uncovered_eq]
    · exact h.added before id rest hs

/-- When no remaining context adds enough members, none of the contexts that were not subsumed has enough left. -/
theorem Picking.Good.few_left {st : Picking Id Score} (h : st.Good contexts kept minNew) (hm : 1 ≤ minNew)
    (hd : ∀ ctx ∈ st.remaining, ctx.coverage.uncovered st.covered < minNew) (hc : ctx ∈ contexts) (hk : ctx ∈ kept) :
    (ctx.coverage.members \ coveredBy contexts st.selected).card < minNew := by
  rcases h.accounted ctx hk with hr | hs
  · rw [← h.covered, ← uncovered_eq]
    exact hd ctx hr
  · have he : ctx.coverage.members \ coveredBy contexts st.selected = ∅ := by
      rw [Finset.sdiff_eq_empty_iff_subset]
      intro idx hi
      exact mem_coveredBy.mpr ⟨ctx, hc, hs, hi⟩
    rw [he]
    exact hm

variable [LinearOrder Score]

/-- Every run of the selection loop keeps its invariant and the room it was given. -/
theorem pickContexts_good (hids : (contexts.map (·.id)).Nodup) (room : Nat)
    {st : Picking Id Score} (h : st.Good contexts kept minNew) :
    (pickContexts minNew room st).Good contexts kept minNew ∧
      (pickContexts minNew room st).selected.length ≤ st.selected.length + room := by
  induction room generalizing st with
  | zero => exact ⟨h, Nat.le_refl _⟩
  | succ room ih =>
    rw [pickContexts]
    split
    · exact ⟨h, Nat.le_add_right ..⟩
    · next idx next hm =>
      split
      · exact ⟨h, Nat.le_add_right ..⟩
      · next ha =>
        obtain ⟨e, he, hs⟩ := mem_map.mp (Iter.maxByKey_mem hm)
        obtain ⟨rfl, rfl⟩ := Prod.mk.inj hs
        obtain ⟨-, hlt, hn⟩ := mem_zipIdx he
        rw [Nat.zero_add] at hlt
        simp only [Nat.sub_zero] at hn
        rw [hn] at ha ⊢
        obtain ⟨hg, hl⟩ := ih (h.pick hids hlt (Nat.le_of_not_lt ha))
        refine ⟨hg, ?_⟩
        simp only [length_append, length_singleton] at hl
        omega

/-- The selection loses no support: every selected context added its share of members, no more than the allowed number is
selected, and unless the limit was reached no context has as many members left as a context must add. -/
theorem selected_contexts_keep_support {parents : Id → List Id} {maxCandidates : Nat} {selection : ContextSelection Id}
    (hids : (contexts.map (·.id)).Nodup) (hminimum : 1 ≤ minimumNewMembers)
    (h : selectContexts contexts parents minimumNewMembers maxCandidates edgeLimit = .ok selection) :
    (∀ before id after, selection.selected = before ++ id :: after → ∃ context ∈ contexts, context.id = id ∧
      minimumNewMembers ≤ (context.coverage.members \ coveredBy contexts before).card) ∧
    selection.selected.length ≤ maxCandidates ∧
    (selection.candidateLimitReached = false → ∀ context ∈ contexts,
      (context.coverage.members \ coveredBy contexts selection.selected).card < minimumNewMembers) := by
  obtain ⟨found, hf, h⟩ := bind_ok h
  cases h
  have hsound : found.Sound contexts := ancestry_sound hf (by intro par child hp; cases hp)
  set subsumed := subsumedIds found.children (selectionRoots contexts found.hasBroader) with hsu
  have hst : Picking.Good contexts (contexts.filter fun context => context.id ∉ subsumed) minimumNewMembers
      { covered := .empty, selected := [], remaining := contexts.filter fun context => context.id ∉ subsumed } := by
    constructor
    · intro context hc
      exact (mem_filter.mp hc).1
    · ext index
      simp [mem_coveredBy]
    · intro context hc
      exact .inl hc
    · intro before id after heq
      simp at heq
  obtain ⟨hg, hl⟩ := pickContexts_good hids maxCandidates hst
  refine ⟨hg.added, by simpa using hl, ?_⟩
  intro hli
  have hk : ∀ context ∈ contexts, context.id ∉ subsumed → _ := fun context hc hid =>
    hg.few_left hminimum (by simpa using hli) hc (mem_filter.mpr ⟨hc, by simpa using hid⟩)
  intro context hc
  by_cases hid : context.id ∈ subsumed
  · obtain ⟨root, hro, hr, hs⟩ := subsumed_covered hids hsound hc hid
    exact lt_of_le_of_lt (Finset.card_le_card (Finset.sdiff_subset_sdiff hs (Finset.Subset.refl _))) (hk root hro hr)
  · exact hk context hc hid

end

/-- A context over the given members, for examples. -/
def contextOver (id : Nat) (members : List (Fin 512)) (meanImprovement : Nat) : ContextSupport Nat Nat :=
  ⟨id, members.foldl MemberCoverage.insert .empty, meanImprovement, 5⟩

theorem selected_contexts_keep_support_broader :
    selectContexts [contextOver 1 [0, 1] 9, contextOver 2 [0, 1, 2] 1, contextOver 3 [3, 4] 2]
      (fun id => if id = 1 then [2] else []) 2 64 64 = .ok ⟨[2, 3], 1, false, 1⟩ ∧
    ∀ context ∈ [contextOver 1 [0, 1] 9, contextOver 2 [0, 1, 2] 1, contextOver 3 [3, 4] 2],
      (context.coverage.members \ coveredBy [contextOver 1 [0, 1] 9, contextOver 2 [0, 1, 2] 1, contextOver 3 [3, 4] 2]
        [2, 3]).card < 2 := by
  have hr : selectContexts [contextOver 1 [0, 1] 9, contextOver 2 [0, 1, 2] 1, contextOver 3 [3, 4] 2]
      (fun id => if id = 1 then [2] else []) 2 64 64 = .ok ⟨[2, 3], 1, false, 1⟩ := by decide +kernel
  exact ⟨hr, (selected_contexts_keep_support (by decide) (by decide) hr).2.2 rfl⟩

end Ame
