import Ame.Lemmas.Normalize
import Ame.Lib.Result

/-!
# What a normalized batch denotes

The fold of a whole batch is followed path by path. A path the list denotes is lost only where a step widens, and comes back
only with a later intent that denotes it or with a rename conflict, which makes the list a root. So the batch loses nothing
exactly when every widening is repaired (`WideningRepaired`). The batch that ends in a root-scope intent over a subtree shows
the loss.
-/

namespace Ame

open List Result

/-- The list a batch is folded into, from a list `active`. -/
def accumulate (active batch : List LibraryChangeIntent) : List LibraryChangeIntent :=
  batch.foldl normalizePersistentJournalIntent active

@[simp] theorem accumulate_nil (active : List LibraryChangeIntent) : accumulate active [] = active := rfl

@[simp] theorem accumulate_cons (active : List LibraryChangeIntent) (i : LibraryChangeIntent) (batch : List LibraryChangeIntent) :
    accumulate active (i :: batch) = accumulate (normalizePersistentJournalIntent active i) batch := rfl

@[simp] theorem accumulate_append (active l l' : List LibraryChangeIntent) :
    accumulate active (l ++ l') = accumulate (accumulate active l) l' := foldl_append

section

variable {active batch : List LibraryChangeIntent}

/-- The list stays tidy over a whole batch. -/
theorem accumulate_tidy (ht : Tidy active) (hb : ∀ i ∈ batch, Shaped i) : Tidy (accumulate active batch) := by
  induction batch generalizing active with
  | nil => exact ht
  | cons i batch ih =>
    exact ih (normalize_tidy ht (hb i (by simp))) (fun j hj => hb j (mem_cons_of_mem _ hj))

/-- A root-scope intent, once listed, is there after every step. -/
theorem normalize_keeps_root {inc : LibraryChangeIntent} (ht : Tidy active) (hi : Shaped inc)
    (hr : ∃ c ∈ active, c.scope = .root) : ∃ c ∈ normalizePersistentJournalIntent active inc, c.scope = .root := by
  obtain ⟨c, hc, hcs⟩ := hr
  cases hco : hasConflictingRename active inc with
  | true =>
    obtain ⟨root, heq, hrs, _⟩ := normalize_of_conflicting ht hco
    exact ⟨root, by simp [heq], hrs⟩
  | false =>
    by_cases hcov : ∃ c ∈ active, intentCovers c inc = true
    · obtain ⟨target, _, merged, _, hm, hme, _, hk⟩ := normalize_of_covered ht hi hco hcov
      rcases hk c hc with rfl | hc' | hc'
      · exact ⟨merged, hme, hm.scope.trans hcs⟩
      · exact ⟨c, hc', hcs⟩
      · exact ⟨merged, hme, scope_of_covers_root hm.shaped (ht.shaped c hc) hcs hc'⟩
    · have hco' : ∀ c ∈ active, intentCovers c inc = false := by simpa using hcov
      rw [normalize_of_uncovered hco hco']
      refine ⟨c, mem_append_left _ (mem_filter.mpr ⟨hc, ?_⟩), hcs⟩
      cases hcc : intentCovers inc c with
      | false => rfl
      | true =>
        -- only a root covers a root, and the listed root would have covered it
        have his := scope_of_covers_root hi (ht.shaped c hc) hcs hcc
        have : intentCovers c inc = true := by simp [intentCovers, hcs, isPreciseDirtyReconcile, his]
        rw [hco' c hc] at this
        cases this

/-- A root-scope intent, once listed, is there at the end. -/
theorem accumulate_keeps_root (ht : Tidy active) (hb : ∀ i ∈ batch, Shaped i) (hr : ∃ c ∈ active, c.scope = .root) :
    ∃ c ∈ accumulate active batch, c.scope = .root := by
  induction batch generalizing active with
  | nil => exact hr
  | cons i batch ih =>
    have hi := hb i (by simp)
    exact ih (normalize_tidy ht hi) (fun j hj => hb j (mem_cons_of_mem _ hj)) (normalize_keeps_root ht hi hr)

/-- The condition under which a batch loses nothing, from a list `active`: when a subtree or a root arrives that nothing in
the list covers, that conflicts with no rename and that covers something in the list, then each path it denotes is denoted by
a survivor of the list or by a later intent of the batch, or a later rename conflict makes the list a root. -/
def WideningRepaired (active batch : List LibraryChangeIntent) : Prop :=
  ∀ pre incoming post, batch = pre ++ incoming :: post → widens (accumulate active pre) incoming = true →
    ∀ p, incoming.denote p → Denotes (survivors (accumulate active pre) incoming) p ∨ Denotes post p ∨
      ∃ mid later rest, post = mid ++ later :: rest ∧
        hasConflictingRename (accumulate active (pre ++ incoming :: mid)) later = true

/-- The condition for a batch gives the condition for what follows its first intent. -/
theorem WideningRepaired.tail {i : LibraryChangeIntent} (h : WideningRepaired active (i :: batch)) :
    WideningRepaired (normalizePersistentJournalIntent active i) batch := by
  intro pre inc post hs hw p hp
  exact h (i :: pre) inc post (by simp [hs]) hw p hp

section

variable (ht : Tidy active) (hb : ∀ i ∈ batch, Shaped i)

include ht hb

/-- If every widening is repaired, the fold denotes all that the list and the batch denote. -/
theorem denotes_accumulate (hr : WideningRepaired active batch) {p : String}
    (hp : Denotes active p ∨ Denotes batch p) : Denotes (accumulate active batch) p := by
  induction batch generalizing active with
  | nil =>
    rcases hp with hp | ⟨i, hi, _⟩
    · exact hp
    · simp at hi
  | cons i post ih =>
    have hi := hb i (by simp)
    have hpo : ∀ j ∈ post, Shaped j := fun j hj => hb j (mem_cons_of_mem _ hj)
    have ht1 := normalize_tidy ht hi
    have next := ih ht1 hpo hr.tail
    by_cases hl : Denotes post p
    · exact next (Or.inr hl)
    by_cases hk : Denotes (normalizePersistentJournalIntent active i) p
    · exact next (Or.inl hk)
    -- the path is lost at this step, so the step widens and the condition applies to it
    have hn : i.denote p ∨ Denotes active p := by
      rcases hp with hp | ⟨j, hj, hp⟩
      · exact Or.inr hp
      · rcases mem_cons.mp hj with rfl | hj
        · exact Or.inl hp
        · exact absurd ⟨j, hj, hp⟩ hl
    have hco : hasConflictingRename active i = false := by
      by_contra hc
      obtain ⟨root, heq, hrs, _⟩ := normalize_of_conflicting ht (by simpa using hc)
      exact hk ⟨root, by simp [heq], denote_of_root hrs p⟩
    have hw : widens active i = true := by
      by_contra hw
      exact hk ((denotes_normalize_iff ht hi hco (by simpa using hw) p).mpr hn)
    have hs : ¬Denotes (survivors active i) p := fun h => hk ((denotes_normalize_of_widens ht hi hw p).mpr h)
    have hip : i.denote p := hn.elim id (fun h => denote_incoming_of_lost ht hi hw h hs)
    rcases hr [] i post rfl hw p hip with h | h | ⟨mid, later, rest, rfl, hc⟩
    · exact absurd h hs
    · exact absurd h hl
    · have hm : Tidy (accumulate (normalizePersistentJournalIntent active i) mid) :=
        accumulate_tidy ht1 (fun j hj => hpo j (mem_append_left _ hj))
      obtain ⟨root, heq, hrs, _⟩ := normalize_of_conflicting hm hc
      have hre : ∀ j ∈ rest, Shaped j := fun j hj => hpo j (by simp [hj])
      have hla := accumulate_keeps_root (normalize_tidy hm (hpo later (by simp))) hre ⟨root, by simp [heq], hrs⟩
      obtain ⟨c, hcm, hcs⟩ := hla
      exact ⟨c, by simpa using hcm, denote_of_root hcs p⟩

/-- Without a conflict the fold denotes nothing that neither the list nor the batch denotes. -/
theorem not_denotes_accumulate
    (hco : ∀ mid later rest, batch = mid ++ later :: rest → hasConflictingRename (accumulate active mid) later = false)
    {p : String} (ha : ¬Denotes active p) (hp : ¬Denotes batch p) : ¬Denotes (accumulate active batch) p := by
  induction batch generalizing active with
  | nil => exact ha
  | cons i post ih =>
    have hi := hb i (by simp)
    have hc := hco [] i post rfl
    have hip : ¬i.denote p := fun h => hp ⟨i, by simp, h⟩
    refine ih (normalize_tidy ht hi) (fun j hj => hb j (mem_cons_of_mem _ hj)) ?_ ?_ ?_
    · intro mid later rest hs
      exact hco (i :: mid) later rest (by simp [hs])
    · cases hw : widens active i with
      | false =>
        rw [denotes_normalize_iff ht hi hc hw]
        exact not_or.mpr ⟨hip, ha⟩
      | true =>
        rw [denotes_normalize_of_widens ht hi hw]
        rintro ⟨c, hcm, hcp⟩
        exact ha ⟨c, survivors_subset hcm, hcp⟩
    · rintro ⟨j, hj, hjp⟩
      exact hp ⟨j, mem_cons_of_mem _ hj, hjp⟩

/-- The fold denotes all that the batch denotes exactly when every widening is repaired. -/
theorem denotes_accumulate_iff : (∀ p, Denotes batch p → Denotes (accumulate active batch) p) ↔
    WideningRepaired active batch := by
  constructor
  · intro h pre inc post hsp hw p hp
    by_contra hn
    obtain ⟨hs, hpo, hco⟩ : ¬Denotes (survivors (accumulate active pre) inc) p ∧ ¬Denotes post p ∧
        ¬∃ mid later rest, post = mid ++ later :: rest ∧
          hasConflictingRename (accumulate active (pre ++ inc :: mid)) later = true := by
      simpa [not_or] using hn
    subst hsp
    have htp : Tidy (accumulate active pre) := accumulate_tidy ht (fun j hj => hb j (by simp [hj]))
    have hi := hb inc (by simp)
    have hps : ∀ j ∈ post, Shaped j := fun j hj => hb j (by simp [hj])
    have hl := not_denotes_accumulate (normalize_tidy htp hi) hps ?_
      (fun hd => hs ((denotes_normalize_of_widens htp hi hw p).mp hd)) hpo
    · apply hl
      simpa using h p ⟨inc, by simp, hp⟩
    · intro mid later rest hsp
      by_contra hc
      exact hco ⟨mid, later, rest, hsp, by simpa using hc⟩
  · intro hr p hp
    exact denotes_accumulate ht hb hr (Or.inr hp)

end

end

/-! ## The whole function -/

section

variable {intents : List LibraryChangeIntent} (hv : BatchValid intents)

include hv

/-- Every intent of a valid batch has a valid shape. -/
theorem shaped_of_batchValid : ∀ i ∈ intents, Shaped i := by
  cases intents with
  | nil => simp
  | cons first rest =>
    intro i hi
    have h : validateIntentBatch (first :: rest) first = .ok () := hv
    unfold validateIntentBatch at h
    cases hr : validateRootId first.rootId with
    | error e => simp [hr, bind, Except.bind] at h
    | ok u =>
      simp only [hr, bind, Except.bind] at h
      split at h
      · cases h
      · have hm := forM_ok_iff.mp h i hi
        unfold validateBatchMember validateIntentShape at hm
        rw [← shapeIsValid_iff]
        split at hm
        · cases hm
        · split at hm
          · cases hm
          · split at hm
            · assumption
            · cases hm

/-- A valid batch is normalized: the result is the fold of the batch in processing order, sorted. -/
theorem normalizePersistentJournalIntents_ok :
    normalizePersistentJournalIntents intents = .ok ((accumulate [] (processingOrder intents)).insertionSort
      (fun a b => canonicalIntent a ≤ canonicalIntent b)) := by
  cases intents with
  | nil => rfl
  | cons first rest =>
    have h : validateIntentBatch (first :: rest) first = .ok () := hv
    simp [normalizePersistentJournalIntents, h, bind, Except.bind, accumulate]

end

/-- What a list denotes does not depend on its order. -/
theorem denotes_insertionSort_iff {r : LibraryChangeIntent → LibraryChangeIntent → Prop} [DecidableRel r]
    (l : List LibraryChangeIntent) (p : String) : Denotes (l.insertionSort r) p ↔ Denotes l p := by
  simp only [Denotes, mem_insertionSort]

/-- Normalizing a batch loses no work: it succeeds and its result denotes all that the batch denotes. -/
def Conserved (intents : List LibraryChangeIntent) : Prop :=
  ∃ out, normalizePersistentJournalIntents intents = .ok out ∧ ∀ p, Denotes intents p → Denotes out p

/-- Normalizing a valid batch loses no work exactly when, in processing order, every widening is repaired. -/
theorem normalize_conserves_iff (intents : List LibraryChangeIntent) (hv : BatchValid intents) :
    Conserved intents ↔ WideningRepaired [] (processingOrder intents) := by
  have hs : ∀ i ∈ processingOrder intents, Shaped i := fun i hi =>
    shaped_of_batchValid hv i ((mem_insertionSort _).mp hi)
  rw [← denotes_accumulate_iff Tidy.nil hs]
  unfold Conserved
  rw [normalizePersistentJournalIntents_ok hv]
  constructor
  · rintro ⟨out, ho, h⟩ p hp
    have hp' := h p ((denotes_insertionSort_iff intents p).mp hp)
    rw [← Except.ok.inj ho] at hp'
    exact (denotes_insertionSort_iff _ p).mp hp'
  · intro h
    refine ⟨_, rfl, fun p hp => ?_⟩
    exact (denotes_insertionSort_iff _ p).mpr (h p ((denotes_insertionSort_iff intents p).mpr hp))

/-- An intent of the journal. -/
def catchUpIntent (kind : LibraryChangeIntentKind) (scope : LibraryChangeScope) (relativePath : String) (sequence : Nat) :
    LibraryChangeIntent :=
  { rootId := "root", rootGeneration := .initial, kind, scope, relativePath, previousRelativePath := none
    origin := .startupCatchUp, firstObservedUnixMs := 0, mostRecentObservedUnixMs := 0, firstSequence := sequence
    mostRecentSequence := sequence, coalescedObservationCount := 1 }

/-- A subtree is observed, and then a file in it. -/
def subtreeThenPath : List LibraryChangeIntent :=
  [catchUpIntent .reconcile .subtree "a" 1, catchUpIntent .reconcile .path "a/x" 2]

/-- Neither of them widens what is there before it. -/
theorem normalize_conserves_iff_subtreeThenPath : BatchValid subtreeThenPath ∧ Conserved subtreeThenPath := by
  refine ⟨by decide, (normalize_conserves_iff subtreeThenPath (by decide)).mpr ?_⟩
  have ho : processingOrder subtreeThenPath = subtreeThenPath := by decide
  rw [ho]
  rintro (- | ⟨first, - | ⟨second, pre⟩⟩) inc post hs hw
  · cases hs
    cases hw
  · cases hs
    exact absurd hw (by decide)
  · simp [subtreeThenPath] at hs

/-- A subtree is observed, and then an unknown change of the whole root. -/
def subtreeThenRoot : List LibraryChangeIntent :=
  [catchUpIntent .reconcile .subtree "a" 1, catchUpIntent .freshnessUnknown .root "" 2]

/-- The batch of a subtree and then the root is accepted and loses the root: only the subtree is left of it. -/
theorem normalize_loses_root : BatchValid subtreeThenRoot ∧ ¬Conserved subtreeThenRoot := by
  refine ⟨by decide, ?_⟩
  rintro ⟨out, ho, h⟩
  have hn : normalizePersistentJournalIntents subtreeThenRoot =
      .ok [{ subtreeThenRoot.head (by decide) with mostRecentSequence := 2, coalescedObservationCount := 2 }] := by decide
  have hb : Denotes subtreeThenRoot "b" := ⟨_, mem_cons_of_mem _ (mem_singleton_self _), denote_of_root rfl "b"⟩
  obtain ⟨c, hc, hd⟩ := h "b" hb
  rw [← Except.ok.inj (hn.symm.trans ho), mem_singleton] at hc
  subst hc
  rw [denote_subtree_iff rfl] at hd
  revert hd
  decide

end Ame
