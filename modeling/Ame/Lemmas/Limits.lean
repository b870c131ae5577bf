import Ame.Broker.Limits

/-!
# What the limits keep of a page

The limits hand the candidates of the sorted events to their roots. Whether the roots then have their candidates in the order of
the journal depends on the single events: on each root having at most one candidate of each, not before the start of the root.
-/

namespace Ame

open List SemanticEvent PageLimits

variable {i : Nat} {cbr : RootCandidates}

/-- The order that `validate_shared_backend_page` asks of the candidates of a root: each one later than the one before, and
none before the root starts to read. -/
def InOrder (start : Int) (candidates : List BackendJournalCandidate) : Prop :=
  candidates.Pairwise (·.usn < ·.usn) ∧ ∀ candidate ∈ candidates, start ≤ candidate.usn

/-- The candidates that an event has for a root. -/
def SemanticEvent.candidatesFor (event : SemanticEvent) (index : Nat) : List BackendJournalCandidate :=
  (event.candidates.filter (·.1 == index)).map (·.2)

/-- An event has at most one candidate for a root, and none before the root starts to read. -/
def SemanticEvent.FitsRoot (event : SemanticEvent) (start : Int) (index : Nat) : Prop :=
  (event.candidatesFor index).length ≤ 1 ∧ ∀ candidate ∈ event.candidatesFor index, start ≤ candidate.usn

/-- The candidates of the events carry the coordinate of their event, and no two events with candidates have the same. -/
structure DatedOnce (events : List SemanticEvent) : Prop where
  dated : ∀ event ∈ events, ∀ candidate ∈ event.candidates, candidate.2.usn = event.usn
  once : events.Pairwise fun a b => a.candidates ≠ [] → b.candidates ≠ [] → a.usn ≠ b.usn

theorem SemanticEvent.mem_candidatesFor {ev : SemanticEvent} {idx : Nat} {cand : BackendJournalCandidate} :
    cand ∈ ev.candidatesFor idx ↔ (idx, cand) ∈ ev.candidates := by
  simp [candidatesFor]

/-! ## One round -/

/-- The candidates of an event, as its roots get them. -/
theorem foldl_pushCandidate (cands : List (Nat × BackendJournalCandidate)) (cbr : RootCandidates) (i : Nat) :
    (cands.foldl pushCandidate cbr)[i]? = cbr[i]?.map fun res => res.map (· ++ (cands.filter (·.1 == i)).map (·.2)) := by
  induction cands generalizing cbr with
  | nil =>
    rw [foldl_nil]
    cases cbr[i]? with
    | none => rfl
    | some res => cases res <;> simp [Except.map]
  | cons cand cands ih =>
    rw [foldl_cons, ih, pushCandidate, getElem?_modify]
    cases cbr[i]? with
    | none => rfl
    | some res =>
      by_cases h : cand.1 = i <;> cases res <;> simp [Except.map, h]

/-- Giving roots up changes nothing for a root that is still read after it. -/
theorem getElem?_foldl_set (roots : List Nat) (e : BackendError) (cbr : RootCandidates) {l : List BackendJournalCandidate}
    (h : (roots.foldl (fun cands idx => cands.set idx (.error e)) cbr)[i]? = some (.ok l)) : cbr[i]? = some (.ok l) := by
  induction roots generalizing cbr with
  | nil => exact h
  | cons idx roots ih =>
    have hs := ih (cbr.set idx (.error e)) h
    by_cases hi : idx = i
    · subst hi
      by_cases hlt : idx < cbr.length
      · rw [getElem?_set_self hlt] at hs
        cases hs
      · rw [getElem?_eq_none (by simpa using hlt)] at hs
        cases hs
    · rwa [getElem?_set_ne hi] at hs

theorem rootFailed_eq_false_iff : rootFailed cbr i = false ↔ ∃ l, cbr[i]? = some (.ok l) := by
  unfold rootFailed
  split
  · next l h => simp [h]
  · next hn => simpa using hn

/-- What the roots that are still read lose of an event: nothing. -/
theorem candidatesFor_retainHealthy (ev : SemanticEvent) (h : rootFailed cbr i = false) :
    (ev.retainHealthy cbr).candidatesFor i = ev.candidatesFor i := by
  unfold candidatesFor retainHealthy
  simp only [filter_filter]
  congr 1
  refine filter_congr fun cand _ => ?_
  by_cases hi : cand.1 = i
  · simp [hi, h]
  · simp [hi]

theorem costs_retainHealthy_le (ev : SemanticEvent) (cbr : RootCandidates) :
    (ev.retainHealthy cbr).costs.1 ≤ ev.costs.1 ∧ (ev.retainHealthy cbr).costs.2 ≤ ev.costs.2 := by
  have hf {α : Type} (o : Option α) (p : α → Bool) (f : α → Nat) :
      (o.filter p).toList.length ≤ o.toList.length ∧ (o.filter p).elim 0 f ≤ o.elim 0 f := by
    cases o with
    | none => simp
    | some a => cases hp : p a <;> simp [Option.filter, hp]
  have hc := length_filter_le (fun cand => !rootFailed cbr cand.1) ev.candidates
  have hs : ((ev.candidates.filter fun cand => !rootFailed cbr cand.1).map
      (·.2.evidenceBytes)).sum ≤ (ev.candidates.map (·.2.evidenceBytes)).sum := by
    induction ev.candidates with
    | nil => exact le_refl _
    | cons cand cands ih =>
      rw [filter_cons]
      split <;> simp only [map_cons, sum_cons] <;> omega
  constructor
  · exact Nat.add_le_add (Nat.add_le_add hc (hf _ _ fun _ => 0).1) (hf _ _ fun _ => 0).1
  · exact Nat.add_le_add (Nat.add_le_add hs (hf _ _ _).2) (hf _ _ _).2

/-! ## The loop -/

section

variable {limits : PageLimits} {start : Int} {i : Nat}

/-- A candidate list that an event is added to stays in order, if the event fits the root and comes later. -/
theorem InOrder.append {l : List BackendJournalCandidate} {ev : SemanticEvent} (hl : InOrder start l)
    (hf : ev.FitsRoot start i) (hla : ∀ cand ∈ l, ∀ next ∈ ev.candidatesFor i, cand.usn < next.usn) :
    InOrder start (l ++ ev.candidatesFor i) := by
  refine ⟨pairwise_append.mpr ⟨hl.1, ?_, hla⟩, fun cand hm => ?_⟩
  · match hcs : ev.candidatesFor i, hf.1 with
    | [], _ => exact List.Pairwise.nil
    | [_], _ => exact pairwise_singleton _ _
  · exact (mem_append.mp hm).elim (hl.2 cand) (hf.2 cand)

/-- The loop keeps the candidates of a root in order, if every event before the barrier fits the root. -/
theorem limitEvents_inOrder {evs : List SemanticEvent} {page res : LimitedPage} (h : limitEvents limits evs page = .ok res)
    (hd : ∀ ev ∈ evs, ∀ cand ∈ ev.candidates, cand.2.usn = ev.usn)
    (hla : evs.Pairwise fun a b => a.candidates ≠ [] → b.candidates ≠ [] → a.usn < b.usn)
    (hfi : rootFailed page.candidatesByRoot i = false → ∀ ev ∈ evs, limits.stopsAt ev.usn = false → ev.FitsRoot start i)
    (hp : ∀ l, page.candidatesByRoot[i]? = some (.ok l) →
      InOrder start l ∧ ∀ cand ∈ l, ∀ ev ∈ evs, ev.candidates ≠ [] → cand.usn < ev.usn) {l : List BackendJournalCandidate}
    (hl : res.candidatesByRoot[i]? = some (.ok l)) : InOrder start l := by
  induction evs generalizing page with
  | nil =>
    cases h
    exact (hp l hl).1
  | cons ev evs ih =>
    have hd' := forall_mem_cons.mp hd
    have hl' := pairwise_cons.mp hla
    have hs : ∀ l, page.candidatesByRoot[i]? = some (.ok l) →
        InOrder start l ∧ ∀ cand ∈ l, ∀ ev ∈ evs, ev.candidates ≠ [] → cand.usn < ev.usn :=
      fun l hl => ⟨(hp l hl).1, fun c hc e he => (hp l hl).2 c hc e (mem_cons_of_mem _ he)⟩
    rw [limitEvents] at h
    split at h
    · cases h
      exact (hp l hl).1
    next hst =>
    simp only at h
    split at h
    · exact ih h hd'.2 hl'.2 (fun hok e he => hfi hok e (mem_cons_of_mem _ he)) hs
    split at h
    · -- no room: the page ends, or the roots of the event are given up
      split at h
      · cases h
      split at h
      · refine ih h hd'.2 hl'.2 (fun hok e he => ?_) fun l hl => hs l (getElem?_foldl_set _ _ _ hl)
        obtain ⟨l, hl⟩ := rootFailed_eq_false_iff.mp hok
        exact hfi (rootFailed_eq_false_iff.mpr ⟨l, getElem?_foldl_set _ _ _ hl⟩) e (mem_cons_of_mem _ he)
      · cases h
        exact (hp l hl).1
    · -- the event is kept
      have hr : ∀ l, (page.accept (ev.retainHealthy page.candidatesByRoot)).candidatesByRoot[i]? = some (.ok l) →
          ∃ old, page.candidatesByRoot[i]? = some (.ok old) ∧ l = old ++ ev.candidatesFor i := by
        intro l hl
        rw [LimitedPage.accept, foldl_pushCandidate] at hl
        obtain ⟨res, hold, hl⟩ := Option.map_eq_some_iff.mp hl
        cases res with
        | error e => cases hl
        | ok old =>
          refine ⟨old, hold, ?_⟩
          rw [← candidatesFor_retainHealthy ev (rootFailed_eq_false_iff.mpr ⟨old, hold⟩)]
          exact (Except.ok.inj hl).symm
      refine ih h hd'.2 hl'.2 (fun hok e he => ?_) fun l hl => ?_
      · obtain ⟨l, hl⟩ := rootFailed_eq_false_iff.mp hok
        obtain ⟨old, hold, -⟩ := hr l hl
        exact hfi (rootFailed_eq_false_iff.mpr ⟨old, hold⟩) e (mem_cons_of_mem _ he)
      · obtain ⟨old, hold, rfl⟩ := hr l hl
        have hm : ∀ c ∈ ev.candidatesFor i, ev.candidates ≠ [] ∧ c.usn = ev.usn := fun c hc =>
          have hc := mem_candidatesFor.mp hc
          ⟨ne_nil_of_mem hc, hd'.1 _ hc⟩
        have hf := hfi (rootFailed_eq_false_iff.mpr ⟨old, hold⟩) ev mem_cons_self (by simpa using hst)
        refine ⟨(hp old hold).1.append hf fun c hc next hn => ?_, fun c hc e he hne => ?_⟩
        · rw [(hm next hn).2]
          exact (hp old hold).2 c hc ev mem_cons_self (hm next hn).1
        · rcases mem_append.mp hc with hc | hc
          · exact (hp old hold).2 c hc e (mem_cons_of_mem _ he) hne
          · rw [(hm c hc).2]
            exact hl'.1 e he (hm c hc).1 hne

/-- With room for everything, a root that is still read gets the candidates of all events before the barrier. -/
theorem limitEvents_unlimited (events : List SemanticEvent) (page : LimitedPage) (hs : events.Pairwise fun a b => a.usn ≤ b.usn)
    (hre : page.totalRecords + (events.map (·.costs.1)).sum ≤ limits.maxRecords)
    (hev : page.totalEvidence + (events.map (·.costs.2)).sum ≤ limits.maxEvidenceBytes) :
    ∃ result, limitEvents limits events page = .ok result ∧
      ∀ l, page.candidatesByRoot[i]? = some (.ok l) → result.candidatesByRoot[i]? = some (.ok
        (l ++ (events.filter fun event => !limits.stopsAt event.usn).flatMap (·.candidatesFor i))) := by
  induction events generalizing page with
  | nil => exact ⟨page, rfl, by simp⟩
  | cons event events ih =>
    obtain ⟨hf, hs⟩ := pairwise_cons.mp hs
    simp only [map_cons, sum_cons] at hre hev
    have hco := costs_retainHealthy_le event page.candidatesByRoot
    have hc (l : List BackendJournalCandidate) (hl : page.candidatesByRoot[i]? = some (.ok l)) :=
      candidatesFor_retainHealthy event (rootFailed_eq_false_iff.mpr ⟨l, hl⟩)
    rw [limitEvents]
    cases hst : limits.stopsAt event.usn with
    | true =>
      refine ⟨page, rfl, fun l hl => ?_⟩
      have ha : (event :: events).filter (fun event => !limits.stopsAt event.usn) = [] := by
        refine filter_eq_nil_iff.mpr fun e he => ?_
        have hle : event.usn ≤ e.usn := (mem_cons.mp he).elim (fun h => h ▸ le_refl _) (hf e)
        obtain ⟨barrier, hb, hle'⟩ : ∃ barrier, limits.uncertaintyBarrier = some barrier ∧ barrier ≤ event.usn := by
          simpa [stopsAt, Option.any_eq_true] using hst
        simpa [stopsAt, hb] using hle'.trans hle
      rw [hl, ha]
      simp
    | false =>
      rw [if_neg (by simp)]
      simp only [filter_cons, hst, Bool.not_false, if_true, flatMap_cons]
      split
      · next hem =>
        obtain ⟨result, hr, hrea⟩ := ih page hs (by omega) (by omega)
        refine ⟨result, hr, fun l hl => ?_⟩
        have hn : event.candidatesFor i = [] := by
          rw [← hc l hl, candidatesFor]
          have : (event.retainHealthy page.candidatesByRoot).candidates = [] := by
            simp only [SemanticEvent.isEmpty, Bool.and_eq_true, List.isEmpty_iff] at hem
            exact hem.1.1
          rw [this]
          rfl
        rw [hrea l hl, hn, nil_append]
      · rw [if_neg (by simp only [exceededBy, Bool.or_eq_true, decide_eq_true_eq]; omega)]
        obtain ⟨result, hr, hrea⟩ :=
          ih (page.accept (event.retainHealthy page.candidatesByRoot)) hs
            (by simp only [LimitedPage.accept]; omega) (by simp only [LimitedPage.accept]; omega)
        refine ⟨result, hr, fun l hl => ?_⟩
        rw [hrea (l ++ event.candidatesFor i) ?_, append_assoc]
        rw [LimitedPage.accept, foldl_pushCandidate, hl, ← hc l hl]
        rfl

end

/-! ## The page -/

/-- Candidates that are in order have no two with one coordinate. -/
theorem InOrder.fitsRoot {start : Int} {ev : SemanticEvent} (hd : ∀ cand ∈ ev.candidates, cand.2.usn = ev.usn)
    (h : InOrder start (ev.candidatesFor i)) : ev.FitsRoot start i := by
  refine ⟨?_, h.2⟩
  have hu : ∀ c ∈ ev.candidatesFor i, c.usn = ev.usn := fun c hc =>
    hd _ (mem_candidatesFor.mp hc)
  match hcs : ev.candidatesFor i with
  | [] => simp
  | [_] => simp
  | a :: b :: rest =>
    rw [hcs] at h hu
    have hlt := rel_of_pairwise_cons h.1 (mem_cons_self (a := b) (l := rest))
    rw [hu a (by simp), hu b (by simp)] at hlt
    exact absurd hlt (lt_irrefl _)

/-- The roots have their candidates in order, whatever the limits, exactly if each event before the barrier fits the roots that
are still read when the events have been found. -/
theorem applySemanticLimits_inOrder_iff {evs : List SemanticEvent} {bar : Option Int} {starts : List Int}
    (hev : DatedOnce evs) (hf : ∀ (i : Nat) l, cbr[i]? = some (Except.ok l) → l = []) :
    (∀ rawCovered maxRecs maxEvidence page,
        applySemanticLimits ⟨rawCovered, bar, starts, maxRecs, maxEvidence⟩ cbr (sortEvents evs) = .ok page →
          ∀ i l, page.candidatesByRoot[i]? = some (.ok l) → InOrder (starts.getD i 0) l) ↔
      ∀ ev ∈ evs, ∀ i, rootFailed cbr i = false → (¬∃ b, bar = some b ∧ b ≤ ev.usn) → ev.FitsRoot (starts.getD i 0) i := by
  have hp : (sortEvents evs).Perm evs := perm_insertionSort _ _
  have hs : (sortEvents evs).Pairwise fun a b => a.usn ≤ b.usn := pairwise_insertionSort _ _
  have hst (raw : Int) (recs evid : Nat) (usn : Int) :
      (stopsAt ⟨raw, bar, starts, recs, evid⟩ usn = false) ↔ ¬∃ b, bar = some b ∧ b ≤ usn := by
    cases bar <;> simp [stopsAt]
  constructor
  · intro h ev hm i hok hbe
    obtain ⟨l, hl⟩ := rootFailed_eq_false_iff.mp hok
    have hn := hf i l hl
    subst hn
    obtain ⟨page, hpa, hr⟩ := @limitEvents_unlimited
      ⟨0, bar, starts, ((sortEvents evs).map (·.costs.1)).sum, ((sortEvents evs).map (·.costs.2)).sum⟩ i
      (sortEvents evs) ⟨cbr, bar.elim 0 (min 0), [], [], 0, 0⟩ hs (by simp) (by simp)
    have ho := h _ _ _ page hpa i _ (hr [] hl)
    refine InOrder.fitsRoot (hev.dated ev hm) ?_
    have hk : ev ∈ (sortEvents evs).filter fun ev => !stopsAt
        ⟨0, bar, starts, ((sortEvents evs).map (·.costs.1)).sum, ((sortEvents evs).map (·.costs.2)).sum⟩ ev.usn :=
      mem_filter.mpr ⟨hp.mem_iff.mpr hm, by simpa using (hst _ _ _ _).mpr hbe⟩
    obtain ⟨before, after, hsp⟩ := append_of_mem hk
    rw [hsp, nil_append, flatMap_append] at ho
    exact ⟨(pairwise_append.mp (pairwise_append.mp ho.1).2.1).1, fun c hc => ho.2 c (by simp [hc])⟩
  · intro h rawCovered maxRecs maxEvidence page hpa i l hl
    have hon : (sortEvents evs).Pairwise fun a b => a.candidates ≠ [] → b.candidates ≠ [] → a.usn ≠ b.usn :=
      (hp.pairwise_iff fun hab ha hb => (hab hb ha).symm).mpr hev.once
    refine limitEvents_inOrder hpa (fun e he => hev.dated e (hp.mem_iff.mp he))
      (hs.imp₂ (fun a b hle hne ha hb => lt_of_le_of_ne hle (hne ha hb)) hon)
      (fun hok e he hbe => h e (hp.mem_iff.mp he) i hok ((hst _ _ _ _).mp hbe)) (fun l hl => ?_) hl
    rw [hf i l hl]
    exact ⟨⟨List.Pairwise.nil, by simp⟩, by simp⟩

end Ame
