import Ame.Lemmas.Limits

/-!
# What a page may say it covers

The limits end a page early: behind the uncertainty barrier, or at the first event that there is no room for. Up to where the page
then claims to cover the journal, every root that is still read has got all of its candidates, and nothing of a later event was
handed out. A page that claims too little would never end, so it also has to get past the earliest start of its roots.
-/

namespace Ame

open List SemanticEvent LimitedPage PageLimits

/-- `LimitRun limits events page kept result`: from `page` on, the loop keeps the events `kept` of `events` and ends with `result`. -/
inductive LimitRun (limits : PageLimits) : List SemanticEvent → LimitedPage → List SemanticEvent → LimitedPage → Prop where
  | nil (page : LimitedPage) : LimitRun limits [] page [] page
  /-- The event lies behind the barrier. -/
  | stop {found : SemanticEvent} {rest : List SemanticEvent} {page : LimitedPage} (hstop : limits.stopsAt found.usn = true) :
      LimitRun limits (found :: rest) page [] page
  /-- Every root of the event has been given up. -/
  | skip {found : SemanticEvent} {rest kept : List SemanticEvent} {page result : LimitedPage}
      (hempty : (found.retainHealthy page.candidatesByRoot).isEmpty = true) (hrest : LimitRun limits rest page kept result) :
      LimitRun limits (found :: rest) page kept result
  /-- The event is too large for any page. -/
  | exceed {found : SemanticEvent} {rest kept : List SemanticEvent} {page result : LimitedPage} (hzero : page.totalRecords = 0)
      (hrest : LimitRun limits rest (page.exceed (found.retainHealthy page.candidatesByRoot)) kept result) :
      LimitRun limits (found :: rest) page kept result
  /-- There is no room for the event in this page. -/
  | full {found : SemanticEvent} {rest : List SemanticEvent} {page : LimitedPage} {start : Int}
      (hstart : minimumStart limits.rootStartUsns page.candidatesByRoot = some start)
      (hlater : ¬(page.totalRecords = 0 ∧ found.usn ≤ start)) :
      LimitRun limits (found :: rest) page [] { page with coveredUntilUsn := min found.usn limits.rawCoveredUntilUsn }
  /-- The event is kept. -/
  | keep {found : SemanticEvent} {rest kept : List SemanticEvent} {page result : LimitedPage}
      (hbefore : limits.stopsAt found.usn = false) (hnonempty : (found.retainHealthy page.candidatesByRoot).isEmpty = false)
      (hroom : limits.exceededBy page (found.retainHealthy page.candidatesByRoot) = false)
      (hrest : LimitRun limits rest (page.accept (found.retainHealthy page.candidatesByRoot)) kept result) :
      LimitRun limits (found :: rest) page (found :: kept) result

section

variable {limits : PageLimits} {events evs kept : List SemanticEvent} {page res : LimitedPage}
  {event ev : SemanticEvent} {i : Nat}
  {first second cbr : RootCandidates} {usn start : Int}
  {starts : List Int}

theorem limitRun_of_ok (h : limitEvents limits evs page = .ok res) : ∃ kept, LimitRun limits evs page kept res := by
  induction evs generalizing page with
  | nil => exact ⟨[], Except.ok.inj h ▸ .nil page⟩
  | cons found rest ih =>
    rw [limitEvents] at h
    split at h
    · next hst => exact ⟨[], Except.ok.inj h ▸ .stop hst⟩
    · next hb =>
      dsimp only at h
      split at h
      · next he =>
        obtain ⟨kept, hru⟩ := ih h
        exact ⟨kept, .skip he hru⟩
      · next hn =>
        split at h
        · split at h
          · cases h
          · next start hs =>
            split at h
            · next hf =>
              obtain ⟨kept, hru⟩ := ih h
              exact ⟨kept, .exceed hf.1 hru⟩
            · next hl => exact ⟨[], Except.ok.inj h ▸ .full hs hl⟩
        · next hr =>
          obtain ⟨kept, hru⟩ := ih h
          exact ⟨found :: kept, .keep (by simpa using hb) (by simpa using hn) (by simpa using hr) hru⟩

/-! ## The roots that are still read -/

/-- Keeping an event gives no root up. -/
theorem rootFailed_accept (page : LimitedPage) (event : SemanticEvent) (i : Nat) :
    rootFailed (page.accept event).candidatesByRoot i = rootFailed page.candidatesByRoot i := by
  unfold rootFailed accept
  rw [foldl_pushCandidate]
  cases page.candidatesByRoot[i]? with
  | none => rfl
  | some res => cases res <;> rfl

/-- A root that is read after others were given up is none of them, and was read before. -/
theorem rootFailed_exceed (h : rootFailed (page.exceed ev).candidatesByRoot i = false) :
    rootFailed page.candidatesByRoot i = false ∧ i ∉ ev.affectedRoots := by
  obtain ⟨l, hl⟩ := rootFailed_eq_false_iff.mp h
  refine ⟨rootFailed_eq_false_iff.mpr ⟨l, getElem?_foldl_set _ _ _ hl⟩, fun hm => ?_⟩
  obtain ⟨before, after, hs⟩ := append_of_mem hm
  rw [exceed, hs, foldl_append, foldl_cons] at hl
  have hse := getElem?_foldl_set _ _ _ hl
  rw [getElem?_set] at hse
  split at hse
  · split at hse <;> cases hse
  · next hne => exact hne rfl

/-- A root that is read at the end was read all along. -/
theorem LimitRun.healthy (h : LimitRun limits evs page kept res)
    (hi : rootFailed res.candidatesByRoot i = false) : rootFailed page.candidatesByRoot i = false := by
  induction h with
  | nil => exact hi
  | stop => exact hi
  | skip _ _ ih => exact ih hi
  | exceed _ _ ih => exact (rootFailed_exceed (ih hi)).1
  | full => exact hi
  | keep _ _ _ _ ih => exact (rootFailed_accept _ _ _).symm.trans (ih hi)

/-- An event with something left has a record. -/
theorem costs_pos (h : ev.isEmpty = false) : 0 < ev.costs.1 := by
  unfold SemanticEvent.isEmpty at h
  unfold SemanticEvent.costs
  rcases ev with ⟨usn, cands, handoff, pend⟩
  cases cands <;> cases handoff <;> cases pend <;> simp_all

/-- Once an event has been kept, no root is given up any more. -/
theorem LimitRun.frozen (h : LimitRun limits evs page kept res) (hp : 0 < page.totalRecords) (i : Nat) :
    rootFailed res.candidatesByRoot i = rootFailed page.candidatesByRoot i := by
  induction h with
  | nil => rfl
  | stop => rfl
  | skip _ _ ih => exact ih hp
  | exceed hz => omega
  | full => rfl
  | keep _ _ _ _ ih => exact (ih (Nat.lt_of_lt_of_le hp (Nat.le_add_right _ _))).trans (rootFailed_accept _ _ _)

/-- What is left of an event depends on which roots are still read. -/
theorem retainHealthy_congr (h : ∀ i, rootFailed first i = rootFailed second i) (event : SemanticEvent) :
    event.retainHealthy first = event.retainHealthy second := by
  have hf : rootFailed first = rootFailed second := funext h
  unfold SemanticEvent.retainHealthy
  rw [hf]

/-- What an event has left when it is kept, it has left at the end. -/
theorem retainHealthy_of_keep {found : SemanticEvent} {rest : List SemanticEvent}
    (hn : (found.retainHealthy page.candidatesByRoot).isEmpty = false)
    (hr : LimitRun limits rest (page.accept (found.retainHealthy page.candidatesByRoot)) kept res)
    (event : SemanticEvent) : event.retainHealthy res.candidatesByRoot = event.retainHealthy page.candidatesByRoot := by
  have hp : 0 < (page.accept (found.retainHealthy page.candidatesByRoot)).totalRecords :=
    Nat.lt_of_lt_of_le (costs_pos hn) (Nat.le_add_left _ _)
  exact retainHealthy_congr (fun i => (hr.frozen hp i).trans (rootFailed_accept _ _ _)) event

/-- An event of which nothing is left has no part that names only roots that are read. -/
theorem isEmpty_retainHealthy_iff : (ev.retainHealthy cbr).isEmpty = true ↔
      (∀ cand ∈ ev.candidates, rootFailed cbr cand.1 = true) ∧
      (∀ handoff ∈ ev.handoff, rootFailed cbr handoff.currentRootIndex = true ∨
        ∃ idx ∈ handoff.previousRootIndex, rootFailed cbr idx = true) ∧
      ∀ pend ∈ ev.pending, rootFailed cbr pend.rootIndex = true := by
  rcases ev with ⟨usn, cands, handoff, pend⟩
  simp only [SemanticEvent.isEmpty, SemanticEvent.retainHealthy, Bool.and_eq_true, List.isEmpty_iff, and_assoc]
  refine and_congr ?_ (and_congr ?_ ?_)
  · simp [filter_eq_nil_iff]
  · cases handoff with
    | none => simp
    | some handoff =>
      cases hi : handoff.previousRootIndex <;>
        cases hc : rootFailed cbr handoff.currentRootIndex <;> simp [Option.filter, hi, hc]
  · cases pend with
    | none => simp
    | some pend => simp [Option.filter]

/-- If nothing is left of an event, nothing is later in the run. -/
theorem LimitRun.isEmpty_retainHealthy (hr : LimitRun limits evs page kept res)
    (he : (ev.retainHealthy page.candidatesByRoot).isEmpty = true) : (ev.retainHealthy res.candidatesByRoot).isEmpty = true := by
  have h {i : Nat} (hi : rootFailed page.candidatesByRoot i = true) : rootFailed res.candidatesByRoot i = true := by
    by_contra hok
    rw [hr.healthy (Bool.eq_false_iff.mpr hok)] at hi
    cases hi
  rw [isEmpty_retainHealthy_iff] at he ⊢
  obtain ⟨hca, hh, hpe⟩ := he
  refine ⟨fun c hc => h (hca c hc), fun handoff hm => ?_, fun p hp => h (hpe p hp)⟩
  rcases hh handoff hm with hcu | ⟨idx, hi, hpr⟩
  · exact .inl (h hcu)
  · exact .inr ⟨idx, hi, h hpr⟩

/-- An event whose roots are given up has nothing left. -/
theorem isEmpty_retainHealthy_exceed (page : LimitedPage) (event : SemanticEvent) :
    (event.retainHealthy (page.exceed (event.retainHealthy page.candidatesByRoot)).candidatesByRoot).isEmpty = true := by
  have hf : ∀ i, i ∈ (event.retainHealthy page.candidatesByRoot).affectedRoots →
      rootFailed (page.exceed (event.retainHealthy page.candidatesByRoot)).candidatesByRoot i = true := by
    intro i hi
    by_contra hok
    exact (rootFailed_exceed (Bool.eq_false_iff.mpr hok)).2 hi
  have hm : ∀ i, rootFailed page.candidatesByRoot i = true →
      rootFailed (page.exceed (event.retainHealthy page.candidatesByRoot)).candidatesByRoot i = true := by
    intro i hi
    by_contra hok
    rw [(rootFailed_exceed (Bool.eq_false_iff.mpr hok)).1] at hi
    cases hi
  -- A part of the event was taken out before, or its roots are given up now.
  rw [isEmpty_retainHealthy_iff]
  refine ⟨fun c hc => ?_, fun handoff hme => ?_, fun p hp => ?_⟩
  · cases hn : rootFailed page.candidatesByRoot c.1 with
    | true => exact hm _ hn
    | false =>
      refine hf _ (mem_append_left _ (mem_append_left _ (mem_map_of_mem (mem_filter.mpr ⟨hc, ?_⟩))))
      simp [hn]
  · cases hn : rootFailed page.candidatesByRoot handoff.currentRootIndex ||
        handoff.previousRootIndex.any (rootFailed page.candidatesByRoot) with
    | true =>
      rcases Bool.or_eq_true_iff.mp hn with hcu | hpr
      · exact .inl (hm _ hcu)
      · obtain ⟨idx, hin, hfa⟩ := (Option.any_eq_true _ _).mp hpr
        exact .inr ⟨idx, hin, hm _ hfa⟩
    | false =>
      refine .inl (hf _ (mem_append_left _ (mem_append_right _ ?_)))
      have hk : (event.retainHealthy page.candidatesByRoot).handoff = some handoff := by
        simp [SemanticEvent.retainHealthy, Option.mem_def.mp hme, Option.filter, hn]
      simp [hk]
  · cases hn : rootFailed page.candidatesByRoot p.rootIndex with
    | true => exact hm _ hn
    | false =>
      refine hf _ (mem_append_right _ ?_)
      have hk : (event.retainHealthy page.candidatesByRoot).pending = some p := by
        simp [SemanticEvent.retainHealthy, Option.mem_def.mp hp, Option.filter, hn]
      simp [hk]

/-! ## The events that are kept -/

/-- Where the page would end without limits. -/
def PageLimits.bound (limits : PageLimits) : Int :=
  limits.uncertaintyBarrier.elim limits.rawCoveredUntilUsn (min limits.rawCoveredUntilUsn)

/-- What lies below the bound. -/
theorem lt_bound_iff : usn < limits.bound ↔ usn < limits.rawCoveredUntilUsn ∧ limits.stopsAt usn = false := by
  unfold bound stopsAt
  cases limits.uncertaintyBarrier <;> simp

section

variable (h : LimitRun limits events page kept res)

include h

/-- The page ends after everything before its bound and before the events that are left. -/
theorem LimitRun.lt_covered (hp : page.coveredUntilUsn = limits.bound)
    (hb : usn < limits.bound) (hev : ∀ event ∈ events, usn < event.usn) : usn < res.coveredUntilUsn := by
  induction h with
  | nil => exact hp ▸ hb
  | stop => exact hp ▸ hb
  | skip _ _ ih => exact ih hp fun event he => hev event (mem_cons_of_mem _ he)
  | exceed _ _ ih => exact ih hp fun event he => hev event (mem_cons_of_mem _ he)
  | full => exact lt_min (hev _ mem_cons_self) (lt_bound_iff.mp hb).1
  | keep _ _ _ _ ih => exact ih hp fun event he => hev event (mem_cons_of_mem _ he)

/-- No event at or after where the page ends is kept, and every other one of which something is left at the end is. -/
theorem LimitRun.kept_eq (hp : page.coveredUntilUsn = limits.bound)
    (hin : events.Pairwise (·.usn < ·.usn)) (hra : ∀ event ∈ events, event.usn < limits.rawCoveredUntilUsn) :
    kept = events.filter fun event =>
      decide (event.usn < res.coveredUntilUsn) && !(event.retainHealthy res.candidatesByRoot).isEmpty := by
  have hno : ∀ {events : List SemanticEvent} {cov : Int} {p : SemanticEvent → Bool},
      (∀ event ∈ events, cov ≤ event.usn) → events.filter (fun event => decide (event.usn < cov) && p event) = [] := by
    intro events cov p hle
    refine filter_eq_nil_iff.mpr fun event he => ?_
    have := hle event he
    simp only [Bool.and_eq_true, decide_eq_true_eq, not_and]
    omega
  induction h with
  | nil => rfl
  | @stop found rest page hst =>
    refine (hno fun event he => ?_).symm
    have hf : ¬found.usn < limits.bound := fun hlt => by
      rw [(lt_bound_iff.mp hlt).2] at hst
      cases hst
    rcases mem_cons.mp he with rfl | he
    · omega
    · have := rel_of_pairwise_cons hin he
      omega
  | @skip found rest kept page res hem hr ih =>
    rw [ih hp hin.tail fun event he => hra event (mem_cons_of_mem _ he)]
    have hg := hr.isEmpty_retainHealthy hem
    simp [hg]
  | @exceed found rest kept page res hz hr ih =>
    rw [ih hp hin.tail fun event he => hra event (mem_cons_of_mem _ he)]
    have hg := hr.isEmpty_retainHealthy (isEmpty_retainHealthy_exceed page found)
    simp [hg]
  | @full found rest page start hs hl =>
    refine (hno fun event he => ?_).symm
    rcases mem_cons.mp he with rfl | he
    · exact min_le_left _ _
    · exact (min_le_left _ _).trans (le_of_lt (rel_of_pairwise_cons hin he))
  | @keep found rest kept page res hb hn hro hr ih =>
    rw [filter_cons_of_pos, ← ih hp hin.tail fun event he => hra event (mem_cons_of_mem _ he)]
    have hc := hr.lt_covered hp (lt_bound_iff.mpr ⟨hra found mem_cons_self, hb⟩) fun event he => rel_of_pairwise_cons hin he
    simp [hc, retainHealthy_of_keep hn hr, hn]

/-! ## What is handed out -/

/-- The candidates of a root that is read at the end are those of the kept events. -/
theorem LimitRun.candidates {l : List BackendJournalCandidate} (hl : res.candidatesByRoot[i]? = some (.ok l)) :
    ∃ old, page.candidatesByRoot[i]? = some (.ok old) ∧ l = old ++ kept.flatMap (·.candidatesFor i) := by
  induction h with
  | nil => exact ⟨l, hl, by simp⟩
  | stop => exact ⟨l, hl, by simp⟩
  | skip _ _ ih => exact ih hl
  | exceed _ _ ih =>
    obtain ⟨old, hold, heq⟩ := ih hl
    exact ⟨old, getElem?_foldl_set _ _ _ hold, heq⟩
  | full => exact ⟨l, hl, by simp⟩
  | @keep found rest kept page res _ _ _ _ ih =>
    obtain ⟨middle, hm, heq⟩ := ih hl
    rw [accept, foldl_pushCandidate] at hm
    obtain ⟨read, hr, hm⟩ := Option.map_eq_some_iff.mp hm
    cases read with
    | error e => cases hm
    | ok old =>
      refine ⟨old, hr, ?_⟩
      rw [heq, ← Except.ok.inj hm, flatMap_cons, append_assoc]
      have hs := candidatesFor_retainHealthy found (rootFailed_eq_false_iff.mpr ⟨old, hr⟩)
      rw [candidatesFor] at hs
      rw [hs]

/-- What else is handed out, and the totals, are what the kept events have left at the end. -/
theorem LimitRun.handedOut :
    res.handoffs = page.handoffs ++ kept.flatMap (fun ev => (ev.retainHealthy res.candidatesByRoot).handoff.toList) ∧
    res.pendingRenames =
      page.pendingRenames ++ kept.flatMap (fun ev => (ev.retainHealthy res.candidatesByRoot).pending.toList) ∧
    res.totalRecords = page.totalRecords + (kept.map fun ev => (ev.retainHealthy res.candidatesByRoot).costs.1).sum ∧
    res.totalEvidence = page.totalEvidence + (kept.map fun ev => (ev.retainHealthy res.candidatesByRoot).costs.2).sum := by
  induction h with
  | nil => simp
  | stop => simp
  | skip _ _ ih => exact ih
  | exceed _ _ ih => exact ih
  | full => simp
  | @keep found rest kept page res _ hn _ hre ih =>
    obtain ⟨hh, hp, hr, he⟩ := ih
    have hs := retainHealthy_of_keep hn hre found
    refine ⟨?_, ?_, ?_, ?_⟩
    · rw [hh, flatMap_cons, hs, accept, append_assoc]
    · rw [hp, flatMap_cons, hs, accept, append_assoc]
    · rw [hr, map_cons, sum_cons, hs, accept, Nat.add_assoc]
    · rw [he, map_cons, sum_cons, hs, accept, Nat.add_assoc]

/-- The totals stay within the limits. -/
theorem LimitRun.totals_le (hp : page.totalRecords ≤ limits.maxRecords ∧ page.totalEvidence ≤ limits.maxEvidenceBytes) :
    res.totalRecords ≤ limits.maxRecords ∧ res.totalEvidence ≤ limits.maxEvidenceBytes := by
  induction h with
  | nil => exact hp
  | stop => exact hp
  | skip _ _ ih => exact ih hp
  | exceed _ _ ih => exact ih hp
  | full => exact hp
  | keep _ _ hr _ ih =>
    refine ih ?_
    simp only [exceededBy, Bool.or_eq_false_iff, decide_eq_false_iff_not, Nat.not_lt] at hr
    exact hr

end

/-! ## Progress -/

/-- The earliest start of the roots that are read is at most the start of each of them. -/
theorem minimumStart_le {s : Int} (hst : minimumStart starts cbr = some start)
    (hi : rootFailed cbr i = false) (hs : starts[i]? = some s) : start ≤ s := by
  refine (min?_eq_some_iff.mp hst).2 s (mem_map.mpr ⟨(s, i), mem_filter.mpr ⟨?_, by simp [hi]⟩, rfl⟩)
  exact mem_zipIdx_iff_getElem?.mpr hs

theorem minimumStart_congr
    (h : ∀ i, rootFailed first i = rootFailed second i) : minimumStart starts first = minimumStart starts second := by
  have hf : rootFailed first = rootFailed second := funext h
  unfold minimumStart
  rw [hf]

/-- An event of which something is left names a root that is read. -/
theorem exists_affectedRoot (h : (ev.retainHealthy cbr).isEmpty = false) :
    ∃ i ∈ ev.affectedRoots, rootFailed cbr i = false := by
  by_contra hn
  have hf : ∀ i ∈ ev.affectedRoots, rootFailed cbr i = true := by
    intro i hi
    by_contra hok
    exact hn ⟨i, hi, Bool.eq_false_iff.mpr hok⟩
  refine Bool.eq_false_iff.mp h (isEmpty_retainHealthy_iff.mpr ⟨fun c hc => hf _ ?_,
    fun handoff hm => .inl (hf _ ?_), fun p hp => hf _ ?_⟩)
  · exact mem_append_left _ (mem_append_left _ (mem_map_of_mem hc))
  · simp [affectedRoots, Option.mem_def.mp hm]
  · simp [affectedRoots, Option.mem_def.mp hp]

/-- The page gets past the earliest start of its roots, if its bound does: an event that does not fit comes after that start, or
after an event that was kept and that a root with some start is named by. -/
theorem LimitRun.progress (h : LimitRun limits evs page kept res) (hp : page.coveredUntilUsn = limits.bound)
    (hin : evs.Pairwise (·.usn < ·.usn)) (hra : ∀ ev ∈ evs, ev.usn < limits.rawCoveredUntilUsn)
    (hst : ∀ ev ∈ evs, ∀ i ∈ ev.affectedRoots, ∃ s, limits.rootStartUsns[i]? = some s ∧ s ≤ ev.usn)
    (hpa : ∀ start, 0 < page.totalRecords → minimumStart limits.rootStartUsns page.candidatesByRoot = some start →
      ∀ ev ∈ evs, start < ev.usn) (hsta : minimumStart limits.rootStartUsns res.candidatesByRoot = some start)
    (hb : start < limits.bound) : start < res.coveredUntilUsn := by
  induction h with
  | nil => exact hp ▸ hb
  | stop => exact hp ▸ hb
  | skip _ _ ih =>
    exact ih hp hin.tail (fun e he => hra e (mem_cons_of_mem _ he))
      (fun e he => hst e (mem_cons_of_mem _ he)) (fun s hpo hs e he => hpa s hpo hs e (mem_cons_of_mem _ he)) hsta
  | exceed hz _ ih =>
    refine ih hp hin.tail (fun e he => hra e (mem_cons_of_mem _ he))
      (fun e he => hst e (mem_cons_of_mem _ he)) (fun s hpo => ?_) hsta
    exact absurd hpo (by simp [LimitedPage.exceed, hz])
  | @full found rest page first hf hl =>
    obtain rfl : first = start := Option.some.inj (hf.symm.trans hsta)
    refine lt_min ?_ (lt_of_lt_of_le hb ?_)
    · by_cases hz : page.totalRecords = 0
      · exact not_le.mp fun hle => hl ⟨hz, hle⟩
      · exact hpa first (Nat.pos_of_ne_zero hz) hf found mem_cons_self
    · unfold bound
      cases limits.uncertaintyBarrier with
      | none => exact le_rfl
      | some bar => exact min_le_left _ _
  | @keep found rest kept page res hbe hn hro hre ih =>
    refine ih hp hin.tail (fun e he => hra e (mem_cons_of_mem _ he))
      (fun e he => hst e (mem_cons_of_mem _ he)) (fun s _ hs e he => ?_) hsta
    -- The event names a root that is read, and comes no earlier than the start of that root.
    obtain ⟨i, hi, hr⟩ := exists_affectedRoot hn
    obtain ⟨own, ho, hle⟩ := hst found mem_cons_self i hi
    rw [minimumStart_congr (rootFailed_accept page _)] at hs
    have hm := minimumStart_le hs hr ho
    have hlt := rel_of_pairwise_cons hin he
    omega

end

/-! ## The page -/

section

variable {limits : PageLimits} {candidatesByRoot : RootCandidates} {events : List SemanticEvent} {page : LimitedPage}

/-- The events before where a page ends. -/
def LimitedPage.coveredEvents (page : LimitedPage) (events : List SemanticEvent) : List SemanticEvent :=
  events.filter fun event => event.usn < page.coveredUntilUsn

/-- What the events of a list have left does not depend on those that have nothing left. -/
theorem flatMap_filter_of_nil {β : Type} {f : SemanticEvent → List β} {p : SemanticEvent → Bool} (l : List SemanticEvent)
    (hf : ∀ ev, p ev = false → f ev = []) : (l.filter p).flatMap f = l.flatMap f := by
  induction l with
  | nil => rfl
  | cons ev l ih =>
    cases hp : p ev with
    | true => rw [filter_cons_of_pos hp, flatMap_cons, flatMap_cons, ih]
    | false => rw [filter_cons_of_neg (by simp [hp]), flatMap_cons, hf ev hp, nil_append, ih]

theorem sum_filter_of_zero {f : SemanticEvent → Nat} {p : SemanticEvent → Bool} (l : List SemanticEvent)
    (hf : ∀ ev, p ev = false → f ev = 0) : ((l.filter p).map f).sum = (l.map f).sum := by
  induction l with
  | nil => rfl
  | cons ev l ih =>
    cases hp : p ev with
    | true => rw [filter_cons_of_pos hp, map_cons, map_cons, sum_cons, sum_cons, ih]
    | false => rw [filter_cons_of_neg (by simp [hp]), map_cons, sum_cons, hf ev hp, Nat.zero_add, ih]

/-- Whatever the limits: up to where a page says it covers the journal, every root that is read at the end has got all of its
candidates, and nothing comes from an event after that; what is handed out names only roots that are read at the end; the totals
stay within the limits; and the page gets past the earliest start of the roots that are read, unless the raw page or the barrier
does not. -/
theorem applySemanticLimits_honest (hincreasing : events.Pairwise (·.usn < ·.usn))
    (hstarts : ∀ event ∈ events, ∀ i ∈ event.affectedRoots, ∃ s, limits.rootStartUsns[i]? = some s ∧ s ≤ event.usn)
    (hraw : ∀ event ∈ events, event.usn < limits.rawCoveredUntilUsn)
    (h : applySemanticLimits limits candidatesByRoot events = .ok page) :
    (∀ i l, page.candidatesByRoot[i]? = some (.ok l) → ∃ old, candidatesByRoot[i]? = some (.ok old) ∧
      l = old ++ (page.coveredEvents events).flatMap (·.candidatesFor i)) ∧
    page.handoffs = (page.coveredEvents events).flatMap (fun event =>
      (event.handoff.filter fun handoff => !(rootFailed page.candidatesByRoot handoff.currentRootIndex ||
        handoff.previousRootIndex.any (rootFailed page.candidatesByRoot))).toList) ∧
    page.pendingRenames = (page.coveredEvents events).flatMap (fun event =>
      (event.pending.filter fun pending => !rootFailed page.candidatesByRoot pending.rootIndex).toList) ∧
    ((page.coveredEvents events).map fun event => (event.retainHealthy page.candidatesByRoot).costs.1).sum ≤ limits.maxRecords ∧
    ((page.coveredEvents events).map fun event => (event.retainHealthy page.candidatesByRoot).costs.2).sum ≤
      limits.maxEvidenceBytes ∧
    ∀ start, minimumStart limits.rootStartUsns page.candidatesByRoot = some start → start < limits.rawCoveredUntilUsn →
      (∀ barrier ∈ limits.uncertaintyBarrier, start < barrier) → start < page.coveredUntilUsn := by
  obtain ⟨kept, hru⟩ := limitRun_of_ok h
  have hk : kept = (page.coveredEvents events).filter fun event => !(event.retainHealthy page.candidatesByRoot).isEmpty := by
    rw [hru.kept_eq rfl hincreasing hraw, coveredEvents, filter_filter]
    simp only [Bool.and_comm]
  obtain ⟨hh, hpe, hr, hev⟩ := hru.handedOut
  obtain ⟨hmr, hme⟩ := hru.totals_le ⟨Nat.zero_le _, Nat.zero_le _⟩
  have hp : ∀ event : SemanticEvent, (!(event.retainHealthy page.candidatesByRoot).isEmpty) = false →
      (event.retainHealthy page.candidatesByRoot).candidates = [] ∧ (event.retainHealthy page.candidatesByRoot).handoff = none ∧
        (event.retainHealthy page.candidatesByRoot).pending = none := by
    simp [SemanticEvent.isEmpty, and_assoc]
  refine ⟨?_, ?_, ?_, ?_, ?_, ?_⟩
  · intro i l hl
    obtain ⟨old, hold, heq⟩ := hru.candidates hl
    refine ⟨old, hold, ?_⟩
    rw [heq, hk, flatMap_filter_of_nil]
    intro event he
    rw [← candidatesFor_retainHealthy event (rootFailed_eq_false_iff.mpr ⟨l, hl⟩), candidatesFor, (hp event he).1]
    rfl
  · rw [hh, hk, flatMap_filter_of_nil]
    · rfl
    · intro event he
      rw [(hp event he).2.1]
      rfl
  · rw [hpe, hk, flatMap_filter_of_nil]
    · rfl
    · intro event he
      rw [(hp event he).2.2]
      rfl
  · rw [← sum_filter_of_zero (page.coveredEvents events) fun event he => ?_, ← hk]
    · rw [Nat.zero_add] at hr
      exact hr ▸ hmr
    · rw [SemanticEvent.costs, (hp event he).1, (hp event he).2.1, (hp event he).2.2]
      rfl
  · rw [← sum_filter_of_zero (page.coveredEvents events) fun event he => ?_, ← hk]
    · rw [Nat.zero_add] at hev
      exact hev ▸ hme
    · rw [SemanticEvent.costs, (hp event he).1, (hp event he).2.1, (hp event he).2.2]
      rfl
  · intro start hs hrs hba
    refine hru.progress rfl hincreasing hraw hstarts (fun s hpo => absurd hpo (Nat.lt_irrefl 0)) hs ?_
    unfold bound
    cases hb : limits.uncertaintyBarrier with
    | none => exact hrs
    | some barrier => exact lt_min hrs (hba barrier hb)

end

/-- A file of the first or the second root that was changed. -/
def changedFile (index : Nat) (usn : Int) : SemanticEvent :=
  ⟨usn, [(index, ⟨"volume", [0x44, 0x3A, 0x5C], none, [0, 0, 0, 0, 0, 0, 0, 1], usn, .path, false⟩)], none, none⟩

/-- With room for one record a page ends before the second change. -/
theorem applySemanticLimits_honest_two_changes :
    ∃ page, applySemanticLimits ⟨20, none, [0, 5], 1, 100⟩ [.ok [], .ok []] [changedFile 0 3, changedFile 1 7] = .ok page ∧
      page.coveredUntilUsn = 7 ∧
      ∀ i l, page.candidatesByRoot[i]? = some (.ok l) → ∃ old, ([.ok [], .ok []] : RootCandidates)[i]? = some (.ok old) ∧
        l = old ++ (page.coveredEvents [changedFile 0 3, changedFile 1 7]).flatMap (·.candidatesFor i) := by
  have hr : ∃ page, applySemanticLimits ⟨20, none, [0, 5], 1, 100⟩ [.ok [], .ok []] [changedFile 0 3, changedFile 1 7] =
      .ok page ∧ page.coveredUntilUsn = 7 := ⟨_, rfl, rfl⟩
  obtain ⟨page, hp, hc⟩ := hr
  refine ⟨page, hp, hc, (applySemanticLimits_honest (by decide) ?_ (by decide) hp).1⟩
  intro event he i hi
  simp only [mem_cons, not_mem_nil, or_false] at he
  rcases he with rfl | rfl
  · obtain rfl : i = 0 := by simpa [changedFile, affectedRoots] using hi
    exact ⟨0, rfl, by decide⟩
  · obtain rfl : i = 1 := by simpa [changedFile, affectedRoots] using hi
    exact ⟨5, rfl, by decide⟩

end Ame
