import Ame.Incremental.Pass
import Ame.Lib.Logged
import Mathlib

/-!
# What a pass does with its leases

A pass that ends without an error has settled each lease exactly once, with one exception: when a publication fails because the
namespace of the root cannot be trusted, only the changes that were ready are released. Those that had failed before, in the
preparation, the revalidation or a rebase, are forgotten with their lease.
-/

namespace Ame

open List Logged Logs PassEvent

/-! ## Events -/

/-- The lease that an event settles. -/
def PassEvent.settledLease : PassEvent → Option Lease
  | .completed lease | .retried lease | .deferred lease => some lease
  | _ => none

/-- The lease that an event takes. -/
def PassEvent.takenLease : PassEvent → Option Lease
  | .leased lease => some lease
  | _ => none

/-- The lease whose preparation failed in an event. -/
def PassEvent.failedLease : PassEvent → Option Lease
  | .preparationFailed lease => some lease
  | _ => none

section

variable (events : List PassEvent)

/-- The leases that are settled, in order. -/
def settled : List Lease := events.filterMap PassEvent.settledLease

/-- The leases that are taken, in order. -/
def taken : List Lease := events.filterMap PassEvent.takenLease

/-- The leases whose preparation failed, in order. -/
def failedPreparations : List Lease := events.filterMap PassEvent.failedLease

end

/-- The leases of changes that are to be retried. -/
def retryLeases (entries : List RetryEntry) : List Lease := entries.map (·.1.lease)

/-- The leases of prepared changes. -/
def readyLeases (ready : List PreparedLease) : List Lease := ready.map (·.leased.lease)

@[simp] theorem settled_append (a b : List PassEvent) : settled (a ++ b) = settled a ++ settled b := filterMap_append
@[simp] theorem taken_append (a b : List PassEvent) : taken (a ++ b) = taken a ++ taken b := filterMap_append
@[simp] theorem failedPreparations_append (a b : List PassEvent) :
    failedPreparations (a ++ b) = failedPreparations a ++ failedPreparations b := filterMap_append

@[simp] theorem retryLeases_append (a b : List RetryEntry) : retryLeases (a ++ b) = retryLeases a ++ retryLeases b :=
  map_append

@[simp] theorem retryLeases_retryAll (ready : List PreparedLease) (issue : LibraryChangeFailure) :
    retryLeases (retryAll ready issue) = readyLeases ready := by
  simp [retryLeases, retryAll, readyLeases, Function.comp_def]

/-- Events that settle a list of leases and do nothing else. -/
structure OnlySettles (leases : List Lease) (events : List PassEvent) : Prop where
  settled : settled events = leases
  taken : taken events = []
  failed : failedPreparations events = []
  trusted : PassEvent.namespaceFailed ∉ events

theorem onlySettles_map {α : Type} {f : Lease → PassEvent} (hs : ∀ l, (f l).settledLease = some l)
    (hta : ∀ l, (f l).takenLease = none) (hf : ∀ l, (f l).failedLease = none) (ht : ∀ l, f l ≠ .namespaceFailed)
    (items : List α) (lease : α → Lease) : OnlySettles (items.map lease) (items.map fun item => f (lease item)) := by
  refine ⟨?_, ?_, ?_, ?_⟩
  · simp [settled, filterMap_map, hs]
  · simp [taken, filterMap_map, hta]
  · simp [failedPreparations, filterMap_map, hf]
  · intro hm
    obtain ⟨item, -, hi⟩ := mem_map.mp hm
    exact ht _ hi

section

variable {α : Type} (items : List α) (lease : α → Lease)

theorem onlySettles_retried : OnlySettles (items.map lease) (items.map fun item => .retried (lease item)) :=
  onlySettles_map (f := .retried) (fun _ => rfl) (fun _ => rfl) (fun _ => rfl) (fun _ => nofun) items lease

theorem onlySettles_deferred : OnlySettles (items.map lease) (items.map fun item => .deferred (lease item)) :=
  onlySettles_map (f := .deferred) (fun _ => rfl) (fun _ => rfl) (fun _ => rfl) (fun _ => nofun) items lease

theorem onlySettles_completed : OnlySettles (items.map lease) (items.map fun item => .completed (lease item)) :=
  onlySettles_map (f := .completed) (fun _ => rfl) (fun _ => rfl) (fun _ => rfl) (fun _ => nofun) items lease

end

/-! ## What the parts of a pass note -/

section

variable {ω : Type} {ports : PassPorts ω}
  {α : Type} {before events evs : List PassEvent} {leases earlier : List Lease} {fin : PublicationEnd}
  {lc : List LeasedLibraryChange} {ctx : PassContext} {stale : Pass ω PublicationEnd}

/-- The log of a pass. -/
abbrev Notes {α : Type} (m : Pass ω α) (Q : α → List PassEvent → Prop) : Prop := Logs PassState.events m Q

/-- A call notes what it was told to. -/
theorem notes_callNoting (port : StateT ω (Except ScanError) α) (events : α → List PassEvent) :
    Notes (callNoting port events) fun answer evs => evs = events answer := by
  intro s a t h
  unfold callNoting at h
  cases hp : port s.world with
  | error e => rw [hp] at h; cases h
  | ok answer => rw [hp] at h; cases h; exact ⟨_, rfl, rfl⟩

theorem notes_call (port : StateT ω (Except ScanError) α) : Notes (call port) fun _ evs => evs = [] :=
  notes_callNoting port _

theorem notes_updateReport (f : IncrementalLibraryChangeReport → Except ScanError IncrementalLibraryChangeReport) :
    Notes (updateReport f : Pass ω Unit) fun _ evs => evs = [] := by
  refine silent fun s a t h => ?_
  unfold updateReport at h
  cases hr : f s.report with
  | error e => rw [hr] at h; cases h
  | ok report => rw [hr] at h; cases h; rfl

/-- Each retried lease is settled. -/
theorem notes_retryChanges (entries : List RetryEntry) :
    Notes (retryChanges ports entries) fun _ evs => OnlySettles (retryLeases entries) evs := by
  have hr : ∀ e ∈ entries, Notes (retryOne ports e) fun _ evs => evs = [.retried e.1.lease] := by
    intro e _
    refine (notes_callNoting _ _).bind fun out added ha => (notes_updateReport _).mono fun _ more hm => ?_
    rw [ha, hm, append_nil]
  refine (forM entries hr).mono fun _ evs he => ?_
  rw [he, ← map_eq_flatMap]
  exact onlySettles_retried entries (·.1.lease)

/-- Each deferred lease is settled. -/
theorem notes_deferPrepared (ready : List PreparedLease) :
    Notes (deferPrepared ports ready) fun _ evs => OnlySettles (readyLeases ready) evs := by
  have hr : ∀ prep ∈ ready, Notes (deferOne ports prep) fun _ evs =>
      evs = [.deferred prep.leased.lease] := by
    intro prep _
    refine (notes_callNoting _ _).bind fun out added ha => (notes_updateReport _).mono fun _ more hm => ?_
    rw [ha, hm, append_nil]
  refine (forM ready hr).mono fun _ evs he => ?_
  rw [he, ← map_eq_flatMap]
  exact onlySettles_deferred ready (·.leased.lease)

theorem notes_deferCancelledLeases (lc : List LeasedLibraryChange) :
    Notes (deferCancelledLeases ports lc) fun _ evs => OnlySettles (lc.map (·.lease)) evs := by
  refine (notes_callNoting _ _).bind fun outs added ha => ?_
  split
  · exact throw
  · refine (forM outs fun out _ => notes_updateReport _).mono fun _ more hm => ?_
    rw [ha, hm, flatMap_eq_nil_iff.mpr fun _ _ => rfl, append_nil]
    exact onlySettles_deferred lc (·.lease)

/-! ## Sorting -/

/-- Events that take and settle no lease. -/
structure Quiet (events : List PassEvent) : Prop where
  settled : settled events = []
  taken : taken events = []
  trusted : PassEvent.namespaceFailed ∉ events

theorem Quiet.append (hb : Quiet before) (h : Quiet evs) : Quiet (before ++ evs) := by
  refine ⟨?_, ?_, ?_⟩
  · rw [settled_append, hb.settled, h.settled, append_nil]
  · rw [taken_append, hb.taken, h.taken, append_nil]
  · intro hm
    exact (mem_append.mp hm).elim hb.trusted h.trusted

/-- What a loop over changes notes: nothing but the failures, which are the changes to be retried. -/
structure Sorts (leases : List Lease) (outcome : Option Sorted) (events : List PassEvent) : Prop extends Quiet events where
  failed : ∀ sorted, outcome = some sorted → failedPreparations events = retryLeases sorted.retries
  perm : ∀ sorted, outcome = some sorted → (readyLeases sorted.ready ++ retryLeases sorted.retries).Perm leases

theorem Sorts.cancelled (leases : List Lease) : Sorts leases none [] := ⟨⟨rfl, rfl, nofun⟩, nofun, nofun⟩

/-- A prepared change is kept. -/
theorem Sorts.keep {prep : PreparedLease} {rest : Option Sorted}
    (h : Sorts leases rest evs) : Sorts (prep.leased.lease :: leases) (rest.map (.keep prep)) evs := by
  refine ⟨h.toQuiet, ?_, ?_⟩
  · intro sorted hs
    obtain ⟨r, hr, rfl⟩ := Option.map_eq_some_iff.mp hs
    exact h.failed r hr
  · intro sorted hs
    obtain ⟨r, hr, rfl⟩ := Option.map_eq_some_iff.mp hs
    exact (h.perm r hr).cons _

/-- A failed one is noted and retried. -/
theorem Sorts.fail (e : RetryEntry) {rest : Option Sorted} (h : Sorts leases rest evs) :
    Sorts (e.1.lease :: leases) (rest.map (.fail e)) (.preparationFailed e.1.lease :: evs) := by
  refine ⟨⟨h.settled, h.taken, ?_⟩, ?_, ?_⟩
  · intro hm
    cases hm with
    | tail _ hm => exact h.trusted hm
  · intro sorted hs
    obtain ⟨r, hr, rfl⟩ := Option.map_eq_some_iff.mp hs
    exact congrArg (e.1.lease :: ·) (h.failed r hr)
  · intro sorted hs
    obtain ⟨r, hr, rfl⟩ := Option.map_eq_some_iff.mp hs
    exact perm_middle.trans ((h.perm r hr).cons _)

/-- A round notes its failure, and what it prepares is the change it was given. -/
def PreparesOwn {α : Type} (leasedOf : α → LeasedLibraryChange) (round : α → Pass ω RoundResult) : Prop :=
  ∀ item, Notes (round item) fun result events => events = preparationEvents (leasedOf item).lease result ∧
    ∀ prepared, result = .ok prepared → prepared.leased = leasedOf item

/-- Every lease is kept or to be retried. -/
theorem notes_sortChanges {leasedOf : α → LeasedLibraryChange} {round : α → Pass ω RoundResult}
    (hr : PreparesOwn leasedOf round) (items : List α) :
    Notes (sortChanges ports leasedOf round items) (Sorts (items.map fun item => (leasedOf item).lease)) := by
  induction items with
  | nil => exact pure ⟨⟨rfl, rfl, nofun⟩, by rintro _ ⟨⟩; rfl, by rintro _ ⟨⟩; exact List.Perm.nil⟩
  | cons item rest ih =>
    refine (notes_call _).after fun cancelled => ?_
    split
    · exact pure (Sorts.cancelled _)
    · refine (hr item).bind fun res evs he => ?_
      obtain ⟨rfl, how⟩ := he
      cases res with
      | ok prep =>
        refine ih.bind fun others evs ho => pure ?_
        rw [append_nil, map_cons, ← how prep rfl]
        exact ho.keep
      | error issue =>
        refine ih.bind fun others evs ho => pure ?_
        rw [append_nil]
        exact ho.fail (leasedOf item, issue)

theorem prepareRound_own : PreparesOwn id (prepareRound ports) := by
  intro lc
  refine (notes_callNoting (ports.prepareChange lc) _).bind fun answer evs he => pure ?_
  rw [he, append_nil]
  cases answer with
  | error issue => exact ⟨rfl, by rintro _ ⟨⟩⟩
  | ok fresh => exact ⟨rfl, by rintro _ ⟨⟩; rfl⟩

theorem revalidateRound_own : PreparesOwn (·.leased) (revalidateRound ports) := by
  intro prep
  refine (notes_callNoting (ports.revalidateChange prep.change) _).bind fun answer evs he => pure ?_
  rw [he, append_nil]
  cases answer with
  | error issue => exact ⟨rfl, by rintro _ ⟨⟩⟩
  | ok _ => exact ⟨rfl, by rintro _ ⟨⟩; rfl⟩

theorem rebaseRound_own : PreparesOwn (·.leased) (rebaseRound ports) := by
  intro prep
  refine (prepareRound_own prep.leased).bind ?_
  rintro res _ ⟨rfl, ho⟩
  cases res with
  | error issue => exact pure ⟨rfl, by rintro _ ⟨⟩⟩
  | ok fresh =>
    refine (revalidateRound_own fresh).mono ?_
    rintro again evs ⟨hs, ha⟩
    beta_reduce at hs ha
    rw [ho fresh rfl] at hs ha
    exact ⟨hs, ha⟩

/-- A refresh sorts the leases it is given. -/
theorem notes_refreshPreparation (ready : List PreparedLease) (previousRoot currentRoot : IncrementalCatalogRoot) :
    Notes (refreshPreparation ports ready previousRoot currentRoot) (Sorts (readyLeases ready)) := by
  refine (notes_call _).after fun sourcesMatch => (notes_call _).after fun cancelled => ?_
  split
  · exact pure (Sorts.cancelled _)
  · split
    · refine pure ⟨⟨rfl, rfl, nofun⟩, by rintro _ ⟨⟩; rfl, ?_⟩
      rintro _ ⟨⟩
      rw [retryLeases, map_nil, append_nil]
    · exact notes_sortChanges rebaseRound_own ready

/-! ## Publishing -/

/-- What a finished part of a pass has done with the leases: it has settled each once, or its last publication failed because
of the namespace and it has settled those that had not failed before, `earlier` ones before the part began. -/
def Settles (leases earlier : List Lease) (events : List PassEvent) : Prop :=
  (PassEvent.namespaceFailed ∉ events ∧ (settled events).Perm leases) ∨
    (PassEvent.namespaceFailed ∈ events ∧ (settled events ++ (earlier ++ failedPreparations events)).Perm leases)

/-- What the publication loop has done when it ends. -/
def Publishes (leases earlier : List Lease) : PublicationEnd → List PassEvent → Prop
  | .returned, events => taken events = [] ∧ Settles leases earlier events
  | .left retries, events =>
    taken events = [] ∧ PassEvent.namespaceFailed ∉ events ∧ (settled events ++ retryLeases retries).Perm leases

/-- Events that come before a part and settle nothing: their failures count as earlier ones. -/
theorem Settles.after (hb : Quiet before) (h : Settles leases (earlier ++ failedPreparations before) evs) :
    Settles leases earlier (before ++ evs) := by
  rcases h with ⟨hn, hp⟩ | ⟨hs, hp⟩
  · refine Or.inl ⟨?_, ?_⟩
    · intro hm
      exact (mem_append.mp hm).elim hb.trusted hn
    · rwa [settled_append, hb.settled]
  · refine Or.inr ⟨mem_append_right _ hs, ?_⟩
    rwa [settled_append, hb.settled, failedPreparations_append, ← append_assoc earlier]

theorem Publishes.after (hb : Quiet before) (h : Publishes leases (earlier ++ failedPreparations before) fin evs) :
    Publishes leases earlier fin (before ++ evs) := by
  cases fin with
  | returned =>
    refine ⟨?_, h.2.after hb⟩
    rw [taken_append, hb.taken, h.1, append_nil]
  | left retries =>
    obtain ⟨hn, hc, hp⟩ := h
    refine ⟨?_, ?_, ?_⟩
    · rw [taken_append, hb.taken, hn, append_nil]
    · intro hm
      exact (mem_append.mp hm).elim hb.trusted hc
    · rwa [settled_append, hb.settled]

theorem OnlySettles.settles (h : OnlySettles leases evs) : Settles leases earlier evs :=
  Or.inl ⟨h.trusted, by rw [h.settled]⟩

theorem notes_cancel (lc : List LeasedLibraryChange) (earlier : List Lease) :
    Notes (do deferCancelledLeases ports lc; return PublicationEnd.returned) (Publishes (lc.map (·.lease)) earlier) := by
  refine (notes_deferCancelledLeases lc).bind fun _ evs he => pure ?_
  rw [append_nil]
  exact ⟨he.taken, he.settles⟩

/-- The changes a turn of the loop works on are the leased ones. -/
def Sorted.Of (state : Sorted) (leased : List LeasedLibraryChange) : Prop :=
  (readyLeases state.ready ++ retryLeases state.retries).Perm (leased.map (·.lease))

section

variable {st : Sorted}

theorem Sorted.Of.retry_all (h : st.Of lc) (issue : LibraryChangeFailure) (earlier : List Lease) :
    Publishes (lc.map (·.lease)) earlier (.left (st.retries ++ retryAll st.ready issue)) [] := by
  refine ⟨rfl, nofun, ?_⟩
  rw [retryLeases_append, retryLeases_retryAll]
  have hc : (retryLeases st.retries ++ readyLeases st.ready).Perm _ := perm_append_comm
  exact hc.trans h

/-- Once the ready changes are settled, the others are left. -/
theorem Sorted.Of.leave (h : st.Of lc) (he : OnlySettles (readyLeases st.ready) evs)
    (earlier : List Lease) : Publishes (lc.map (·.lease)) earlier (.left st.retries) evs := by
  refine ⟨he.taken, he.trusted, ?_⟩
  rw [he.settled]
  exact h

/-- Every answer to a publication settles. -/
theorem notes_concludePublication (hof : st.Of ctx.leased) (publication : CatalogDeltaPublication)
    (hs : Notes stale (Publishes (ctx.leased.map (·.lease)) (retryLeases st.retries))) :
    Notes (concludePublication ports stale st publication) fun fin evs =>
      Publishes (ctx.leased.map (·.lease)) (retryLeases st.retries) fin
        (publicationEvents st.ready (.ok publication) ++ evs) := by
  refine (notes_updateReport _).after fun _ => ?_
  cases hst : publication.status <;> simp only [publicationEvents, hst, reduceCtorEq, if_true, if_false, nil_append]
  case applied =>
    refine (notes_updateReport _).after fun _ => pure ?_
    rw [append_nil]
    exact hof.leave (onlySettles_completed st.ready (·.leased.lease)) _
  case staleCatalogRevision => exact hs
  case rootScanInProgress | noPublishedCatalog =>
    refine (notes_deferPrepared st.ready).bind fun _ evs he => pure ?_
    rw [append_nil]
    exact hof.leave he _
  all_goals exact pure (hof.retry_all _ _)

/-- The only turn that does not settle every lease: the ready changes are retried and the others forgotten. -/
theorem notes_publishOnce (hof : st.Of ctx.leased) (root : IncrementalCatalogRoot)
    (hs : Notes stale (Publishes (ctx.leased.map (·.lease)) (retryLeases st.retries))) :
    Notes (publishOnce ports ctx stale root st) (Publishes (ctx.leased.map (·.lease)) (retryLeases st.retries)) := by
  unfold publishOnce
  split
  case isTrue hem =>
    have hno : OnlySettles (readyLeases st.ready) [] := by
      rw [List.isEmpty_iff.mp hem]
      exact ⟨rfl, rfl, rfl, nofun⟩
    exact pure (hof.leave hno _)
  case isFalse =>
    refine (notes_call _).after fun cancelled => ?_
    split
    · exact notes_cancel ctx.leased _
    · refine (notes_call _).after fun _ => (notes_callNoting _ _).bind fun answer noted hn => ?_
      subst hn
      cases answer with
      | ok publication => exact notes_concludePublication hof publication hs
      | error error =>
        dsimp only
        split
        case isTrue hns =>
          have hn : publicationEvents st.ready (.error error) = [.namespaceFailed] := if_pos hns
          rw [hn]
          refine (notes_retryChanges _).bind fun _ evs he => pure ⟨?_, Or.inr ⟨mem_cons_self, ?_⟩⟩
          · rw [append_nil]
            exact he.taken
          · rw [append_nil, settled_append, he.settled, failedPreparations_append, he.failed, retryLeases_retryAll]
            have hno : failedPreparations [.namespaceFailed] = [] := rfl
            rw [hno, append_nil, append_nil]
            exact hof
        case isFalse => exact throw

end

/-- A rebase settles if the next try does. -/
theorem notes_rebase {again : IncrementalCatalogRoot → Sorted → Pass ω PublicationEnd} {st : Sorted}
    (hof : st.Of ctx.leased) (root : IncrementalCatalogRoot) (ha : ∀ latest next, next.Of ctx.leased →
      Notes (again latest next) (Publishes (ctx.leased.map (·.lease)) (retryLeases next.retries))) :
    Notes (rebase ports ctx again root st) (Publishes (ctx.leased.map (·.lease)) (retryLeases st.retries)) := by
  refine (notes_call _).after fun loaded => ?_
  cases loaded with
  | none => exact pure (hof.retry_all _ _)
  | some latest =>
    dsimp only
    split
    · exact pure (hof.retry_all _ _)
    · refine (notes_refreshPreparation st.ready root latest).bind fun refreshed before hb => ?_
      cases refreshed with
      | none =>
        refine (notes_cancel ctx.leased (retryLeases st.retries ++ failedPreparations before)).mono fun fin evs he => ?_
        exact he.after hb.toQuiet
      | some refreshed =>
        have hn : Sorted.Of ⟨refreshed.ready, st.retries ++ refreshed.retries⟩ ctx.leased := by
          have hp := (hb.perm refreshed rfl).append_right (retryLeases st.retries)
          refine List.Perm.trans ?_ (hp.trans hof)
          rw [retryLeases_append, append_assoc]
          exact perm_append_comm.append_left _
        refine (ha latest _ hn).mono fun fin evs he => ?_
        refine Publishes.after hb.toQuiet ?_
        rwa [hb.failed refreshed rfl, ← retryLeases_append]

/-- The loop, by induction on the rebase attempts that are left. -/
theorem notes_publishReady (ctx : PassContext) (attempts : Nat) (root : IncrementalCatalogRoot) (st : Sorted)
    (hof : st.Of ctx.leased) :
    Notes (publishReady ports ctx attempts root st) (Publishes (ctx.leased.map (·.lease)) (retryLeases st.retries)) := by
  induction attempts generalizing root st with
  | zero => exact notes_publishOnce hof root (pure (hof.retry_all _ _))
  | succ attempts ih =>
    exact notes_publishOnce hof root (notes_rebase hof root fun latest next hn => ih latest next hn)

/-! ## The pass -/

/-- What a part of a pass does that begins with nothing settled and nothing failed. -/
def SettlesAll (leases : List Lease) (events : List PassEvent) : Prop := taken events = [] ∧ Settles leases [] events

theorem OnlySettles.settlesAll (h : OnlySettles leases evs) : SettlesAll leases evs :=
  ⟨h.taken, h.settles⟩

/-- The end settles what is left. -/
theorem notes_finishPublication (h : Publishes leases [] fin before) :
    Notes (finishPublication ports fin) fun _ evs => SettlesAll leases (before ++ evs) := by
  cases fin with
  | returned =>
    refine pure ?_
    rw [append_nil]
    exact h
  | left retries =>
    obtain ⟨hta, ht, hp⟩ := h
    refine (notes_retryChanges retries).mono fun _ evs he => ⟨?_, Or.inl ⟨?_, ?_⟩⟩
    · rw [taken_append, hta, he.taken, append_nil]
    · intro hm
      exact (mem_append.mp hm).elim ht he.trusted
    · rwa [settled_append, he.settled]

/-- A cancelled loop: every leased change is deferred, also those that failed in it. -/
theorem notes_cancelled (hb : Quiet before) :
    Notes (deferCancelledLeases ports lc) fun _ evs => SettlesAll (lc.map (·.lease)) (before ++ evs) := by
  refine (notes_deferCancelledLeases lc).mono fun _ evs he => ⟨?_, he.settles.after hb⟩
  rw [taken_append, hb.taken, he.taken, append_nil]

/-- All leases of a batch are settled. -/
theorem notes_prepareAndPublish (ctx : PassContext) (root : IncrementalCatalogRoot) :
    Notes (prepareAndPublish ports ctx root) fun _ evs => SettlesAll (ctx.leased.map (·.lease)) evs := by
  refine (notes_sortChanges prepareRound_own ctx.leased).bind fun prep first hf => ?_
  cases prep with
  | none => exact notes_cancelled hf.toQuiet
  | some prep =>
    refine (notes_sortChanges revalidateRound_own prep.ready).bind fun revalidated second hs => ?_
    have hb : Quiet (first ++ second) := hf.toQuiet.append hs.toQuiet
    simp only [← append_assoc]
    cases revalidated with
    | none => exact notes_cancelled hb
    | some revalidated =>
      have hof : Sorted.Of ⟨revalidated.ready, prep.retries ++ revalidated.retries⟩ ctx.leased := by
        have hpe := (hs.perm revalidated rfl).append_right (retryLeases prep.retries)
        refine List.Perm.trans ?_ (hpe.trans (hf.perm prep rfl))
        rw [retryLeases_append, append_assoc]
        exact perm_append_comm.append_left _
      refine (notes_publishReady ctx _ root _ hof).bind fun fin third ht => ?_
      have hp : Publishes (ctx.leased.map (·.lease)) [] fin (first ++ second ++ third) := by
        refine Publishes.after hb ?_
        rwa [failedPreparations_append, hf.failed prep rfl, hs.failed revalidated rfl, ← retryLeases_append]
      refine (notes_finishPublication hp).mono fun _ evs he => ?_
      rwa [← append_assoc]

section

variable (sel : PathLeaseSelection) (root : IncrementalCatalogRoot) (rootId : String) (gen : LibraryRootGeneration)

theorem notes_expectedIdentity : Notes (expectedIdentity ports sel root rootId gen) fun _ evs => evs = [] := by
  unfold expectedIdentity
  split
  · refine (notes_call _).after fun loaded => ?_
    cases loaded with
    | none => exact throw
    | some ident =>
      dsimp only
      split <;> exact pure rfl
  · split <;> exact pure rfl

theorem notes_processLeased (canPublishDuringScan : Bool) (lc : List LeasedLibraryChange) :
    Notes (processLeased ports sel root rootId gen canPublishDuringScan lc) fun _ evs =>
      SettlesAll (lc.map (·.lease)) evs := by
  have hr : ∀ issue, Notes (retryChanges ports (lc.map (·, issue))) fun _ evs =>
      SettlesAll (lc.map (·.lease)) evs := by
    intro issue
    refine (notes_retryChanges _).mono fun _ evs he => ?_
    have hl : retryLeases (lc.map (·, issue)) = lc.map (·.lease) := by
      simp [retryLeases, Function.comp_def]
    rw [hl] at he
    exact he.settlesAll
  refine (notes_expectedIdentity sel root rootId gen).after fun answer => ?_
  cases answer with
  | error issue => exact hr issue
  | ok ident =>
    refine (notes_call _).after fun opened => ?_
    cases opened with
    | error error => exact hr _
    | ok _ =>
      refine (notes_call _).after fun cancelled => ?_
      split
      · exact (notes_deferCancelledLeases lc).mono fun _ evs he => he.settlesAll
      · exact notes_prepareAndPublish _ root

end

/-- What a whole pass does: it takes each lease once and settles what it takes. -/
def PassSettles (events : List PassEvent) : Prop := (taken events).Nodup ∧ Settles (taken events) [] events

theorem PassSettles.nothing : PassSettles [] := ⟨nodup_nil, Or.inl ⟨nofun, List.Perm.nil⟩⟩

/-- A batch that is taken and then settled. -/
theorem SettlesAll.passSettles (hn : leases.Nodup) (h : SettlesAll leases evs) : PassSettles (leases.map .leased ++ evs) := by
  have ht : taken (leases.map .leased ++ evs) = leases := by
    rw [taken_append, h.1]
    simp [taken, filterMap_map, takenLease, Function.comp_def]
  have hs : settled (leases.map .leased) = [] := by
    simp [settled, settledLease]
  have hf : failedPreparations (leases.map .leased) = [] := by
    simp [failedPreparations, failedLease]
  have htr : namespaceFailed ∉ leases.map .leased := by simp
  refine ⟨by rwa [ht], ?_⟩
  rw [ht]
  rcases h.2 with ⟨hno, hp⟩ | ⟨hso, hp⟩
  · refine Or.inl ⟨?_, ?_⟩
    · intro hm
      exact (mem_append.mp hm).elim htr hno
    · rwa [settled_append, hs]
  · refine Or.inr ⟨mem_append_right _ hso, ?_⟩
    rwa [settled_append, hs, failedPreparations_append, hf]

/-- No lease is given twice. -/
theorem LeasedBatch.leases_nodup (batch : LeasedBatch) : (batch.changes.map (·.lease)).Nodup := by
  refine List.Nodup.of_map Prod.fst ?_
  rw [map_map]
  exact batch.distinct

/-- What is leased is settled. -/
theorem notes_leaseAndProcess (sel : PathLeaseSelection) (root : IncrementalCatalogRoot) (rootId : String)
    (gen : LibraryRootGeneration) (canPublishDuringScan : Bool) :
    Notes (leaseAndProcess ports sel root rootId gen canPublishDuringScan) fun _ evs =>
      PassSettles evs := by
  refine (notes_callNoting _ _).bind fun batch noted hn => (notes_updateReport _).after fun _ => ?_
  have hno : batch.changes.map (fun change => leased change.lease) =
      (batch.changes.map (·.lease)).map .leased := by rw [map_map]; rfl
  rw [hn, hno]
  split
  case isTrue hem =>
    rw [List.isEmpty_iff.mp hem]
    exact pure PassSettles.nothing
  case isFalse =>
    refine (notes_processLeased sel root rootId gen canPublishDuringScan batch.changes).mono ?_
    intro _ evs he
    exact he.passSettles batch.leases_nodup

theorem notes_processReadyLibraryChanges (rootId : String) (gen : LibraryRootGeneration)
    (sel : PathLeaseSelection) (policy : LibraryChangeQueuePolicy) :
    Notes (processReadyLibraryChanges ports rootId gen sel policy) fun _ evs => PassSettles evs := by
  have hva : Notes (monadLift (validateRequest rootId policy) : Pass ω Unit) fun _ evs => evs = [] := by
    refine silent fun s a t h => ?_
    cases hv : validateRequest rootId policy with
    | error error => rw [hv] at h; cases h
    | ok _ => rw [hv] at h; cases h; rfl
  refine hva.after fun _ => (notes_call _).after fun cancelled => ?_
  split
  · exact pure PassSettles.nothing
  · refine (notes_call _).after fun loaded => ?_
    cases loaded with
    | none => exact pure PassSettles.nothing
    | some root =>
      refine (notes_updateReport _).after fun _ => ?_
      dsimp only
      split
      · refine (notes_call _).after fun cancelled => ?_
        split
        · exact pure PassSettles.nothing
        · exact notes_leaseAndProcess sel root rootId gen _
      · exact pure PassSettles.nothing

end

/-! ## The result -/

theorem mem_taken {lease : Lease} {evs : List PassEvent} : lease ∈ taken evs ↔ PassEvent.leased lease ∈ evs := by
  constructor
  · intro hm
    obtain ⟨ev, he, ht⟩ := mem_filterMap.mp hm
    cases ev with
    | leased o => cases ht; exact he
    | _ => cases ht
  · intro hm
    exact mem_filterMap.mpr ⟨_, hm, rfl⟩

theorem mem_failedPreparations {lease : Lease} {evs : List PassEvent} :
    lease ∈ failedPreparations evs ↔ PassEvent.preparationFailed lease ∈ evs := by
  constructor
  · intro hm
    obtain ⟨ev, he, hf⟩ := mem_filterMap.mp hm
    cases ev with
    | preparationFailed o => cases hf; exact he
    | _ => cases hf
  · intro hm
    exact mem_filterMap.mpr ⟨_, hm, rfl⟩

/-- The leases that are settled exactly once are those that had not failed before the namespace did. -/
theorem PassSettles.count_iff {evs : List PassEvent} (h : PassSettles evs) :
    (∀ lease ∈ taken evs, (settled evs).count lease = 1) ↔
      ¬ (namespaceFailed ∈ evs ∧ ∃ lease, lease ∈ failedPreparations evs) := by
  obtain ⟨hn, ⟨hno, hp⟩ | ⟨hso, hp⟩⟩ := h
  · refine ⟨fun _ hb => hno hb.1, ?_⟩
    intro _ lease hl
    rw [hp.count_eq]
    exact count_eq_one_of_mem hn hl
  · rw [nil_append] at hp
    have ha : (settled evs ++ failedPreparations evs).Nodup := hp.nodup_iff.mpr hn
    constructor
    · rintro hal ⟨-, lease, hf⟩
      have ht : lease ∈ taken evs := hp.subset (mem_append_right _ hf)
      have hs : lease ∈ settled evs := count_pos_iff.mp (by rw [hal lease ht]; exact Nat.one_pos)
      exact (nodup_append'.mp ha).2.2 hs hf
    · intro hnot lease hl
      have he : failedPreparations evs = [] := by
        refine eq_nil_iff_forall_not_mem.mpr ?_
        intro o ho
        exact hnot ⟨hso, o, ho⟩
      rw [he, append_nil] at hp
      rw [hp.count_eq]
      exact count_eq_one_of_mem hn hl

/-- A pass that ends without an error has settled every lease it took exactly once, unless a publication of it failed because
of the namespace of the root after the preparation of a leased change had failed. -/
theorem leases_settled_once_iff {ω : Type} (ports : PassPorts ω) (rootId : String) (rootGeneration : LibraryRootGeneration)
    (selection : PathLeaseSelection) (policy : LibraryChangeQueuePolicy) (initial final : PassState ω)
    (hinitial : initial.events = [])
    (hrun : processReadyLibraryChanges ports rootId rootGeneration selection policy initial = .ok ((), final)) :
    (∀ lease, .leased lease ∈ final.events → (final.events.filterMap PassEvent.settledLease).count lease = 1) ↔
      ¬ (.namespaceFailed ∈ final.events ∧ ∃ lease, .preparationFailed lease ∈ final.events) := by
  obtain ⟨events, he, hp⟩ :=
    notes_processReadyLibraryChanges rootId rootGeneration selection policy initial () final hrun
  rw [hinitial] at he
  rw [he]
  simp only [← mem_taken, ← mem_failedPreparations]
  exact hp.count_iff

/-- A leased change of a path. -/
def leasedPath (id : Nat) (path : String) : LeasedLibraryChange :=
  ⟨id, ⟨"root", .initial, .reconcile, .path, path, none, .liveNotification, 0, 0, 1, 1, 1⟩, none, none, [], 1⟩

/-- A repository with two ready changes, of which the second cannot be prepared; the publication is as given. -/
def twoChangePorts (publication : Except ScanError CatalogDeltaPublication) : PassPorts Unit where
  cancellationRequested := return false
  loadIncrementalCatalogRoot _ := return some ⟨"root", "/photos", .initial, some "scan", false, 7, none, some ⟨"inode", "1"⟩⟩
  leasePathLibraryChanges _ _ _ := return ⟨[leasedPath 1 "a.jpg", leasedPath 2 "b.jpg"], by decide⟩
  loadCandidateRootIdentity _ _ := return none
  openNamespace _ _ := return .ok ()
  prepareChange leased :=
    return if leased.id = 1 then .ok ⟨⟨⟨leased.id, leased.leaseGeneration, none⟩, [], [], []⟩, rfl⟩
      else .error ⟨"file_metadata_unavailable", "The file cannot be read"⟩
  revalidateChange _ := return .ok ()
  preparationIsCurrent _ _ _ := return true
  requireRootIdentity _ := return ()
  publishCatalogDelta _ := return publication
  retryLibraryChange _ _ := return .applied
  deferLibraryChange _ := return .applied
  deferLibraryChanges leases := return leases.map fun _ => .applied

/-- The state a pass begins in. -/
def freshPass : PassState Unit := ⟨(), {}, []⟩

/-- A published delta: the change that was prepared is completed and the other retried. -/
theorem leases_settled_once_iff_published :
    ∃ final, processReadyLibraryChanges (twoChangePorts (.ok ⟨.applied, 8, 0, 1⟩)) "root" .initial .any ⟨100⟩ freshPass =
        .ok ((), final) ∧
      (∀ lease, .leased lease ∈ final.events → (final.events.filterMap PassEvent.settledLease).count lease = 1) := by
  have hr : processReadyLibraryChanges (twoChangePorts (.ok ⟨.applied, 8, 0, 1⟩)) "root" .initial .any ⟨100⟩ freshPass =
      .ok ((), ⟨(), ⟨2, 1, 1, 0, 0, 0, 8⟩, [.leased (1, 1), .leased (2, 1), .preparationFailed (2, 1), .completed (1, 1),
        .retried (2, 1)]⟩) := by decide +kernel
  exact ⟨_, hr, (leases_settled_once_iff _ _ _ _ _ _ _ rfl hr).mpr (by simp)⟩

/-- A namespace failure: the change that was prepared is retried, the other keeps its lease. -/
theorem failed_preparation_keeps_lease :
    ∃ final, processReadyLibraryChanges (twoChangePorts (.error ⟨"root_publication_namespace_conflict", ""⟩)) "root" .initial
        .any ⟨100⟩ freshPass = .ok ((), final) ∧
      ¬ ∀ lease, .leased lease ∈ final.events → (final.events.filterMap PassEvent.settledLease).count lease = 1 := by
  refine ⟨⟨(), ⟨2, 0, 1, 0, 0, 0, 7⟩, [.leased (1, 1), .leased (2, 1), .preparationFailed (2, 1), .namespaceFailed,
    .retried (1, 1)]⟩, by decide +kernel, ?_⟩
  intro ha
  exact absurd (ha (2, 1) (by decide)) (by decide)

end Ame
