import Ame.Lib.Result
import Ame.Synchronization.Handoff
import Mathlib

/-!
# The hand-off delivers every intent once

Whatever the queue answers, what was enqueued and what is pending make up the retained plan, in its order. A call that is pushed
back without enqueueing anything was refused the first intent alone, and it asks no more often than the number of pending intents
can be halved.
-/

namespace Ame

open List Result

variable {Queue Reservation : Type} {ingress : LibraryChangeIngress Queue Reservation} {now : Int}
  {policy : LibraryChangeQueuePolicy} {plan : LibraryChangePlanningResult} {s t : ObserverHandoff Queue Reservation}

namespace ObserverHandoff

theorem pendingIntents_none (h : s.pending = none) : s.pendingIntents = [] := by rw [pendingIntents, h]; rfl

theorem pendingIntents_some (h : s.pending = some plan) : s.pendingIntents = plan.intents := by rw [pendingIntents, h]; rfl

theorem pendingIntents_congr (h : t.pending = s.pending) : t.pendingIntents = s.pendingIntents := by
  rw [pendingIntents, h]; rfl

/-- An attempt leaves the plan, and enqueues what it offers if it succeeds. -/
theorem attempt_spec {count : Nat} {res : Except ScanError LibraryChangeEnqueueReport}
    (h : attempt ingress now policy count s = (res, t)) :
    t.pending = s.pending ∧ t.attempts = s.attempts ++ [(s.pendingIntents.take count, res)] ∧
      ingress.enqueued t.queue = ingress.enqueued s.queue ++ if res.isOk then s.pendingIntents.take count else [] := by
  have hr : ingress.enqueued (reserved ingress (s.pendingIntents.take count) s).2 = ingress.enqueued s.queue := by
    unfold reserved
    split
    · rfl
    · exact ingress.reserve_enqueued _ _
  unfold attempt at h
  simp only at h
  split at h
  · next hn =>
    rw [hn] at hr
    obtain ⟨rfl, rfl⟩ := Prod.mk.inj h
    exact ⟨rfl, rfl, hr.trans (append_nil _).symm⟩
  · next hs =>
    rw [hs] at hr
    obtain ⟨rfl, rfl⟩ := Prod.mk.inj h
    exact ⟨rfl, rfl, by rw [ingress.enqueue_enqueued, hr]⟩

/-- A first part of the pending intents was enqueued and dropped from the plan, but not all of them. -/
def TakesFront (ingress : LibraryChangeIngress Queue Reservation) (s t : ObserverHandoff Queue Reservation) : Prop :=
  ∃ done rest, s.pendingIntents = done ++ rest ∧ done ≠ [] ∧ rest ≠ [] ∧
    t.pending = s.pending.map (fun plan => { plan with intents := rest }) ∧
    ingress.enqueued t.queue = ingress.enqueued s.queue ++ done

/-- Nothing has been enqueued since `s`. -/
structure Untouched (ingress : LibraryChangeIngress Queue Reservation) (s t : ObserverHandoff Queue Reservation) : Prop where
  pending : t.pending = s.pending
  enqueued : ingress.enqueued t.queue = ingress.enqueued s.queue

variable {u : ObserverHandoff Queue Reservation} {count : Nat} {e first : ScanError}

/-- An attempt that fails. -/
theorem Untouched.attempt (hs : Untouched ingress s u) (h : attempt ingress now policy count u = (.error e, t)) :
    Untouched ingress s t ∧ t.attempts = u.attempts ++ [(s.pendingIntents.take count, .error e)] := by
  obtain ⟨hp, ha, he⟩ := attempt_spec h
  refine ⟨⟨hp.trans hs.pending, he.trans ((append_nil _).trans hs.enqueued)⟩, ?_⟩
  rw [ha, pendingIntents_congr hs.pending]

/-- The first intent alone was refused. -/
def RefusesFirst (s t : ObserverHandoff Queue Reservation) (e : ScanError) : Prop :=
  ∃ first rest, s.pendingIntents = first :: rest ∧ ([first], .error e) ∈ t.attempts

theorem refusesFirst_of_attempts (hne : s.pendingIntents ≠ [])
    (h : t.attempts = u.attempts ++ [(s.pendingIntents.take 1, .error e)]) : RefusesFirst s t e := by
  obtain ⟨first, rest, hf⟩ := exists_cons_of_ne_nil hne
  exact ⟨first, rest, hf, by rw [h, hf]; exact mem_append_right _ (mem_singleton_self _)⟩

/-- The loop over ever smaller parts. -/
theorem persistFront_spec (hs : Untouched ingress s u) (hpo : 0 < count) (hlt : count < s.pendingIntents.length)
    (h : persistFront ingress now policy first count u = (e, t)) :
    (TakesFront ingress s t ∨ Untouched ingress s t ∧ (isBackpressure e = true → RefusesFirst s t e)) ∧
      t.attempts.length ≤ u.attempts.length + (Nat.log 2 count + 1) := by
  induction count using Nat.strong_induction_on generalizing u with
  | _ count ih =>
    unfold persistFront at h
    split at h
    · next report v hat =>
      obtain ⟨hp, ha, he⟩ := attempt_spec hat
      obtain ⟨rfl, rfl⟩ := Prod.mk.inj h
      refine ⟨.inl ⟨s.pendingIntents.take count, s.pendingIntents.drop count, (take_append_drop _ _).symm, ?_, ?_, ?_, ?_⟩, ?_⟩
      · exact ne_nil_of_length_pos (by rw [length_take]; omega)
      · exact ne_nil_of_length_pos (by rw [length_drop]; omega)
      · simp only [hp, hs.pending]
        cases hpl : s.pending with
        | none => simp [pendingIntents, hpl] at hlt
        | some plan => simp [pendingIntents, hpl]
      · rw [← hs.enqueued, ← pendingIntents_congr hs.pending]
        exact he
      · simp [ha]
    · next e' v hat =>
      obtain ⟨haf, ha⟩ := hs.attempt hat
      split at h
      · next hh =>
        rw [show max (count / 2) 1 = count / 2 by omega] at h
        have hlo : Nat.log 2 count = Nat.log 2 (count / 2) + 1 := Nat.log_of_one_lt_of_le (by decide) hh.2
        obtain ⟨hc, hl⟩ := ih (count / 2) (by omega) haf (by omega) (by omega) h
        rw [ha, length_append, length_singleton] at hl
        exact ⟨hc, by omega⟩
      · next hst =>
        obtain ⟨rfl, rfl⟩ := Prod.mk.inj h
        refine ⟨.inr ⟨haf, fun hb => ?_⟩, by simp [ha]⟩
        obtain rfl : count = 1 := Nat.le_antisymm (Nat.not_lt.mp fun hm => hst ⟨hb, hm⟩) hpo
        exact refusesFirst_of_attempts (ne_nil_of_length_pos (by omega)) ha

/-- What a call of `persist` does while the retained plan is valid: all of the pending intents are enqueued, or it reports an
error and some are left. -/
theorem persist_spec (hv : ∀ plan ∈ s.pending, validateLibraryChangePlan plan policy = .ok ())
    {res : Except ScanError Unit} (h : s.persist ingress now policy = (res, t)) :
    (res = .ok () ∧ t.pending = none ∧ ingress.enqueued t.queue = ingress.enqueued s.queue ++ s.pendingIntents ∨
      ∃ e, res = .error e ∧ s.pendingIntents ≠ [] ∧
        (TakesFront ingress s t ∨ Untouched ingress s t ∧ (isBackpressure e = true → RefusesFirst s t e))) ∧
      t.attempts.length ≤ Nat.log 2 s.pendingIntents.length + 1 := by
  have hs : Untouched ingress s { s with attempts := [] } := ⟨rfl, rfl⟩
  unfold ObserverHandoff.persist at h
  simp only at h
  split at h
  · next hn =>
    obtain ⟨rfl, rfl⟩ := Prod.mk.inj h
    exact ⟨.inl ⟨rfl, hn, by simp [pendingIntents, hn]⟩, Nat.zero_le _⟩
  next plan hp =>
  have hi := pendingIntents_some hp
  rw [hv plan hp] at h
  simp only at h
  split at h
  · next hz =>
    obtain ⟨rfl, rfl⟩ := Prod.mk.inj h
    exact ⟨.inl ⟨rfl, rfl, by simp [hi, eq_nil_of_length_eq_zero hz]⟩, Nat.zero_le _⟩
  next hne =>
  rw [← hi] at hne h
  have hso : s.pendingIntents ≠ [] := fun hni => hne (by simp [hni])
  split at h
  · next report u hat =>
    obtain ⟨-, ha, he⟩ := attempt_spec hat
    obtain ⟨rfl, rfl⟩ := Prod.mk.inj h
    refine ⟨.inl ⟨rfl, rfl, he.trans ?_⟩, by simp [ha]⟩
    exact congrArg (ingress.enqueued s.queue ++ ·) take_length
  · next e u hat =>
    obtain ⟨haf, ha⟩ := hs.attempt hat
    split at h
    · next hh =>
      rw [show max (s.pendingIntents.length / 2) 1 = s.pendingIntents.length / 2 by omega] at h
      have hlo : Nat.log 2 s.pendingIntents.length = Nat.log 2 (s.pendingIntents.length / 2) + 1 :=
        Nat.log_of_one_lt_of_le (by decide) hh.2
      generalize hf : persistFront ingress now policy e (s.pendingIntents.length / 2) u = front at h
      obtain ⟨hc, hl⟩ := persistFront_spec haf (by omega) (by omega) (hf.trans Prod.mk.eta.symm)
      obtain ⟨rfl, rfl⟩ := Prod.mk.inj h
      rw [ha, length_append, length_singleton] at hl
      exact ⟨.inr ⟨_, rfl, hso, hc⟩, hl.trans (by simp only [length_nil]; omega)⟩
    · next hst =>
      obtain ⟨rfl, rfl⟩ := Prod.mk.inj h
      refine ⟨.inr ⟨e, rfl, hso, .inr ⟨haf, fun hb => ?_⟩⟩, by simp [ha]⟩
      have ho : s.pendingIntents.length = 1 :=
        Nat.le_antisymm (Nat.not_lt.mp fun hm => hst ⟨hb, hm⟩) (Nat.pos_of_ne_zero hne)
      exact refusesFirst_of_attempts hso (ho ▸ ha)

/-! ## A sequence of calls -/

/-- What is known between the calls: what was enqueued and what is pending make up the plan. -/
def Delivers (ingress : LibraryChangeIngress Queue Reservation) (plan : LibraryChangePlanningResult)
    (start s : ObserverHandoff Queue Reservation) : Prop :=
  ∃ done, ingress.enqueued s.queue = ingress.enqueued start.queue ++ done ∧ done ++ s.pendingIntents = plan.intents ∧
    ∀ left ∈ s.pending, left = { plan with intents := s.pendingIntents }

variable {start : ObserverHandoff Queue Reservation}

/-- What is left of a valid plan is valid. -/
theorem Delivers.validate (h : Delivers ingress plan start s) (hv : validateLibraryChangePlan plan policy = .ok ()) :
    ∀ left ∈ s.pending, validateLibraryChangePlan left policy = .ok () := by
  obtain ⟨done, -, hpl, hl⟩ := h
  intro left hm
  rw [hl left hm]
  unfold validateLibraryChangePlan at hv ⊢
  split at hv
  · cases hv
  · next hp =>
    rw [if_neg hp]
    exact forM_ok_iff.mpr fun intent hin => forM_ok_iff.mp hv intent (hpl ▸ mem_append_right _ hin)

/-- One call keeps it. -/
theorem Delivers.persist (h : Delivers ingress plan start s) (hv : validateLibraryChangePlan plan policy = .ok ()) :
    Delivers ingress plan start (s.persist ingress now policy).2 := by
  obtain ⟨hc, -⟩ := persist_spec (h.validate hv) (Prod.mk.eta.symm : s.persist ingress now policy = (_, _))
  obtain ⟨done, he, hpl, hl⟩ := h
  rcases hc with ⟨-, hno, ha⟩ | ⟨e, -, -, ⟨taken, more, hs, hne, -, hr, ha⟩ | ⟨⟨hsa, hn⟩, -⟩⟩
  · exact ⟨done ++ s.pendingIntents, by rw [ha, he, append_assoc],
      by rw [pendingIntents_none hno, hpl, append_nil], by simp [hno]⟩
  · cases hp : s.pending with
    | none => simp [pendingIntents_none hp, hne] at hs
    | some left =>
      rw [hp, hl left hp] at hr
      refine ⟨done ++ taken, by rw [ha, he, append_assoc], ?_, by simp [hr, pendingIntents_some hr]⟩
      rw [pendingIntents_some hr, append_assoc, ← hs, hpl]
  · rw [Delivers, hsa, pendingIntents_congr hsa, hn]
    exact ⟨done, he, hpl, hl⟩

/-- What the caller learns from a call. -/
structure CallSpec (ingress : LibraryChangeIngress Queue Reservation) (s t : ObserverHandoff Queue Reservation)
    (result : Except ScanError Unit) : Prop where
  ok_iff : result = .ok () ↔ t.pendingIntents = []
  released : result = .ok () → t.pending = none
  refused : ∀ e, result = .error e → isBackpressure e = true → ingress.enqueued t.queue = ingress.enqueued s.queue →
    RefusesFirst s t e
  attempts : t.attempts.length ≤ Nat.log 2 s.pendingIntents.length + 1

/-- What a call of `persist` leaves. -/
theorem callSpec_persist (hv : ∀ plan ∈ s.pending, validateLibraryChangePlan plan policy = .ok ()) :
    CallSpec ingress s (s.persist ingress now policy).2 (s.persist ingress now policy).1 := by
  generalize h : s.persist ingress now policy = call
  obtain ⟨res, t⟩ := call
  obtain ⟨hc, hb⟩ := persist_spec hv h
  rcases hc with ⟨rfl, hno, -⟩ | ⟨e, rfl, hne, ⟨taken, more, hs, ht, hm, hre, ha⟩ | ⟨hsa, hr⟩⟩
  · exact ⟨⟨fun _ => pendingIntents_none hno, fun _ => rfl⟩, fun _ => hno, fun e he => (by cases he), hb⟩
  · refine ⟨⟨fun h => (by cases h), fun hni => ?_⟩, fun h => (by cases h), fun _ _ _ hn => ?_, hb⟩
    · cases hp : s.pending with
      | none => exact absurd (pendingIntents_none hp) hne
      | some left =>
        rw [hp] at hre
        exact absurd ((pendingIntents_some hre).symm.trans hni) hm
    · exact absurd (append_right_eq_self.mp (ha.symm.trans hn)) ht
  · refine ⟨⟨fun h => (by cases h), fun hni => ?_⟩, fun h => (by cases h), fun e' he hba _ => ?_, hb⟩
    · exact absurd ((pendingIntents_congr hsa.pending).symm.trans hni) hne
    · cases he
      exact hr hba

end ObserverHandoff

open ObserverHandoff

/-- The plan is valid under the policy of the call. -/
def HandoffCall.Admits (plan : LibraryChangePlanningResult) : HandoffCall → Prop
  | .persist _ policy => validateLibraryChangePlan plan policy = .ok ()
  | .releaseAdmission => True

/-- Along every sequence of calls the intents that were enqueued, followed by those that are pending, are the retained plan; and
every call of `persist` says truly whether anything is left, has been refused the first intent alone if it was pushed back and
enqueued nothing, and made at most logarithmically many attempts. -/
theorem handoff_delivers_once {start retained : ObserverHandoff Queue Reservation}
    (hretain : start.retain plan = .ok retained) (calls : List HandoffCall) (hcalls : ∀ call ∈ calls, call.Admits plan) :
    (∃ done, ingress.enqueued (calls.foldl (HandoffCall.apply ingress) retained).queue = ingress.enqueued start.queue ++ done ∧
      done ++ (calls.foldl (HandoffCall.apply ingress) retained).pendingIntents = plan.intents) ∧
    ∀ now policy, validateLibraryChangePlan plan policy = .ok () →
      CallSpec ingress (calls.foldl (HandoffCall.apply ingress) retained)
        ((calls.foldl (HandoffCall.apply ingress) retained).persist ingress now policy).2
        ((calls.foldl (HandoffCall.apply ingress) retained).persist ingress now policy).1 := by
  have hs : Delivers ingress plan start retained := by
    unfold ObserverHandoff.retain at hretain
    split at hretain
    · cases hretain
    · cases hretain
      exact ⟨[], (append_nil _).symm, rfl, fun left hm => (by cases hm; rfl)⟩
  have hr : Delivers ingress plan start (calls.foldl (HandoffCall.apply ingress) retained) := by
    refine List.foldlRecOn (motive := Delivers ingress plan start) calls _ hs fun s h call hm => ?_
    cases call with
    | persist now policy => exact h.persist (hcalls _ hm)
    | releaseAdmission => exact h
  exact ⟨hr.imp fun done h => ⟨h.1, h.2.1⟩, fun now policy hv => callSpec_persist (hr.validate hv)⟩

/-- A queue that takes one intent at a time. -/
def oneAtATime : LibraryChangeIngress (List LibraryChangeIntent) Unit where
  reserveChangeIngress _ q := (.ok (), q)
  tryEnqueueReservedChanges _ intents _ _ q :=
    if intents.length ≤ 1 then (.ok {}, (), q ++ intents)
    else (.error ⟨"change_queue_backpressure", "The durable change queue is full"⟩, (), q)
  enqueued := id
  reserve_enqueued _ _ := rfl
  enqueue_enqueued _ _ _ _ _ := by
    split
    · rfl
    · exact (append_nil _).symm

/-- A plan for some files. -/
def filesPlan (paths : List String) : LibraryChangePlanningResult :=
  ⟨"r", .initial, .updating, .pendingChanges, paths.map fun path =>
    ⟨"r", .initial, .reconcile, .path, path, none, .liveNotification, 0, 0, 1, 1, 1⟩, [], paths.length, 0⟩

/-- After one call for two files, with a queue that takes one intent at a time. -/
theorem handoff_delivers_once_halved : ∃ done s,
    s = HandoffCall.apply oneAtATime ⟨some (filesPlan ["a", "b"]), none, [], []⟩ (.persist 0 ⟨4096⟩) ∧
      oneAtATime.enqueued s.queue = [] ++ done ∧ done ++ s.pendingIntents = (filesPlan ["a", "b"]).intents := by
  have hr : retain (⟨none, none, [], []⟩ : ObserverHandoff (List LibraryChangeIntent) Unit) (filesPlan ["a", "b"]) =
    .ok ⟨some (filesPlan ["a", "b"]), none, [], []⟩ := rfl
  have ha : ∀ call ∈ [HandoffCall.persist 0 ⟨4096⟩], call.Admits (filesPlan ["a", "b"]) := by
    intro call hm
    rw [mem_singleton.mp hm]
    show validateLibraryChangePlan _ _ = _
    decide
  obtain ⟨⟨done, h⟩, -⟩ := @handoff_delivers_once _ _ oneAtATime _ _ _ hr _ ha
  exact ⟨done, _, rfl, h⟩

end Ame
