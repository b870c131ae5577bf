import Ame.Catalog.WriteAdmission
import Mathlib

/-!
# Writes are admitted by priority, and in order within a priority

The queues hold the registered writes in the order in which they came, so that a write can be admitted exactly when no permit is
out and it is the least of all registered writes by priority and age. Every step keeps this.
-/

namespace Ame

open List WriteSystem

/-- What holds of the admission at all times: at most one permit is out, and the queues are the registered writes of their
priority, the oldest first. -/
structure WriteSystem.Ordered (s : WriteSystem) : Prop where
  single : s.permits ≤ 1
  active : s.state.isActive = decide (s.permits = 1)
  queues : ∀ p, s.state.waiting p = (s.writes.filter (·.priority = p)).map (·.token)
  order : s.writes.Pairwise (·.token < ·.token)
  fresh : ∀ w ∈ s.writes, w.token < s.nextToken

/-- The write goes before the other one: it is of a higher priority, or of the same one and not younger. -/
def PendingWrite.Precedes (write other : PendingWrite) : Prop :=
  write.priority < other.priority ∨ write.priority = other.priority ∧ write.token ≤ other.token

/-- A permit is given out only when no other is, and to the first of the registered writes. -/
def WriteSystem.First (s : WriteSystem) (write : PendingWrite) : Prop :=
  write ∈ s.writes ∧ s.permits = 0 ∧ ∀ other ∈ s.writes, write.Precedes other

namespace WriteSystem.Ordered

variable {s : WriteSystem} {w o : PendingWrite} (h : s.Ordered)
include h

theorem eq_of_token (hw : w ∈ s.writes) (ho : o ∈ s.writes) (heq : w.token = o.token) : w = o := by
  have hd : (s.writes.map (·.token)).Nodup := pairwise_map.mpr (h.order.imp ne_of_lt)
  exact inj_on_of_nodup_map hd hw ho heq

/-- The state is idle when no permit is out. -/
theorem idle_iff : s.state.isActive = false ↔ s.permits = 0 := by
  have := h.single
  rw [h.active, decide_eq_false_iff_not]
  omega

theorem mem_waiting (hw : w ∈ s.writes) : w.token ∈ s.state.waiting w.priority := by
  rw [h.queues]
  exact mem_map_of_mem (mem_filter.mpr ⟨hw, decide_eq_true rfl⟩)

theorem waiting_eq_nil {p : WritePriority} : s.state.waiting p = [] ↔ ∀ w ∈ s.writes, w.priority ≠ p := by
  rw [h.queues]
  simp

/-- A queue is in the order of arrival. -/
theorem waiting_ascending (p : WritePriority) : (s.state.waiting p).Pairwise (· < ·) := by
  rw [h.queues, pairwise_map]
  exact h.order.filter _

/-- The first of a queue is the oldest write of its priority. -/
theorem head_waiting (hw : w ∈ s.writes) : (s.state.waiting w.priority).head? = some w.token ↔
    ∀ o ∈ s.writes, o.priority = w.priority → w.token ≤ o.token := by
  have ha := h.waiting_ascending w.priority
  constructor
  · intro hh o ho heq
    have hm := h.mem_waiting ho
    obtain ⟨rest, hr⟩ := head?_eq_some_iff.mp hh
    rw [heq, hr] at hm
    rw [hr] at ha
    rcases mem_cons.mp hm with hs | hm
    · exact hs.ge
    · exact (rel_of_pairwise_cons ha hm).le
  · intro hle
    have hm := h.mem_waiting hw
    cases hq : s.state.waiting w.priority with
    | nil => simp [hq] at hm
    | cons t rest =>
      have ht : t ∈ s.state.waiting w.priority := by simp [hq]
      rw [hq] at hm ha
      rcases mem_cons.mp hm with hs | hr
      · simp [hs]
      · rw [h.queues] at ht
        obtain ⟨o, ho, rfl⟩ := mem_map.mp ht
        obtain ⟨ho, heq⟩ := mem_filter.mp ho
        exact absurd (rel_of_pairwise_cons ha hr) (hle o ho (of_decide_eq_true heq)).not_gt

/-- A registered write can be admitted exactly when it is the first. -/
theorem canAdmit_iff (hw : w ∈ s.writes) : w.canAdmit s.state = true ↔ s.First w := by
  unfold PendingWrite.canAdmit
  rw [Bool.and_eq_true, Bool.and_eq_true, Bool.not_eq_true', h.idle_iff, decide_eq_true_eq, beq_iff_eq, h.head_waiting hw]
  constructor
  · rintro ⟨⟨hi, he⟩, hle⟩
    refine ⟨hw, hi, fun o ho => ?_⟩
    rcases lt_trichotomy w.priority o.priority with hlt | heq | hgt
    · exact Or.inl hlt
    · exact Or.inr ⟨heq, hle o ho heq.symm⟩
    · exact absurd rfl (h.waiting_eq_nil.mp (he _ hgt) o ho)
  · rintro ⟨-, hi, hf⟩
    refine ⟨⟨hi, fun p hp => h.waiting_eq_nil.mpr fun o ho heq => ?_⟩, fun o ho heq => ?_⟩
    · rcases hf o ho with hlt | ⟨hs, -⟩
      · exact absurd (heq ▸ hlt) hp.not_gt
      · exact absurd (heq ▸ hs) hp.ne'
    · rcases hf o ho with hlt | ⟨-, hle⟩
      · exact absurd hlt heq.le.not_gt
      · exact hle

/-- One registered write is the first, if there are any and no permit is out. -/
theorem exists_unique_first (hi : s.permits = 0) (hne : s.writes ≠ []) : ∃! w, s.First w := by
  obtain ⟨w, hw, hm⟩ := s.writes.toFinset.exists_min_image (fun w => toLex (w.priority, w.token))
    (List.toFinset_nonempty_iff _ |>.mpr hne)
  rw [mem_toFinset] at hw
  have hf : s.First w := by
    refine ⟨hw, hi, fun o ho => ?_⟩
    exact Prod.Lex.toLex_le_toLex.mp (hm o (mem_toFinset.mpr ho))
  refine ⟨w, hf, fun o ⟨ho, _, hot⟩ => ?_⟩
  rcases hot w hw, hf.2.2 o ho with ⟨hlt | ⟨heq, hle⟩, hlt' | ⟨heq', hle'⟩⟩
  · exact absurd hlt hlt'.not_gt
  · exact absurd hlt heq'.not_gt
  · exact absurd hlt' heq.not_gt
  · exact h.eq_of_token ho hw (le_antisymm hle hle')

/-- The queues without one write. -/
theorem queues_remove (hw : w ∈ s.writes) (p : WritePriority) :
    Function.update s.state.waiting w.priority ((s.state.waiting w.priority).filter (· != w.token)) p =
      ((s.writes.filter (· != w)).filter (·.priority = p)).map (·.token) := by
  have hs (o : PendingWrite) (ho : o ∈ s.writes) : (o.token != w.token) = (o != w) := by
    by_cases heq : o = w
    · simp [heq]
    · have hne : o.token ≠ w.token := fun ht => heq (h.eq_of_token ho hw ht)
      rw [bne_iff_ne.mpr hne, bne_iff_ne.mpr heq]
  by_cases hp : p = w.priority
  · subst hp
    rw [Function.update_self, h.queues, filter_map, filter_filter, filter_filter]
    exact congrArg _ (filter_congr fun o ho => by rw [Function.comp_apply, hs o ho, Bool.and_comm])
  · rw [Function.update_of_ne hp, h.queues, filter_filter]
    congr 1
    refine filter_congr fun o ho => ?_
    by_cases heq : o = w
    · simp [heq, Ne.symm hp]
    · simp [heq]

theorem tail_waiting (hh : (s.state.waiting w.priority).head? = some w.token) :
    (s.state.waiting w.priority).tail = (s.state.waiting w.priority).filter (· != w.token) := by
  have ha := h.waiting_ascending w.priority
  obtain ⟨rest, hr⟩ := head?_eq_some_iff.mp hh
  rw [hr] at ha ⊢
  have hk : rest.filter (· != w.token) = rest := filter_eq_self.mpr fun t ht => by
    simpa using (rel_of_pairwise_cons ha ht).ne'
  simp [hk]

/-- A permit without waiting is given only if no write of the same or a higher priority is registered. -/
theorem tryAcquirePriority_some {priority : WritePriority} {preempt : Option Nat} {st : SqliteWriteAdmissionState}
    (heq : s.state.tryAcquirePriority priority preempt = some st) :
    s.permits = 0 ∧ (∀ w ∈ s.writes, priority < w.priority) ∧ s.state.activate priority preempt = st := by
  unfold SqliteWriteAdmissionState.tryAcquirePriority at heq
  split at heq
  · cases heq
  next hf =>
  obtain ⟨hi, he⟩ := not_or.mp hf
  refine ⟨h.idle_iff.mp (Bool.not_eq_true _ ▸ hi), fun w hw => lt_of_not_ge fun hle => he ⟨_, hle, ?_⟩, Option.some.inj heq⟩
  exact ne_nil_of_mem (h.mem_waiting hw)

/-- The order is kept when a permit is given out, and with it at most one write is taken from the queues. -/
theorem grant {st : SqliteWriteAdmissionState} {writes : List PendingWrite} (hi : s.permits = 0) (ha : st.isActive = true)
    (hs : writes.Sublist s.writes) (hq : ∀ p, st.waiting p = (writes.filter (·.priority = p)).map (·.token)) :
    WriteSystem.Ordered { s with state := st, writes := writes, permits := s.permits + 1 } where
  single := by simp [hi]
  active := by simp [hi, ha]
  queues := hq
  order := h.order.sublist hs
  fresh := fun w hw => h.fresh w (hs.subset hw)

/-- Every step keeps the order. -/
theorem apply (call : WriteCall) : (s.apply call).1.Ordered := by
  cases call with
  | register priority isReserved =>
    refine ⟨h.single, h.active, fun p => ?_, ?_, fun w hw => ?_⟩
    · by_cases hp : p = priority
      · simp [WriteSystem.apply, SqliteWriteAdmissionState.register, hp, h.queues]
      · simp [WriteSystem.apply, SqliteWriteAdmissionState.register, hp, Ne.symm hp, h.queues]
    · simpa [WriteSystem.apply, pairwise_append] using ⟨h.order, h.fresh⟩
    · rcases mem_append.mp hw with hw | hw
      · exact Nat.lt_succ_of_lt (h.fresh w hw)
      · rw [mem_singleton.mp hw]
        exact Nat.lt_succ_self _
  | look write preempt =>
    simp only [WriteSystem.apply]
    split
    · next ha =>
      obtain ⟨hw, -, hc⟩ := ha
      have hh := beq_iff_eq.mp (Bool.and_eq_true_iff.mp hc).2
      refine h.grant ((h.canAdmit_iff hw).mp hc).2.1 rfl filter_sublist fun p => ?_
      rw [← h.queues_remove hw, ← h.tail_waiting hh]
      rfl
    · exact h
  | attempt write =>
    simp only [WriteSystem.apply]
    split
    · next ha => exact h.grant ((h.canAdmit_iff ha.1).mp ha.2.2).2.1 rfl (List.Sublist.refl _) h.queues
    · exact h
  | tryAcquire priority preempt =>
    simp only [WriteSystem.apply]
    split
    · next st heq =>
      obtain ⟨hi, -, rfl⟩ := h.tryAcquirePriority_some heq
      exact h.grant hi rfl (List.Sublist.refl _) h.queues
    · exact h
  | dropPermit =>
    simp only [WriteSystem.apply]
    split
    · exact h
    · have := h.single
      exact ⟨show s.permits - 1 ≤ 1 by omega, (decide_eq_false (show s.permits - 1 ≠ 1 by omega)).symm, h.queues, h.order,
        h.fresh⟩
  | dropWrite write =>
    simp only [WriteSystem.apply]
    split
    · next hw =>
      exact ⟨h.single, h.active, h.queues_remove hw, h.order.filter _, fun w hm => h.fresh w (mem_filter.mp hm).1⟩
    · exact h

end WriteSystem.Ordered

/-- Order holds along every run. -/
theorem WriteSystem.ordered_run (calls : List WriteCall) : (run calls).Ordered := by
  refine List.foldlRecOn calls _ ?_ fun s h call _ => h.apply call
  exact ⟨Nat.zero_le 1, rfl, fun _ => rfl, .nil, fun _ hw => by cases hw⟩

/-- The admission is a lock with strict priorities, first come first served within one. After any steps: at most one permit is
out, and the queues are the registered writes of each priority in the order in which they came; a registered write that gets a
permit is the first of all; a permit without waiting is given only if no write of the same or a higher priority is registered; a
registered write leaves exactly when it is admitted or dropped, so that a reservation stays where it is when it gets a permit;
and if no permit is out and a write is registered, exactly one of them can be admitted. -/
theorem write_admission_strict_priority (calls : List WriteCall) :
    let s := run calls
    (s.permits ≤ 1 ∧ (s.state.isActive = true ↔ s.permits = 1) ∧
      (∀ p, s.state.waiting p = (s.writes.filter (·.priority = p)).map (·.token)) ∧
      s.writes.Pairwise (·.token < ·.token)) ∧
    (∀ write preempt, (s.apply (.look write preempt)).2 = true ∨ (s.apply (.attempt write)).2 = true → s.First write) ∧
    (∀ priority preempt, (s.apply (.tryAcquire priority preempt)).2 = true →
      s.permits = 0 ∧ ∀ write ∈ s.writes, priority < write.priority) ∧
    (∀ call, ∀ write ∈ s.writes, write ∉ (s.apply call).1.writes ↔
      (∃ preempt, call = .look write preempt ∧ (s.apply call).2 = true) ∨ call = .dropWrite write) ∧
    (s.permits = 0 → s.writes ≠ [] → ∃! write, write ∈ s.writes ∧ write.canAdmit s.state = true) := by
  intro s
  have h : s.Ordered := ordered_run calls
  refine ⟨⟨h.single, ?_, h.queues, h.order⟩, ?_, ?_, ?_, ?_⟩
  · rw [h.active, decide_eq_true_eq]
  · intro write preempt hg
    simp only [apply] at hg
    rcases hg with hg | hg <;> split at hg
    · next ha => exact (h.canAdmit_iff ha.1).mp ha.2.2
    · cases hg
    · next ha => exact (h.canAdmit_iff ha.1).mp ha.2.2
    · cases hg
  · intro priority preempt hg
    simp only [apply] at hg
    split at hg
    · next st heq =>
      obtain ⟨hi, hlt, -⟩ := h.tryAcquirePriority_some heq
      exact ⟨hi, hlt⟩
    · cases hg
  · intro call write hw
    cases call with
    | register priority isReserved => simp [apply, hw]
    | look other preempt =>
      simp only [apply]
      split
      · simp [hw, @eq_comm _ write]
      · simp [hw]
    | attempt other =>
      simp only [apply]
      split <;> simp [hw]
    | tryAcquire priority preempt =>
      simp only [apply]
      split <;> simp [hw]
    | dropPermit =>
      simp only [apply]
      split <;> simp [hw]
    | dropWrite other =>
      simp only [apply]
      split
      · simp [hw, @eq_comm _ write]
      · next hn =>
        have hne : other ≠ write := fun heq => hn (heq ▸ hw)
        simp [hw, hne]
  · intro hi hne
    refine (existsUnique_congr fun write => ?_).mpr (h.exists_unique_first hi hne)
    exact ⟨fun hc => (h.canAdmit_iff hc.1).mp hc.2, fun hf => ⟨hf.1, (h.canAdmit_iff hf.1).mpr hf⟩⟩

end Ame
