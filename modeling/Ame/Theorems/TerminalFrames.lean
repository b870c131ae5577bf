import Ame.Broker.Session
import Ame.Lib.Transition
import Mathlib

/-!
# One frame per accepted read

A worker ends in exactly one frame whatever it finds in the registry. So a read whose terminal is also sent by the host, because
it was retired or aborted while its worker had not begun, gets a second one: the worker finds the read gone and answers that it
is not active. The frames of a run are as many as the accepted reads exactly if the host never has a terminal to send.
-/

namespace Ame

open List Registry Transition

variable {ρ σ : Type} {encodes : σ → Bool}
  {session sess next : BrokerSession ρ σ} {i now : Nat} {worker : ReadWorker} {key : ActiveRequestKey} {label : SessionStep ρ σ}
  {connection conn : ConnectionLifecycle ρ} {term : RecordedTerminal} {e : ActiveRequestError}
  {order : List RequestNamespace} {labels : List (SessionStep ρ σ)}

namespace BrokerSession

/-- The broker before any connection. -/
def initial : BrokerSession ρ σ := ⟨∅, [], [], [], [], []⟩

variable (session : BrokerSession ρ σ) (key : ActiveRequestKey)

/-- The reads that were accepted under a key. -/
def acceptedReads : Nat := session.accepted.count key

/-- The workers of a key that have not returned. -/
def liveWorkers : Nat := (session.workers.map (·.key)).count key

/-- The frames that were sent for a key. -/
def framesFor : Nat := (session.workerFrames.map (·.key)).count key + (session.retiredFrames.map (·.key)).count key

/-- The workers of a key whose response could not be encoded. -/
def undeliveredFor : Nat := session.undelivered.count key

/-- A step leaves nothing for the host to send: a reap meets no recorded terminal and no queued read that is cancelled or out of
time, an abort meets no queued read. -/
def Quiet : SessionStep ρ σ → Prop
  | .reap connectionId generation now _ =>
    ∀ connection, connectionRef session.registry connectionId generation = .ok connection → connection.recordedTerminals = [] ∧
        ∀ name request, connection.requests.lookup name = some request → staleTerminal request now = none
  | .abort key _ =>
    ∀ connection, connectionRef session.registry key.connectionId key.connectionGeneration = .ok connection →
      ∀ request, connection.requests.lookup key.namespace = some request → request.acceptedRead = none
  | _ => True

/-- Every accepted read is accounted for: its worker runs, or has sent its frame, or could not encode it. -/
def Accounted : Prop :=
  ∀ key, (session.workerFrames.map (·.key)).count key + session.liveWorkers key + session.undeliveredFor key =
    session.acceptedReads key

end BrokerSession

open BrokerSession

/-! ## Workers -/

/-- The workers of a key, with one of them taken out. -/
theorem liveWorkers_eraseIdx (h : sess.workers[i]? = some worker) (key : ActiveRequestKey) :
    sess.liveWorkers key = ((sess.workers.eraseIdx i).map (·.key)).count key + if worker.key = key then 1 else 0 := by
  obtain ⟨hi, rfl⟩ := List.getElem?_eq_some_iff.mp h
  have hp := ((getElem_cons_eraseIdx_perm hi).map (·.key)).count_eq key
  rw [map_cons, count_cons] at hp
  simpa [liveWorkers] using hp.symm

/-- A worker that goes on executing is still the worker of its key. -/
theorem map_key_set {workers : List ReadWorker} (h : workers[i]? = some worker)
    (next : ReadWorker) (hk : next.key = worker.key) : (workers.set i next).map (·.key) = workers.map (·.key) := by
  obtain ⟨hi, rfl⟩ := List.getElem?_eq_some_iff.mp h
  have hl : i < (workers.map (·.key)).length := by simpa using hi
  have hg : (workers.map (·.key))[i] = workers[i].key := getElem_map _
  rw [map_set, hk, ← hg, set_getElem_self]

/-- A worker that returns is accounted for by its frame, or by the lack of one. -/
theorem endWorker_accounted {phase : WorkerPhase} {resp : TerminalResponse σ} (registry : RegistryState ρ)
    (ha : session.Accounted) (h : session.workers[i]? = some ⟨key, phase⟩) :
    ({ session with registry := registry }.endWorker encodes i key resp).Accounted := by
  intro k
  have hk := ha k
  rw [liveWorkers_eraseIdx h] at hk
  unfold BrokerSession.endWorker
  split
  · simp only [liveWorkers, undeliveredFor, acceptedReads, map_append, count_append, map_singleton,
      count_singleton, beq_iff_eq] at hk ⊢
    omega
  · simp only [liveWorkers, undeliveredFor, acceptedReads, count_append, count_singleton, beq_iff_eq] at hk ⊢
    omega

/-- A step keeps every accepted read accounted for. -/
theorem step_accounted (ha : sess.Accounted) (h : sess.step encodes label = some next) : next.Accounted := by
  cases label with
  | openConnection | disconnect | finish | cancel | beginControl | finishControl =>
    cases h
    exact ha
  | beginQuery key deadline now order =>
    simp only [BrokerSession.step] at h
    split at h
    · cases h
      exact ha
    · cases h
  | acceptRead key deadline read now order =>
    simp only [BrokerSession.step] at h
    split at h
    · split at h
      · cases h
        intro k
        have hk := ha k
        simp only [liveWorkers, undeliveredFor, acceptedReads, map_append, count_append, map_singleton] at hk ⊢
        omega
      · cases h
        exact ha
    · cases h
  | beginExecution i now =>
    simp only [BrokerSession.step] at h
    split at h
    · next key hw =>
      split at h
      · cases h
        intro k
        have hke := map_key_set hw ⟨key, .executing⟩ rfl
        have hk := ha k
        simp only [liveWorkers, undeliveredFor, acceptedReads] at hk ⊢
        rw [hke]
        exact hk
      · cases h
        exact endWorker_accounted _ ha hw
    · cases h
  | finishExecution i now res =>
    simp only [BrokerSession.step] at h
    split at h
    · next key hw =>
      cases h
      exact endWorker_accounted _ ha hw
    · cases h
  | abort key now =>
    simp only [BrokerSession.step] at h
    split at h <;> cases h <;> exact ha
  | reap cid gen now order =>
    simp only [BrokerSession.step] at h
    split at h
    · split at h <;> cases h <;> exact ha
    · cases h

/-! ## What the host sends -/

/-- A record is appended. -/
theorem record_ok {next : ConnectionLifecycle ρ} (h : record conn term = (.ok (), next)) :
    next.recordedTerminals = conn.recordedTerminals ++ [term] := by
  unfold record at h
  split at h
  · cases h
  · cases h
    rfl

/-- A record is refused only while others wait. -/
theorem record_error {next : ConnectionLifecycle ρ} (h : record conn term = (.error e, next)) :
    next.recordedTerminals = conn.recordedTerminals ∧ conn.recordedTerminals ≠ [] := by
  unfold record at h
  split at h
  · next hf =>
    cases h
    refine ⟨rfl, fun hn => ?_⟩
    rw [hn] at hf
    cases hf
  · cases h

section

variable (cid : BitVec 128) (gen : UInt64) (stale : List (RequestNamespace × RequestTerminal)) (conn : ConnectionLifecycle ρ)

/-- Retiring reads only adds recorded terminals. -/
theorem retire_recorded : conn.recordedTerminals <+: (retire cid gen stale conn).recordedTerminals := by
  induction stale generalizing conn with
  | nil => exact prefix_rfl
  | cons e stale ih =>
    rw [retire]
    split
    · next hr => exact (record_error hr).1 ▸ prefix_rfl
    · next hr =>
      refine List.IsPrefix.trans ?_ (ih _)
      rw [record_ok hr]
      exact prefix_append _ _

/-- Nothing is recorded after retiring reads exactly if nothing was before and there was nothing to retire. -/
theorem retire_recorded_eq_nil : (retire cid gen stale conn).recordedTerminals = [] ↔
      conn.recordedTerminals = [] ∧ stale = [] := by
  cases stale with
  | nil => simp [retire]
  | cons e stale =>
    refine ⟨fun hn => ?_, fun h => by simp at h⟩
    have hb : conn.recordedTerminals = [] :=
      prefix_nil.mp (hn ▸ retire_recorded cid gen (e :: stale) conn)
    rw [retire] at hn
    split at hn
    · next hr => exact absurd hb (record_error hr).2
    · next recorded hr =>
      have ha := retire_recorded cid gen stale { recorded with requests := recorded.requests.erase e.1 }
      rw [hn, record_ok hr] at ha
      simpa using prefix_nil.mp ha

end

/-- The reads to retire, whatever order the requests are met in. -/
theorem staleReads_eq_nil (ho : order.Perm conn.requests.keys) : staleReads conn now order = [] ↔
      ∀ name req, conn.requests.lookup name = some req → staleTerminal req now = none := by
  rw [staleReads, filterMap_eq_nil_iff]
  constructor
  · intro h name req hl
    have hn : name ∈ order := by
      rw [ho.mem_iff, ← AList.mem_keys, ← AList.lookup_isSome, hl]
      rfl
    simpa [hl] using h name hn
  · intro h name _
    cases hl : conn.requests.lookup name with
    | none => rfl
    | some req => simp [h name req hl]

/-- A reap returns nothing exactly if it meets nothing to return. -/
theorem reapAccepted_eq_nil {connectionId : BitVec 128} {generation : UInt64} {terms : List RecordedTerminal}
    {mustClose : Bool} (ho : order.Perm (requestNames sess.registry connectionId generation))
    (h : (reapAccepted sess.registry connectionId generation now order).1 = .ok (terms, mustClose)) :
    terms = [] ↔ sess.Quiet (.reap connectionId generation now order) := by
  cases hr : connectionRef sess.registry connectionId generation with
  | error e => simp [reapAccepted, onConnection, hr] at h
  | ok conn =>
    simp only [reapAccepted, onConnection, hr, reapAcceptedLocked, Except.ok.injEq, Prod.mk.injEq] at h
    simp only [requestNames, hr] at ho
    rw [← h.1, retire_recorded_eq_nil, staleReads_eq_nil ho]
    constructor
    · intro hn o hot
      cases hr.symm.trans hot
      exact hn
    · exact fun hq => hq conn hr

/-- An abort that returns a terminal met a queued read. -/
theorem abortAccepted_ok {st : RegistryState ρ} (h : (abortAccepted st key now).1 = .ok term) :
    ∃ conn req, connectionRef st key.connectionId key.connectionGeneration = .ok conn ∧
      conn.requests.lookup key.namespace = some req ∧ req.acceptedRead ≠ none := by
  unfold abortAccepted onConnection at h
  split at h
  · cases h
  · next conn hre =>
    simp only at h
    split at h
    · cases h
    · next req hl =>
      split at h
      · cases h
      · next hr => exact ⟨conn, req, hre, hl, by simpa using hr⟩

/-- An abort that returns no terminal met no queued read. -/
theorem abortAccepted_error (h : (abortAccepted sess.registry key now).1 = .error e) : sess.Quiet (.abort key now) := by
  intro conn hre req hl
  simp only [abortAccepted, onConnection, hre, hl] at h
  split at h
  · next hr => simpa using hr
  · cases h

/-- What the host sends in a step comes after what it has sent, and it is nothing exactly if the step is quiet. -/
theorem step_retiredFrames (h : sess.step encodes label = some next) :
    ∃ sent, next.retiredFrames = sess.retiredFrames ++ sent ∧ (sent = [] ↔ sess.Quiet label) := by
  have hn (hf : next.retiredFrames = sess.retiredFrames) (hq : sess.Quiet label) :
      ∃ sent, next.retiredFrames = sess.retiredFrames ++ sent ∧ (sent = [] ↔ sess.Quiet label) :=
    ⟨[], by simp [hf], by simp [hq]⟩
  cases label with
  | openConnection | disconnect | finish | cancel | beginControl | finishControl =>
    cases h
    exact hn rfl trivial
  | beginQuery key deadline now order =>
    simp only [BrokerSession.step] at h
    split at h
    · cases h
      exact hn rfl trivial
    · cases h
  | acceptRead key deadline read now order =>
    simp only [BrokerSession.step] at h
    split at h
    · split at h <;> cases h <;> exact hn rfl trivial
    · cases h
  | beginExecution i now =>
    simp only [BrokerSession.step, BrokerSession.endWorker] at h
    split at h
    · split at h
      · cases h
        exact hn rfl trivial
      · split at h <;> cases h <;> exact hn rfl trivial
    · cases h
  | finishExecution i now res =>
    simp only [BrokerSession.step, BrokerSession.endWorker] at h
    split at h
    · split at h <;> cases h <;> exact hn rfl trivial
    · cases h
  | abort key now =>
    simp only [BrokerSession.step] at h
    split at h
    · next term hte =>
      cases h
      obtain ⟨conn, req, hre, hl, hr⟩ := abortAccepted_ok hte
      refine ⟨[encodeRecordedTerminal term], rfl, by simp, fun hq => ?_⟩
      exact absurd (hq conn hre req hl) hr
    · next error he =>
      cases h
      exact hn rfl (abortAccepted_error he)
  | reap cid gen now order =>
    simp only [BrokerSession.step] at h
    split at h
    · next ho =>
      split at h
      · next terms mustClose ht =>
        cases h
        refine ⟨_, rfl, ?_⟩
        rw [map_eq_nil_iff]
        exact reapAccepted_eq_nil ho ht
      · next error he =>
        cases h
        refine hn rfl fun conn hre => ?_
        simp [reapAccepted, onConnection, hre] at he
    · cases h

/-! ## Runs -/

/-- The steps of the broker that leave nothing for the host to send. -/
def QuietStep (encodes : σ → Bool) (session : BrokerSession ρ σ) (label : SessionStep ρ σ) (next : BrokerSession ρ σ) : Prop :=
  session.step encodes label = some next ∧ session.Quiet label

section

variable (h : Run (fun s label t => s.step encodes label = some t) initial labels session)

include h

theorem run_accounted : session.Accounted :=
  h.state_invariant (fun _ => rfl) fun _ _ _ ha hs => step_accounted ha hs

/-- The host has sent nothing exactly if every step was quiet. -/
theorem retiredFrames_eq_nil_iff : session.retiredFrames = [] ↔ Run (QuietStep encodes) initial labels session := by
  constructor
  · intro hn
    induction h with
    | nil => exact Run.nil
    | snoc _ hs ih =>
      obtain ⟨sent, hse, hq⟩ := step_retiredFrames hs
      rw [hse, append_eq_nil_iff] at hn
      exact (ih hn.1).snoc ⟨hs, hq.mp hn.2⟩
  · intro hr
    refine hr.state_invariant (I := fun s => s.retiredFrames = []) rfl fun t label u hn hs => ?_
    obtain ⟨sent, hse, hq⟩ := step_retiredFrames hs.1
    rw [hse, hn, hq.mpr hs.2, append_nil]

end

theorem run_of_quiet (h : Run (QuietStep encodes) initial labels sess) :
    Run (fun s label t => s.step encodes label = some t) initial labels sess := by
  induction h with
  | nil => exact Run.nil
  | snoc _ hs ih => exact ih.snoc hs.1

/-- In every run the frames make up for the accepted reads exactly if no step leaves anything for the host to send. -/
theorem frames_match_iff (h : Run (fun s label t => s.step encodes label = some t) initial labels session) :
    (∀ key, session.framesFor key + session.liveWorkers key + session.undeliveredFor key = session.acceptedReads key) ↔
      Run (QuietStep encodes) initial labels session := by
  rw [← retiredFrames_eq_nil_iff h]
  have ha := run_accounted h
  constructor
  · intro hm
    have hc (key : ActiveRequestKey) : (session.retiredFrames.map (·.key)).count key = 0 := by
      have hf := hm key
      have hw := ha key
      unfold framesFor at hf
      omega
    rw [← map_eq_nil_iff (f := (·.key)), eq_nil_iff_forall_not_mem]
    exact fun key => count_eq_zero.mp (hc key)
  · intro hn key
    have hw := ha key
    simp only [framesFor, hn, map_nil, count_nil]
    omega

/-- In every run of quiet steps a read ends in at most one frame, counting a worker that has not returned, and in exactly one
if its response was delivered, as it is while the connection stays open. -/
theorem one_frame_per_read {labels : List (SessionStep ρ σ)} {session : BrokerSession ρ σ}
    (h : Run (QuietStep encodes) initial labels session) (key : ActiveRequestKey) :
    session.framesFor key + session.liveWorkers key ≤ session.acceptedReads key ∧ (session.undeliveredFor key = 0 →
        session.framesFor key + session.liveWorkers key = session.acceptedReads key) := by
  have hm := (frames_match_iff (run_of_quiet h)).mpr h key
  constructor <;> omega

/-- A connection of the examples. -/
def sampleConnection : BitVec 128 := 1

/-- A read of the examples. -/
def sampleKey : ActiveRequestKey := ⟨sampleConnection, 1, 2, 3, 4⟩

/-- What the examples look at in the last state of a run: the accepted reads, the workers that are left, the reads that were
not delivered, the frames, and the frames that the host sent. -/
def sampleCounts (labels : List (SessionStep Unit Unit)) : Option (Nat × Nat × Nat × Nat × Bool) :=
  (labels.foldlM (BrokerSession.step fun _ => true) initial).map fun session =>
    (session.acceptedReads sampleKey, session.liveWorkers sampleKey, session.undeliveredFor sampleKey,
      session.framesFor sampleKey, session.retiredFrames.isEmpty)

/-- A read that is executed in time. -/
def executedRead : List (SessionStep Unit Unit) :=
  [.openConnection sampleConnection 1, .acceptRead sampleKey 5 () 0 [], .beginExecution 0 1, .finishExecution 0 2 (.ok ())]

/-- It ends in one frame. -/
theorem one_frame_per_read_executed : ∃ session : BrokerSession Unit Unit,
    Run (QuietStep fun _ => true) initial executedRead session ∧
      session.acceptedReads sampleKey = 1 ∧ session.liveWorkers sampleKey = 0 ∧ session.undeliveredFor sampleKey = 0 ∧
      session.framesFor sampleKey + session.liveWorkers sampleKey = session.acceptedReads sampleKey := by
  have hc : sampleCounts executedRead = some (1, 0, 0, 1, true) := by decide +kernel
  obtain ⟨session, hr, hs⟩ := Option.map_eq_some_iff.mp hc
  simp only [Prod.mk.injEq, List.isEmpty_iff] at hs
  have hq := (retiredFrames_eq_nil_iff (Run.of_foldlM hr)).mp hs.2.2.2.2
  exact ⟨session, hq, hs.1, hs.2.1, hs.2.2.1, (one_frame_per_read hq sampleKey).2 hs.2.2.1⟩

/-- A read whose time runs out before its worker begins. -/
def expiredRead : List (SessionStep Unit Unit) :=
  [.openConnection sampleConnection 1, .acceptRead sampleKey 5 () 0 [],
    .reap sampleConnection 1 6 [sampleKey.namespace], .beginExecution 0 7]

/-- It ends in two frames: the host reports the timeout, and the worker that the read is not active. -/
theorem two_frames_for_expired_read : ∃ session : BrokerSession Unit Unit,
    Run (fun s label t => s.step (fun _ => true) label = some t) initial expiredRead session ∧
      session.acceptedReads sampleKey = 1 ∧ session.liveWorkers sampleKey = 0 ∧ session.undeliveredFor sampleKey = 0 ∧
      session.framesFor sampleKey = 2 := by
  have hc : sampleCounts expiredRead = some (1, 0, 0, 2, false) := by decide +kernel
  obtain ⟨session, hr, hs⟩ := Option.map_eq_some_iff.mp hc
  simp only [Prod.mk.injEq] at hs
  exact ⟨session, Run.of_foldlM hr, hs.1, hs.2.1, hs.2.2.1, hs.2.2.2.1⟩

end Ame
