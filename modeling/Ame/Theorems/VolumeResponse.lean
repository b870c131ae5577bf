import Ame.Lemmas.Volume
import Ame.Theorems.BrokerPath
import Mathlib

/-!
# A shared read answers with what can be sent

The response of a shared read is checked once more before it is sent. A handoff or an old name that belongs to a root which has
failed would not pass, so the read takes it back with the barrier of that root. A handoff from a root to itself would not pass
either, and nothing in the read compares the root of a client's old name with the root a handoff of it ends in. There a read rests
on its client and on its backend: one root has one identity, and a pair of names of one root is a candidate, not a handoff.
-/

namespace Ame

open List Binary Result Option Except RootAuthorization SharedJournalHandoff

/-! ## What the check of a response asks for -/

theorem validateResponse_readVolume {rid : Nat} {client} {vol : String} {jid : Nat}
    {endUsn : Int} {maxRecs maxBytes : Nat} {outcomes : List SharedJournalRootOutcome}
    {handoffs : List SharedJournalHandoff} {pends : List SharedJournalPendingRename} :
    validateResponse (.readVolume rid client vol jid endUsn maxRecs maxBytes outcomes handoffs pends) = .ok () ↔ rid ≠ 0 ∧
      ((((((((isZero client = false ∧ (validateWireIdentifier vol maxVolumeIdBytes).isOk = true) ∧
        jid ≠ 0) ∧ 0 ≤ endUsn) ∧ isBetweenOneAnd maxRecordsLimit maxRecs = true) ∧
        isBetweenOneAnd maxEvidenceBytesLimit maxBytes = true) ∧
        isBetweenOneAnd maxSharedRoots outcomes.length = true) ∧ handoffs.length ≤ maxSharedHandoffs) ∧
        pends.length ≤ maxSharedPendingRenames) ∧
      validateOutcomes client vol endUsn maxRecs [] outcomes = .ok () ∧
      (∀ handoff ∈ handoffs, handoff.validate client vol endUsn = .ok () ∧ ∀ endpoint ∈ handoff.endpoints,
          validateEndpoint outcomes "shared_handoff_endpoint" "shared_handoff_range" handoff.usn endpoint = .ok ()) ∧
      (∀ pend ∈ pends, pend.validate client vol endUsn = .ok () ∧
        validateEndpoint outcomes "shared_pending_rename_endpoint" "shared_pending_rename_range" pend.oldUsn
          pend.binding = .ok ()) ∧
      totalRecords outcomes handoffs pends ≤ maxRecs ∧
      totalEvidence outcomes handoffs pends ≤ maxBytes := by
  unfold validateResponse BrokerResponse.validateKind
  simp only [bind_unit_ok, require_ok, forM_ok_iff, BrokerResponse.requestId, BrokerResponse.isFailure, Bool.not_false,
    Bool.and_true, Bool.not_eq_true', beq_eq_false_iff_ne, Bool.or_eq_false_iff, Bool.not_eq_false', decide_eq_false_iff_not,
    Int.not_lt, Nat.not_lt, ne_eq]

/-- An endpoint passes if one of the outcomes, all of different roots, is bound to it and covers the record. -/
theorem validateEndpoint_ok {outcomes : List SharedJournalRootOutcome} {out : SharedJournalRootOutcome}
    {endpointField rangeField : String} {usn cov : Int}
    (hd : (outcomes.map fun o => (o.binding.rootId, o.binding.rootGeneration)).Nodup) (hm : out ∈ outcomes)
    (hc : out.coveredUntilUsn = some cov) (hf : out.failure = none) (hs : out.requestedStartUsn ≤ usn)
    (he : usn < cov) : validateEndpoint outcomes endpointField rangeField usn out.binding = .ok () := by
  have hfo : findOutcome outcomes out.binding = some out := by
    unfold findOutcome
    cases hfi : outcomes.find? _ with
    | none =>
      have := find?_eq_none.mp hfi out hm
      simp at this
    | some found =>
      have hsa := find?_some hfi
      simp only [Bool.and_eq_true, beq_iff_eq] at hsa
      exact congrArg some (inj_on_of_nodup_map hd (mem_of_find?_eq_some hfi) hm (Prod.ext hsa.1.1.1 hsa.1.1.2))
  unfold validateEndpoint
  rw [hfo]
  simp only [hc, hf, isNone_none, filter_some, if_true, require_ok]
  simp only [Bool.not_eq_true', decide_eq_false_iff_not]
  omega

/-! ## What a page carries -/

/-- Each root that a handoff or an old name of the page belongs to has a rename barrier that is not above its record. -/
structure SharedBackendJournalPage.CarriesBarriers (page : SharedBackendJournalPage) : Prop where
  previous : ∀ handoff ∈ page.handoffs, ∀ index ∈ handoff.previousRootIndex,
    ∃ barrier, page.renameBarriersByRoot[index]? = some (some barrier) ∧ barrier ≤ handoff.oldUsn
  current : ∀ handoff ∈ page.handoffs,
    ∃ barrier, page.renameBarriersByRoot[handoff.currentRootIndex]? = some (some barrier) ∧ barrier ≤ handoff.usn
  pending : ∀ pending ∈ page.pendingRenames,
    ∃ barrier, page.renameBarriersByRoot[pending.rootIndex]? = some (some barrier) ∧ barrier ≤ pending.oldUsn

/-- No handoff of the page continues an old name into the root that the old name is read for. -/
def SharedBackendJournalPage.LeavesOwnRoots (page : SharedBackendJournalPage) (read : ExistingJournalVolumeRead) : Prop :=
  ∀ handoff ∈ page.handoffs, ∀ index ∈ handoff.previousPendingIndex, ∀ carry, read.pendingRenames[index]? = some carry →
    carry.readRootIndex ≠ some handoff.currentRootIndex

/-- One root per key: an old name whose root is told apart as a requested one belongs to that root. -/
def ReadJournalVolumeRequest.OneRootPerKey (request : ReadJournalVolumeRequest) : Prop :=
  ∀ pending ∈ request.pendingRenames, ∀ requested ∈ request.roots, pending.root.identity = requested.root.identity →
    pending.root = requested.root

section

variable {ordinalEquals oeq : OrdinalEquals} {host : VolumeReadHost} {request req : ReadJournalVolumeRequest} {read : PageRead}
  {reads : RootReads} {translation tr : Translation}
  {a : Nat} {out : SharedJournalRootOutcome} {barrier bar : Int} {shared : SharedJournalHandoff} {answer : VolumeAnswer}
  {barriers bars : List Int} {roots : List SharedJournalRootRequest} {outcomes outs : List SharedJournalRootOutcome}
  {caller : CallerAuthorization} {adms : List (Except BrokerFailureCode AdmittedRoot)}

/-- The roots of a page that are read are read as far as its proof says. -/
theorem reads_ok (hh : host.Filters) (hpa : ValidPage req read.admitted read.page)
    (hr : readRoots oeq host req read = .ok reads) (h : reads[a]? = some (.ok out)) :
    ∃ adm proof, read.admitted[a]? = some adm ∧ read.page.proof = some proof ∧
      ReadsRoot req adm.requested proof.coveredUntilUsn out := by
  obtain ⟨⟨⟨adm, cands⟩, idx⟩, he, hre⟩ := (mapM_getElem? hr).mp h
  rw [getElem?_zipIdx, map_eq_some_iff] at he
  obtain ⟨pair, hpai, hs⟩ := he
  obtain ⟨rfl, rfl⟩ := Prod.mk.inj hs
  obtain ⟨ha, hc⟩ := getElem?_zip_eq_some.mp hpai
  obtain ⟨found, proof, hf, hp, ho⟩ := readRoot_ok hre
  have hv := hpa.candidates proof hp found (hf ▸ mem_of_getElem? hc)
  exact ⟨adm, proof, ha, hp, readOutcome_ok hh hv ho⟩

theorem reads_length (hp : ValidPage req read.admitted read.page)
    (hr : readRoots oeq host req read = .ok reads) : reads.length = read.admitted.length := by
  have hl := (mapM_ok_iff.mp hr).length_eq
  rw [length_zipIdx, length_zip, hp.candidateCount, Nat.min_self] at hl
  exact hl.symm

/-- What is still read was read before. -/
theorem failRoots_ok {fails : List (Nat × BrokerFailureCode)}
    (h : (failRoots fails reads)[a]? = some (.ok out)) : reads[a]? = some (.ok out) := by
  unfold failRoots at h
  rw [getElem?_mapIdx, map_eq_some_iff] at h
  obtain ⟨before, hb, h⟩ := h
  cases hf : failureOf fails a with
  | none =>
    simp only [hf, elim_none] at h
    rw [hb, h]
  | some code => simp [hf] at h

@[simp] theorem length_failRoots (fails : List (Nat × BrokerFailureCode)) :
    (failRoots fails reads).length = reads.length := length_mapIdx

/-- The barrier of a root that failed is among the barriers. -/
theorem mem_failedBarriers {barriers : List (Option Int)} {code : BrokerFailureCode} (hr : reads[a]? = some (.error code))
    (hb : barriers[a]? = some (some bar)) : bar ∈ failedBarriers barriers reads := by
  have hz : (reads.zip barriers)[a]? = some (.error code, some bar) :=
    getElem?_zip_eq_some.mpr ⟨hr, hb⟩
  exact mem_filterMap.mpr ⟨_, mem_of_getElem? hz, rfl⟩

/-- A barrier of a read lies before the end of the range, or is the lowest start. -/
theorem of_mem_readBarriers (hpa : ValidPage req read.admitted read.page)
    (ht : translatePage oeq host req read.admitted read.carries read.page = .ok tr)
    {results : RootReads} (h : bar ∈ readBarriers read results tr) :
    bar < req.endUsn ∨ bar = req.minimumStartUsn := by
  rcases mem_append.mp h with h | h
  · obtain ⟨⟨res, found⟩, hm, hf⟩ := mem_filterMap.mp h
    simp only at hf
    split at hf
    · cases hf
    · rw [hf] at hm
      exact .inl (hpa.barrier bar (of_mem_zip hm).2)
  · rcases translatePage_ok ht with ⟨-, rfl⟩ | ⟨proof, rounds, oldNames, hp, hro, hon, rfl⟩
    · cases h
    · have hc := hpa.covered proof hp
      obtain ⟨round, hr, h⟩ := mem_flatMap.mp h
      have hb : bar < proof.coveredUntilUsn ∨ bar = req.minimumStartUsn := by
        rcases mem_append.mp hr with hr | hr
        · obtain ⟨e, -, he⟩ := (mem_mapM_iff hro).mp hr
          obtain ⟨cur, source, -, -, rfl⟩ := translateHandoff_ok.mp he
          exact of_mem_translateEndpoints_barriers h
        · obtain ⟨e, -, he⟩ := (mem_mapM_iff hon).mp hr
          obtain ⟨cur, -, rfl⟩ := translatePendingRename_ok.mp he
          exact of_mem_translateOldName_barriers h
      omega

/-- A handoff of the translation comes from a handoff of the page whose endpoints are known. -/
theorem of_mem_translation_handoffs (ht : translatePage oeq host req read.admitted read.carries read.page = .ok tr)
    (h : shared ∈ tr.handoffs) :
    ∃ proof e source cur, read.page.proof = some proof ∧ e ∈ read.page.handoffs.zipIdx ∧
      read.admitted[e.1.currentRootIndex]? = some cur ∧
      handoffSource req read.admitted read.carries e.1 = .ok source ∧
      shared ∈ (translateEndpoints oeq host req proof.coveredUntilUsn e.2 e.1 source cur).handoffs := by
  rcases translatePage_ok ht with ⟨-, rfl⟩ | ⟨proof, rounds, oldNames, hp, hro, hon, rfl⟩
  · cases h
  · obtain ⟨round, hr, hs⟩ := mem_flatMap.mp h
    rcases mem_append.mp hr with hr | hr
    · obtain ⟨e, he, hr⟩ := (mem_mapM_iff hro).mp hr
      obtain ⟨cur, source, hc, hso, rfl⟩ := translateHandoff_ok.mp hr
      exact ⟨proof, e, source, cur, hp, he, hc, hso, hs⟩
    · obtain ⟨e, -, he⟩ := (mem_mapM_iff hon).mp hr
      obtain ⟨cur, -, rfl⟩ := translatePendingRename_ok.mp he
      unfold translateOldName at hs
      split at hs
      · cases hs
      · split at hs <;> cases hs

/-- An old name of the translation belongs to an admitted root that has a barrier, and to the range that the page covers. -/
theorem of_mem_translation_pendingRenames (hba : read.page.CarriesBarriers)
    (ht : translatePage oeq host req read.admitted read.carries read.page = .ok tr)
    {shared : SharedJournalPendingRename} (h : shared ∈ tr.pendingRenames) :
    ∃ (proof : JournalReadProof) (a : Nat) (adm : AdmittedRoot) (barrier : Int), read.page.proof = some proof ∧
      read.admitted[a]? = some adm ∧ read.page.renameBarriersByRoot[a]? = some (some barrier) ∧ barrier ≤ shared.oldUsn ∧
      shared.binding = .fromRequest req.caller adm.requested.root ∧
      isReferenceLength shared.fileReference.length = true ∧ validateRelativePath shared.previousRelativePath = .ok () ∧
      adm.requested.startUsn ≤ shared.oldUsn ∧ shared.oldUsn < proof.coveredUntilUsn := by
  rcases translatePage_ok ht with ⟨-, rfl⟩ | ⟨proof, rounds, oldNames, hpr, hro, hon, rfl⟩
  · cases h
  · obtain ⟨round, hr, h⟩ := mem_flatMap.mp h
    rcases mem_append.mp hr with hr | hr
    · -- the target of a handoff has failed, and its source is an admitted root
      obtain ⟨e, he, hr⟩ := (mem_mapM_iff hro).mp hr
      obtain ⟨cur, source, -, hso, rfl⟩ := translateHandoff_ok.mp hr
      obtain ⟨hsu, hca, path, hpa, rfl⟩ := of_mem_translateEndpoints_pendingRenames h
      obtain ⟨hl, hs, -, ho, -, hen⟩ := isUnsupportedHandoff_eq_false.mp hsu
      rcases handoffSource_ok hso with ⟨i, prev, hi, hp, hbi, -, hf⟩ | ⟨i, reqd, -, -, -, hid⟩
      · obtain ⟨barrier, hb, hle⟩ := hba.previous _ (fst_mem_of_mem_zipIdx he) i hi
        rw [hf] at hs
        exact ⟨proof, i, prev, barrier, hpr, hp, hb, hle, hbi, hl, sourcePath_ok hpa, hs, by simp only; omega⟩
      · rw [hca] at hid
        cases hid
    · obtain ⟨e, he, hr⟩ := (mem_mapM_iff hon).mp hr
      obtain ⟨cur, hc, rfl⟩ := translatePendingRename_ok.mp hr
      obtain ⟨hl, hs, hen, path, hpa, rfl⟩ := of_mem_translateOldName_pendingRenames h
      obtain ⟨barrier, hb, hle⟩ := hba.pending _ (fst_mem_of_mem_zipIdx he)
      exact ⟨proof, _, cur, barrier, hpr, hc, hb, hle, rfl, hl, hpa, hs, hen⟩

/-! ## What a barrier leaves -/

theorem limit_reads (answer : VolumeAnswer) (barrier : Option Int) :
    (answer.limit barrier).reads = answer.reads.map fun read => barrier.elim read fun b => read.bind (limitOutcome b) := by
  cases barrier with
  | none => exact (map_id _).symm
  | some b => rfl

/-- What lies below the lowest barrier lies below all. -/
theorem lt_min?_iff {usn : Int} : (∀ b ∈ bars.min?, usn < b) ↔ ∀ b ∈ bars, usn < b := by
  cases hm : bars.min? with
  | none => simp [min?_eq_none_iff.mp hm]
  | some b =>
    obtain ⟨hme, hle⟩ := min?_eq_some_iff.mp hm
    simpa using ⟨fun h c hc => h.trans_le (hle c hc), fun h => h b hme⟩

/-- Handoffs below every barrier are kept. -/
theorem mem_limit_handoffs :
    shared ∈ (answer.limit bars.min?).handoffs ↔ shared ∈ answer.handoffs ∧ ∀ b ∈ bars, shared.usn < b := by
  rw [← lt_min?_iff]
  cases bars.min? <;> simp [VolumeAnswer.limit]

/-- So are old names. -/
theorem mem_limit_pendingRenames {shared : SharedJournalPendingRename} : shared ∈ (answer.limit bars.min?).pendingRenames ↔
      shared ∈ answer.pendingRenames ∧ ∀ b ∈ bars, shared.oldUsn < b := by
  rw [← lt_min?_iff]
  cases bars.min? <;> simp [VolumeAnswer.limit]

/-- Under barriers that each lie before the end of the range or at the lowest start, a root that is read stays read, up to a
coordinate that no record before all barriers reaches, or it fails; it fails only if it starts at or after a barrier. -/
theorem ReadsRoot.limited {reqd : SharedJournalRootRequest} {cov : Int} (h : ReadsRoot req reqd cov out)
    (hm : reqd ∈ req.roots) (hba : ∀ b ∈ bars, b < req.endUsn ∨ b = req.minimumStartUsn) :
    (∃ b ∈ bars, b ≤ reqd.startUsn ∧
      bars.min?.elim (.ok out) (fun b => (ok out).bind (limitOutcome b)) = .error .evidenceLimitExceeded) ∨
    ∃ limited cov', bars.min?.elim (.ok out) (fun b => (ok out).bind (limitOutcome b)) = .ok limited ∧
      ReadsRoot req reqd cov' limited ∧ ∀ usn, usn < cov → (∀ b ∈ bars, usn < b) → usn < cov' := by
  cases hmi : bars.min? with
  | none => exact .inr ⟨out, cov, rfl, h, fun usn hu _ => hu⟩
  | some b =>
    obtain ⟨hb, hle⟩ := min?_eq_some_iff.mp hmi
    by_cases hs : b ≤ reqd.startUsn
    · refine .inl ⟨b, hb, hs, ?_⟩
      show limitOutcome b out = _
      rw [limitOutcome, if_pos (by rw [h.start]; exact hs)]
    · have hlo := ReadJournalVolumeRequest.minimumStartUsn_le hm
      have hbe := hba b hb
      obtain ⟨limited, hl, hr⟩ := h.limit (by omega) (show b < req.endUsn by omega)
      exact .inr ⟨limited, _, hl, hr, fun usn hu ha => lt_min hu (ha b hb)⟩

/-! ## The answer from a page -/

/-- What the stages of a read have made sure of when it answers from a page. -/
structure AnsweredPage (ordinalEquals : OrdinalEquals) (host : VolumeReadHost)
    (request : ReadJournalVolumeRequest) (read : PageRead)
    (reads : RootReads) (translation : Translation) : Prop where
  valid : request.Valid
  filters : host.Filters
  admitted : (read.admitted.map (·.requested)).Sublist request.roots
  page : ValidPage request read.admitted read.page
  barriers : read.page.CarriesBarriers
  crosses : ∀ handoff ∈ read.page.handoffs, ∀ index ∈ handoff.previousPendingIndex, ∀ pending current,
    request.pendingRenames[index]? = some pending → read.admitted[handoff.currentRootIndex]? = some current →
      pending.root.identity ≠ current.requested.root.identity
  rootReads : readRoots ordinalEquals host request read = .ok reads
  translated : translatePage ordinalEquals host request read.admitted read.carries read.page = .ok translation

section

variable (read : PageRead) (reads : RootReads) (translation : Translation)

/-- The barriers of a read that answers from a page. -/
def pageBarriers : List Int :=
  readBarriers read (failRoots translation.failures reads) translation

/-- The answer from a page. -/
def pageAnswer : VolumeAnswer :=
  (VolumeAnswer.mk (failRoots translation.failures reads) translation.handoffs translation.pendingRenames).limit
    (pageBarriers read reads translation).min?

end

namespace AnsweredPage

variable (h : AnsweredPage ordinalEquals host request read reads tr)
include h

theorem requested_mem {a : Nat} {adm : AdmittedRoot} (ha : read.admitted[a]? = some adm) : adm.requested ∈ request.roots :=
  h.admitted.subset (mem_map_of_mem (mem_of_getElem? ha))

/-- Where a barrier can be. -/
theorem barrier_range : ∀ b ∈ pageBarriers read reads tr, b < request.endUsn ∨ b = request.minimumStartUsn :=
  fun _ hb => of_mem_readBarriers h.page h.translated hb

/-- A root that the answer has a result for is read, up to some coordinate. -/
theorem reads_answer : List.Forall₂ (fun (a : AdmittedRoot) res => ∀ out, res = .ok out →
    AnswersRoot request a.requested out) read.admitted (pageAnswer read reads tr).reads := by
  rw [pageAnswer, limit_reads, List.forall₂_iff_get]
  refine ⟨?_, fun a ha hr out ho => ?_⟩
  · rw [length_map, length_failRoots, reads_length h.page h.rootReads]
  · simp only [get_eq_getElem, getElem_map] at ho
    have hle : a < (failRoots tr.failures reads).length := by simpa using hr
    cases hb : (failRoots tr.failures reads)[a] with
    | error code =>
      rw [hb] at ho
      cases hm : (pageBarriers read reads tr).min? <;> simp [hm, Except.bind] at ho
    | ok first =>
      have hfi : (failRoots tr.failures reads)[a]? = some (.ok first) := by
        rw [getElem?_eq_getElem hle, hb]
      obtain ⟨adm, proof, had, -, hre⟩ := reads_ok h.filters h.page h.rootReads (failRoots_ok hfi)
      obtain rfl : read.admitted[a] = adm := by
        rw [getElem?_eq_getElem ha] at had
        exact Option.some.inj had
      rw [hb] at ho
      rcases hre.limited (h.requested_mem had) h.barrier_range with ⟨b, -, -, hf⟩ | ⟨limited, c, hok, hl, -⟩
      · rw [hf] at ho
        cases ho
      · rw [hok] at ho
        cases ho
        exact .inl ⟨c, hl⟩

/-- A record before all barriers, in the range of a root whose barrier is not above it, is covered by that root's result. -/
theorem covers {a : Nat} {adm : AdmittedRoot} {proof : JournalReadProof} {barrier usn : Int}
    (ha : read.admitted[a]? = some adm) (hp : read.page.proof = some proof)
    (hba : read.page.renameBarriersByRoot[a]? = some (some barrier)) (hle : barrier ≤ usn)
    (hs : adm.requested.startUsn ≤ usn) (he : usn < proof.coveredUntilUsn)
    (hbe : ∀ b ∈ pageBarriers read reads tr, usn < b) :
    ∃ out cov, .ok out ∈ (pageAnswer read reads tr).reads ∧ ReadsRoot request adm.requested cov out ∧ usn < cov := by
  have hl : a < (failRoots tr.failures reads).length := by
    rw [length_failRoots, reads_length h.page h.rootReads]
    exact (List.getElem?_eq_some_iff.mp ha).1
  cases hr : (failRoots tr.failures reads)[a] with
  | error code =>
    -- the root has failed, so its barrier is one of the barriers
    have hfa : (failRoots tr.failures reads)[a]? = some (.error code) := by
      rw [getElem?_eq_getElem hl, hr]
    have hm := mem_failedBarriers hfa hba
    have := hbe barrier (mem_append_left _ hm)
    omega
  | ok first =>
    have hf : (failRoots tr.failures reads)[a]? = some (.ok first) := by
      rw [getElem?_eq_getElem hl, hr]
    obtain ⟨adm', proof', ha', hp', hrea⟩ := reads_ok h.filters h.page h.rootReads (failRoots_ok hf)
    obtain rfl := Option.some.inj (ha.symm.trans ha')
    obtain rfl := Option.some.inj (hp.symm.trans hp')
    rcases hrea.limited (h.requested_mem ha) h.barrier_range with ⟨b, hb, hle, -⟩ | ⟨limited, c, hok, hli, hre⟩
    · have := hbe b hb
      omega
    · refine ⟨limited, c, ?_, hli, hre usn he hbe⟩
      rw [pageAnswer, limit_reads]
      exact mem_map.mpr ⟨_, mem_of_getElem? hf, hok⟩

/-- An old name of the answer is valid, and the root it belongs to covers it. -/
theorem pendingRename_ok {shared : SharedJournalPendingRename} (hsh : shared ∈ (pageAnswer read reads tr).pendingRenames) :
    shared.validate request.caller.clientInstance request.volumeId request.endUsn = .ok () ∧
      ∃ out cov, .ok out ∈ (pageAnswer read reads tr).reads ∧ out.binding = shared.binding ∧
        out.coveredUntilUsn = some cov ∧ out.failure = none ∧ out.requestedStartUsn ≤ shared.oldUsn ∧
        shared.oldUsn < cov := by
  obtain ⟨hm, hbe⟩ := mem_limit_pendingRenames.mp hsh
  obtain ⟨proof, a, adm, barrier, hp, ha, hba, hle, hb, hl, hpa, hs, he⟩ :=
    of_mem_translation_pendingRenames h.barriers h.translated hm
  obtain ⟨out, cov, ho, hre, hc⟩ :=
    h.covers ha hp hba hle hs he hbe
  have hr := h.valid.roots _ (h.requested_mem ha)
  have hra := h.page.covered proof hp
  refine ⟨SharedJournalPendingRename.validate_ok.mpr ?_, out, cov, ho, hre.binding.trans hb.symm,
    hre.coverage, hre.failure, by rw [hre.start]; exact hs, hc⟩
  rw [hb]
  have := hr.start
  exact ⟨binding_ok hr.root h.valid.clientInstance, hpa, rfl, hr.volume, hl, by omega, by omega⟩

/-- Admitted roots at different places are different roots. -/
theorem identity_ne {a b : Nat} {first second : AdmittedRoot} (hf : read.admitted[a]? = some first)
    (hs : read.admitted[b]? = some second) (hne : a ≠ b) :
    first.requested.root.identity ≠ second.requested.root.identity := by
  have hp := pairwise_map.mp (h.valid.distinct.sublist h.admitted)
  obtain ⟨ha, rfl⟩ := List.getElem?_eq_some_iff.mp hf
  obtain ⟨hb, rfl⟩ := List.getElem?_eq_some_iff.mp hs
  rcases Nat.lt_or_gt_of_ne hne with hlt | hlt
  · exact pairwise_iff_getElem.mp hp a b ha hb hlt
  · exact (pairwise_iff_getElem.mp hp b a hb ha hlt).symm

/-- The endpoints of a handoff of the answer that the response answers for are covered. -/
theorem endpoint_covered {shared : SharedJournalHandoff} (hsh : shared ∈ (pageAnswer read reads tr).handoffs)
    {endpoint : ResponseBinding} (he : endpoint ∈ shared.endpoints) :
    ∃ out cov, .ok out ∈ (pageAnswer read reads tr).reads ∧ out.binding = endpoint ∧
      out.coveredUntilUsn = some cov ∧ out.failure = none ∧ out.requestedStartUsn ≤ shared.usn ∧
      shared.usn < cov := by
  obtain ⟨hm, hbe⟩ := mem_limit_handoffs.mp hsh
  obtain ⟨proof, e, source, cur, hpr, hen, hcu, hso, hm⟩ := of_mem_translation_handoffs h.translated hm
  obtain ⟨hs, prevPath, currentPath, -, -, rfl⟩ := mem_translateEndpoints_handoffs.mp hm
  obtain ⟨-, hf, -, hor, hst, hend⟩ := isUnsupportedHandoff_eq_false.mp hs
  have hh := fst_mem_of_mem_zipIdx hen
  have hcc : ∃ out cov, .ok out ∈ (pageAnswer read reads tr).reads ∧
      out.binding = .fromRequest request.caller cur.requested.root ∧ out.coveredUntilUsn = some cov ∧
      out.failure = none ∧ out.requestedStartUsn ≤ e.1.usn ∧ e.1.usn < cov := by
    obtain ⟨barrier, hb, hle⟩ := h.barriers.current _ hh
    obtain ⟨out, cov, ho, hr, hc⟩ := h.covers hcu hpr hb hle hst hend hbe
    exact ⟨out, cov, ho, hr.binding, hr.coverage, hr.failure, by rw [hr.start]; exact hst, hc⟩
  rcases handoffSource_ok hso with ⟨i, prev, hi, hp, hbi, hca, hf'⟩ | ⟨i, reqd, -, -, -, hca⟩
  · simp only [endpoints, hca, isSome_none, Bool.false_eq_true, if_false, mem_cons, not_mem_nil, or_false] at he
    rcases he with rfl | rfl
    · obtain ⟨barrier, hb, hle⟩ := h.barriers.previous _ hh i hi
      rw [hf'] at hf
      obtain ⟨out, cov, ho, hr, hc⟩ :=
        h.covers hp hpr hb (show barrier ≤ e.1.usn by omega) (by omega) hend hbe
      exact ⟨out, cov, ho, hr.binding.trans hbi.symm, hr.coverage, hr.failure, by rw [hr.start]; simp only; omega, hc⟩
    · exact hcc
  · simp only [endpoints, hca, isSome_some, if_true, mem_singleton] at he
    rw [he]
    exact hcc

/-- A handoff of the answer is valid. -/
theorem handoff_ok {shared : SharedJournalHandoff} (hsh : shared ∈ (pageAnswer read reads tr).handoffs) :
    shared.validate request.caller.clientInstance request.volumeId request.endUsn = .ok () := by
  obtain ⟨hm, -⟩ := mem_limit_handoffs.mp hsh
  obtain ⟨proof, e, source, cur, hpr, he, hc, hs, hm⟩ := of_mem_translation_handoffs h.translated hm
  obtain ⟨hsu, prevPath, currentPath, hp, ht, rfl⟩ := mem_translateEndpoints_handoffs.mp hm
  obtain ⟨hl, -, hold, ho, -, hen⟩ := isUnsupportedHandoff_eq_false.mp hsu
  have hra := h.page.covered proof hpr
  have hcv := h.valid.roots _ (h.requested_mem hc)
  have hcb := binding_ok hcv.root h.valid.clientInstance
  rw [validate_ok]
  rcases handoffSource_ok hs with ⟨i, prev, hin, hro, hb, hca, -⟩ | ⟨i, pend, hin, hpe, hb, hca⟩
  · have hprv := h.valid.roots _ (h.requested_mem hro)
    have hpl : i ≠ e.1.currentRootIndex := by
      intro hi
      exact h.page.crosses _ (fst_mem_of_mem_zipIdx he) (by rw [hin, hi])
    simp only [hb, hca]
    exact ⟨binding_ok hprv.root h.valid.clientInstance, hcb, sourcePath_ok hp, disclosedPath_ok ht,
      fun carryId hm => (by cases hm), rfl, rfl, hprv.volume, hcv.volume, h.identity_ne hro hc hpl, hl, by omega, by omega⟩
  · have hpv := h.valid.pendingRenames pend (mem_of_getElem? hpe)
    have hne := h.crosses _ (fst_mem_of_mem_zipIdx he) i hin pend cur hpe hc
    simp only [hb, hca]
    refine ⟨binding_ok hpv.root h.valid.clientInstance, hcb, sourcePath_ok hp, disclosedPath_ok ht, fun carryId hm => ?_, rfl,
      rfl, hpv.volume, hcv.volume, hne, hl, by omega, by omega⟩
    cases hm
    exact hpv.carryId

end AnsweredPage

/-! ## The response -/

/-- The outcomes of a response are told apart as the roots of the request are. -/
theorem identities_eq (h : List.Forall₂ (AnswersRoot req) roots outs) :
    (outs.map fun o => (o.binding.rootId, o.binding.rootGeneration)) = roots.map (·.root.identity) := by
  induction h with
  | nil => rfl
  | cons ha _ ih =>
    rw [map_cons, ih, ha.binding]
    rfl

/-- With an outcome for each root, within the limits, valid handoffs and old names, and every endpoint covered, a response can be
sent. -/
theorem response_ok {rid : Nat} (hid : rid ≠ 0) (hr : req.Valid) (hal : List.Forall₂ (AnswersRoot req) req.roots outs)
    (hl : validateSharedResponseLimits req outs answer.handoffs answer.pendingRenames = .ok ())
    (hh : ∀ shared ∈ answer.handoffs, shared.validate req.caller.clientInstance req.volumeId req.endUsn = .ok ())
    (he : ∀ shared ∈ answer.handoffs, ∀ endpoint ∈ shared.endpoints, ∃ out ∈ outs, ∃ cov,
      out.binding = endpoint ∧ out.coveredUntilUsn = some cov ∧ out.failure = none ∧
      out.requestedStartUsn ≤ shared.usn ∧ shared.usn < cov) (hp : ∀ shared ∈ answer.pendingRenames,
      shared.validate req.caller.clientInstance req.volumeId req.endUsn = .ok () ∧ ∃ out ∈ outs,
        ∃ cov, out.binding = shared.binding ∧ out.coveredUntilUsn = some cov ∧ out.failure = none ∧
        out.requestedStartUsn ≤ shared.oldUsn ∧ shared.oldUsn < cov) :
    validateResponse (.readVolume rid req.caller.clientInstance req.volumeId req.journalId req.endUsn
        req.maxRecords req.maxEvidenceBytes outs answer.handoffs answer.pendingRenames) = .ok () := by
  have hd : (outs.map fun o => (o.binding.rootId, o.binding.rootGeneration)).Nodup := by
    rw [identities_eq hal]
    exact pairwise_map.mpr hr.distinct
  unfold validateSharedResponseLimits at hl
  simp only [require_ok, Bool.not_eq_true', Bool.or_eq_false_iff, decide_eq_false_iff_not, Nat.not_lt] at hl
  have hrec := hl.1
  unfold totalRecords at hrec
  have hm : req.maxRecords ≤ maxRecordsLimit := (of_decide_eq_true hr.maxRecords).2
  have hca : ∀ out ∈ outs, out.candidates.length ≤ req.maxRecords := by
    intro out hme
    have := le_sum_of_mem (mem_map_of_mem (f := fun o : SharedJournalRootOutcome => o.candidates.length) hme)
    omega
  have hou : validateOutcomes req.caller.clientInstance req.volumeId req.endUsn req.maxRecords [] outs = .ok () := by
    refine validateOutcomes_ok.mpr ⟨?_, pairwise_map.mp hd⟩
    intro out hme
    obtain ⟨reqd, hreq, ha⟩ := forall₂_exists_left hal hme
    have hv := hr.roots reqd hreq
    refine ⟨ha.validate hr hv (hca out hme), ?_, ?_, not_mem_nil⟩
    · rw [ha.binding]; rfl
    · rw [ha.binding]; exact hv.volume
  have hend : 0 ≤ req.endUsn := by
    obtain ⟨reqd, hme⟩ := exists_mem_of_length_pos (of_decide_eq_true hr.rootCount).1
    exact (hr.roots reqd hme).start.trans (hr.roots reqd hme).range
  rw [validateResponse_readVolume]
  refine ⟨hid, ⟨⟨⟨⟨⟨⟨⟨⟨hr.clientInstance, hr.volume_ok⟩, hr.journal⟩, hend⟩, hr.maxRecords⟩, hr.maxEvidenceBytes⟩, ?_⟩, ?_⟩, ?_⟩,
    hou, ?_, ?_, hl⟩
  · rw [← hal.length_eq]
    exact hr.rootCount
  · have : maxRecordsLimit = maxSharedHandoffs := rfl
    omega
  · have : maxRecordsLimit = maxSharedPendingRenames := rfl
    omega
  · intro shared hme
    refine ⟨hh shared hme, fun endpoint hen => ?_⟩
    obtain ⟨out, ho, cov, rfl, hc, hf, hs, hre⟩ := he shared hme endpoint hen
    exact validateEndpoint_ok hd ho hc hf hs hre
  · intro shared hme
    obtain ⟨hv, out, ho, cov, hb, hc, hf, hs, hre⟩ := hp shared hme
    refine ⟨hv, ?_⟩
    rw [← hb]
    exact validateEndpoint_ok hd ho hc hf hs hre

/-! ## The read as a whole -/

/-- An admitted root is the one that was asked for. -/
theorem admitRoot_ok {e : SharedJournalRootRequest × Nat} {adm : AdmittedRoot}
    (h : admitRoot oeq host caller req e = .ok (.ok adm)) : adm.requested = e.1 := by
  obtain ⟨-, h⟩ := bind_unit_ok.mp h
  split at h
  · cases h
  · obtain ⟨-, h⟩ := bind_unit_ok.mp h
    split at h
    · cases h
    · cases h
      rfl

/-- Admissions follow the request. -/
theorem admitRoots_ok {rid : UInt64} {key : ActiveRequestKey} (h : admitRoots oeq host rid key req = .ok (caller, adms)) :
    List.Forall₂ (fun reqd admission => ∀ a, admission = .ok a → a.requested = reqd) req.roots adms := by
  unfold admitRoots at h
  obtain ⟨verified, -, h⟩ := bind_ok h
  obtain ⟨-, h⟩ := bind_unit_ok.mp h
  obtain ⟨found, hf, h⟩ := bind_ok h
  obtain ⟨rfl, rfl⟩ := Prod.mk.inj (ok.inj h)
  refine List.forall₂_iff_get.mpr ⟨?_, fun i hr had a ha => ?_⟩
  · have hl := (mapM_ok_iff.mp hf).length_eq
    rwa [length_zipIdx] at hl
  · have hg : found[i]? = some (.ok a) := by
      rw [getElem?_eq_getElem had]
      exact congrArg some ha
    obtain ⟨e, he, hadm⟩ := (mapM_getElem? hf).mp hg
    rw [getElem?_zipIdx, getElem?_eq_getElem hr] at he
    rw [admitRoot_ok hadm, ← Option.some.inj he]
    rfl

/-- The admitted roots are some of those that were asked for, in their order. -/
theorem admitted_sublist (h : List.Forall₂ (fun reqd admission => ∀ a, admission = .ok a → a.requested = reqd) roots adms) :
    ((adms.filterMap Except.toOption).map (·.requested)).Sublist roots := by
  induction h with
  | nil => exact List.Sublist.refl _
  | @cons reqd admission roots adms ha _ ih =>
    cases admission with
    | error code => exact ih.cons _
    | ok a =>
      obtain rfl := ha a rfl
      exact ih.cons_cons _

/-- The page of a read is the backend's answer for the admitted roots and the old names. -/
theorem readVolumePage_some (h : readVolumePage oeq host caller req adms = .ok (some read)) :
    read.admitted = adms.filterMap Except.toOption ∧ ValidPage req read.admitted read.page ∧
      ∃ volumeRead, host.readExistingJournalVolumePage volumeRead = .ok read.page ∧ volumeRead.pendingRenames =
        (req.pendingRenames.zipIdx.map (carryPendingRename oeq host caller read.admitted)).map (·.1) := by
  unfold readVolumePage at h
  split at h
  · cases h
  · next first rest ha =>
    obtain ⟨found, hf, h⟩ := bind_ok h
    cases h
    obtain ⟨-, hf⟩ := bind_unit_ok.mp hf
    obtain ⟨page, hp, hf⟩ := bind_ok hf
    obtain ⟨hv, hf⟩ := bind_unit_ok.mp hf
    cases hf
    exact ⟨ha.symm, validateSharedBackendPage_ok hv, _, mapError_ok.mp hp, rfl⟩

/-- An old name is read for the admitted root that is its own. -/
theorem carryPendingRename_readRootIndex (oeq : OrdinalEquals) (host : VolumeReadHost)
    (caller : CallerAuthorization) (admitted : List AdmittedRoot) (e : SharedJournalPendingRenameRequest × Nat) :
    (carryPendingRename oeq host caller admitted e).1.readRootIndex = admitted.findIdx? (·.requested.root == e.1.root) := by
  unfold carryPendingRename
  dsimp only
  split
  · rfl
  · split <;> rfl

/-- With one root per key, a page that leaves a root its own renames has no handoff from a root to itself. -/
theorem identity_ne_of_leavesOwnRoots {volumeRead : ExistingJournalVolumeRead} {page : SharedBackendJournalPage}
    {admitted : List AdmittedRoot} (hv : req.Valid) (hk : req.OneRootPerKey)
    (had : (admitted.map (·.requested)).Sublist req.roots) (hc : volumeRead.pendingRenames =
      (req.pendingRenames.zipIdx.map (carryPendingRename oeq host caller admitted)).map (·.1))
    (hl : page.LeavesOwnRoots volumeRead) {handoff : BackendJournalHandoff} (hm : handoff ∈ page.handoffs) {index : Nat}
    (hi : index ∈ handoff.previousPendingIndex) {pending : SharedJournalPendingRenameRequest} {current : AdmittedRoot}
    (hp : req.pendingRenames[index]? = some pending) (hcur : admitted[handoff.currentRootIndex]? = some current) :
    pending.root.identity ≠ current.requested.root.identity := by
  intro hs
  have hroot := hk pending (mem_of_getElem? hp) _ (had.subset (mem_map_of_mem (mem_of_getElem? hcur))) hs
  have hcarry : volumeRead.pendingRenames[index]? = some (carryPendingRename oeq host caller admitted (pending, index)).1 := by
    simp [hc, hp]
  refine hl handoff hm index hi _ hcarry ?_
  -- the admitted root is the first that equals the root of the old name: no other is told apart as it is
  obtain ⟨hlt, hget⟩ := List.getElem?_eq_some_iff.mp hcur
  rw [carryPendingRename_readRootIndex, findIdx?_eq_some_iff_getElem]
  refine ⟨hlt, by simp [hget, hroot], fun j hj => ?_⟩
  have hne := pairwise_iff_getElem.mp (pairwise_map.mp (hv.distinct.sublist had)) j _ (hj.trans hlt) hlt hj
  rw [hget] at hne
  simp only [beq_iff_eq]
  exact fun heq => hne (by rw [heq, hroot])

theorem readVolumePage_none (h : readVolumePage oeq host caller req adms = .ok none) : adms.filterMap Except.toOption = [] := by
  unfold readVolumePage at h
  split at h
  · next he => exact he
  · obtain ⟨found, -, h⟩ := bind_ok h
    cases h

/-- The response of a shared read can be sent, if its request has one root per key and the pages of its backend carry barriers and
leave a root its own renames. -/
theorem volume_response_valid {requestId : UInt64} {key : ActiveRequestKey} {response : BrokerResponse}
    (hrequest : request.validate = .ok ()) (hid : requestId ≠ 0) (hkeys : request.OneRootPerKey) (hhost : host.Filters)
    (hpages : ∀ volumeRead page, host.readExistingJournalVolumePage volumeRead = .ok page →
      page.CarriesBarriers ∧ page.LeavesOwnRoots volumeRead)
    (h : executeReadVolume ordinalEquals host requestId key request = .ok response) : validateResponse response = .ok () := by
  have hv := ReadJournalVolumeRequest.valid_of_validate hrequest
  have hid : requestId.toNat ≠ 0 := fun hz => hid (UInt64.toNat_inj.mp hz)
  obtain ⟨⟨caller, admissions⟩, he, h⟩ := bind_ok h
  obtain ⟨found, hf, h⟩ := bind_ok h
  obtain ⟨answer, ha, h⟩ := bind_ok h
  obtain ⟨outcomes, hou, h⟩ := bind_ok h
  obtain ⟨hl, h⟩ := bind_unit_ok.mp h
  obtain ⟨-, h⟩ := bind_unit_ok.mp h
  cases h
  have had := admitRoots_ok he
  have hfa : ∀ reqd code, AnswersRoot request reqd (sharedFailureOutcome request.caller reqd code) :=
    fun reqd code => .inr ⟨code, rfl⟩
  cases found with
  | none =>
    -- no root is admitted: the response holds failures only, and there is no page
    have ha : ({} : VolumeAnswer) = answer := ok.inj ha
    have hem := readVolumePage_none hf
    obtain ⟨hal, -⟩ := collectOutcomes_ok hfa had (by rw [hem, ← ha]; exact .nil) hou
    exact response_ok hid hv hal hl (by simp [← ha]) (by simp [← ha]) (by simp [← ha])
  | some read =>
    obtain ⟨hadm, hpa, volumeRead, hvo, hc⟩ := readVolumePage_some hf
    obtain ⟨reads, hr, ha⟩ := bind_ok ha
    obtain ⟨translation, ht, ha⟩ := bind_ok ha
    obtain rfl : pageAnswer read reads translation = answer := ok.inj ha
    obtain ⟨hba, hle⟩ := hpages volumeRead _ hvo
    have hsub := hadm ▸ admitted_sublist had
    have hs : AnsweredPage ordinalEquals host request read reads translation :=
      ⟨hv, hhost, hsub, hpa, hba, fun _ hm _ hi _ _ hp hcur => identity_ne_of_leavesOwnRoots hv hkeys hsub hc hle hm hi hp hcur,
        hr, ht⟩
    obtain ⟨hal, hm⟩ := collectOutcomes_ok hfa had (hadm ▸ hs.reads_answer) hou
    refine response_ok hid hv hal hl (fun _ hsh => hs.handoff_ok hsh) (fun shared hsh endpoint hen => ?_) fun shared hsh => ?_
    · obtain ⟨outcome, cov, ho, hres⟩ := hs.endpoint_covered hsh hen
      exact ⟨outcome, hm outcome ho, cov, hres⟩
    · obtain ⟨hok, outcome, cov, ho, hres⟩ := hs.pendingRename_ok hsh
      exact ⟨hok, outcome, hm outcome ho, cov, hres⟩

end

/-- The caller of the examples. -/
def knownCaller : CallerAuthorization := ⟨1, 1, 1, 1⟩

/-- A root as a client declares it. -/
def declaredRoot (rootId : String) (path : String) : RootAuthorization :=
  ⟨rootId, 1, "volume", List.replicate 8 1, utf16Text path⟩

/-- A client that reads `C:\\music` and has an old name of the root `rootId`, which lies in `C:\\photos`. -/
def carryRequest (rootId : String) : ReadJournalVolumeRequest where
  caller := ⟨1, 1, Vector.replicate 16 1⟩
  roots := [⟨declaredRoot "music" "C:\\music", ⟨Vector.replicate 32 1⟩, 10⟩]
  pendingRenames := [⟨"carry", "range", declaredRoot rootId "C:\\photos", some ⟨Vector.replicate 32 1⟩, List.replicate 8 7, 15,
    "a.jpg", false⟩]
  journalId := 1
  endUsn := 100
  maxRecords := 10
  maxEvidenceBytes := 1000
  timeoutMs := 1000

/-- The page on which the new name shows up, in `C:\\music`; the barrier of that root is not above the old name either. Where the
old name is read for a root, there is no handoff. -/
def carryPage (read : ExistingJournalVolumeRead) : SharedBackendJournalPage where
  candidatesByRoot := [.ok [⟨"volume", utf16Text "C:\\music\\a.jpg", none, List.replicate 8 7, 20, .path, false⟩]]
  handoffs :=
    if read.pendingRenames.any (·.readRootIndex.isSome) then []
    else [⟨none, some 0, 0, utf16Text "C:\\photos\\a.jpg", utf16Text "C:\\music\\a.jpg", List.replicate 8 7, 15, 20, false⟩]
  pendingRenames := []
  renameBarriersByRoot := [some 15]
  proof := some ⟨100, true, ⟨1, 0, 100⟩⟩

/-- A host that admits every root and discloses every candidate. -/
def openHost : VolumeReadHost where
  verifyClaim _ := .ok knownCaller
  check _ := .ok ()
  boundedStep _ := .ok ()
  authorizeRegisteredRoot _ caller root _ :=
    .ok ⟨caller, root, ⟨root.volumeId, root.rootIdentity, root.canonicalRootUtf16, [.ordinalCaseSensitive]⟩⟩
  filterDisclosableCandidates _ _ candidates := .ok candidates
  queryExistingJournal _ _ := .ok (.supported ⟨1, 0, 100⟩)
  readExistingJournalVolumePage read := .ok (carryPage read)

theorem openHost_filters : openHost.Filters := by
  intro site root cands disclosable h
  cases h
  exact List.Sublist.refl _

/-- The pages of the host are as a backend makes them. -/
theorem openHost_pages (volumeRead : ExistingJournalVolumeRead) (page : SharedBackendJournalPage)
    (h : openHost.readExistingJournalVolumePage volumeRead = .ok page) :
    page.CarriesBarriers ∧ page.LeavesOwnRoots volumeRead := by
  cases h
  have hone : ∀ handoff ∈ (carryPage volumeRead).handoffs,
      handoff.previousRootIndex = none ∧ handoff.currentRootIndex = 0 ∧ handoff.usn = 20 ∧
        ∀ carry ∈ volumeRead.pendingRenames, carry.readRootIndex = none := by
    intro handoff hm
    unfold carryPage at hm
    split at hm
    · cases hm
    · next hno =>
      rw [mem_singleton.mp hm]
      exact ⟨rfl, rfl, rfl, by simpa using hno⟩
  refine ⟨⟨?_, ?_, fun _ hm => (by cases hm)⟩, ?_⟩
  · intro handoff hm index hi
    rw [(hone handoff hm).1] at hi
    cases hi
  · intro handoff hm
    obtain ⟨-, hcur, husn, -⟩ := hone handoff hm
    exact ⟨15, by rw [hcur]; rfl, by rw [husn]; decide⟩
  · intro handoff hm index _ carry hc hown
    rw [(hone handoff hm).2.2.2 carry (mem_of_getElem? hc)] at hown
    cases hown

/-- What the client of the examples is answered. -/
def carryResponse (rootId : String) : Except BrokerFailureCode BrokerResponse :=
  executeReadVolume noOrdinalEquals openHost 7 (activeKey 7 knownCaller) (carryRequest rootId)

/-- A file that moved from another root. -/
theorem volume_response_valid_carried : ∃ response, carryResponse "photos" = .ok response ∧
    validateResponse response = .ok () := by
  have hok : (carryResponse "photos").isOk = true := by decide +kernel
  have hkeys : (carryRequest "photos").OneRootPerKey := by
    intro pending hp requested hr hs
    rw [mem_singleton.mp hp, mem_singleton.mp hr] at hs
    exact absurd hs (by decide)
  cases h : carryResponse "photos" with
  | error code => rw [h] at hok; cases hok
  | ok response =>
    exact ⟨response, rfl, volume_response_valid (by decide +kernel) (by decide) hkeys openHost_filters openHost_pages h⟩

/-- The old name belongs to an earlier place of the same root: the read succeeds, and its response is refused. -/
theorem own_root_handoff_refused : (carryRequest "music").validate = .ok () ∧ openHost.Filters ∧
    (∀ volumeRead, (carryPage volumeRead).CarriesBarriers) ∧ ∃ response, carryResponse "music" = .ok response ∧
      validateResponse response = .error (.invalidValue "shared_handoff") := by
  refine ⟨by decide +kernel, openHost_filters, fun volumeRead => (openHost_pages volumeRead _ rfl).1, ?_⟩
  have hr : (carryResponse "music").map validateResponse = .ok (.error (.invalidValue "shared_handoff")) := by
    decide +kernel
  cases h : carryResponse "music" with
  | error code => rw [h] at hr; cases hr
  | ok response =>
    rw [h] at hr
    exact ⟨response, rfl, Except.ok.inj hr⟩

end Ame
