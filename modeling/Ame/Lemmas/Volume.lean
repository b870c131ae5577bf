import Ame.Broker.Volume
import Ame.Lemmas.Wire
import Mathlib

/-!
# The parts of a shared read

What each stage of a read hands to the next: the request that has been checked, the candidates under a root, the rounds of the
translation, and the outcomes that a barrier cuts short.
-/

namespace Ame

open List Binary Result JournalReadInterval RootAuthorization

/-! ## The request -/

/-- What a root is told apart by. -/
def RootAuthorization.identity (root : RootAuthorization) : String × Nat := (root.rootId, root.rootGeneration)

theorem RootAuthorization.binding_ok {root : RootAuthorization} {caller : CallerClaim} (h : root.validate = .ok ())
    (hc : isZero caller.clientInstance = false) : (ResponseBinding.fromRequest caller root).validate = .ok () := by
  obtain ⟨hid, h⟩ := bind_unit_ok.mp h
  obtain ⟨hv, h⟩ := bind_unit_ok.mp h
  obtain ⟨hg, -⟩ := bind_unit_ok.mp h
  simp only [require_ok, Bool.not_eq_true', Bool.or_eq_false_iff, beq_eq_false_iff_ne] at hg
  exact ResponseBinding.validate_ok.mpr ⟨⟨hc, hg.1⟩, hid, hv⟩

/-- A requested root that has been checked. -/
structure SharedJournalRootRequest.Valid (request : ReadJournalVolumeRequest) (requested : SharedJournalRootRequest) :
    Prop where
  root : requested.root.validate = .ok ()
  volume : requested.root.volumeId = request.volumeId
  start : 0 ≤ requested.startUsn
  range : requested.startUsn ≤ request.endUsn

/-- The loop over the requested roots: each is valid and on the volume, and no two are the same. -/
theorem validateSharedRoots_ok {req : ReadJournalVolumeRequest} {identities : List (String × Nat)}
    {roots : List SharedJournalRootRequest} (h : validateSharedRoots req.volumeId req.endUsn identities roots = .ok ()) :
    (∀ reqd ∈ roots, reqd.Valid req ∧ reqd.root.identity ∉ identities) ∧
      roots.Pairwise fun a b => a.root.identity ≠ b.root.identity := by
  induction roots generalizing identities with
  | nil => simp
  | cons reqd roots ih =>
    rw [validateSharedRoots, bind_unit_ok, bind_unit_ok, require_ok] at h
    obtain ⟨hv, hc, hre⟩ := h
    simp only [Bool.not_eq_true', Bool.or_eq_false_iff, bne_eq_false_iff_eq, contains_eq_mem, decide_eq_false_iff_not] at hc
    obtain ⟨⟨hvo, hi⟩, hn⟩ := hc
    obtain ⟨hr, hp⟩ := ih hre
    have hra : 0 ≤ reqd.startUsn ∧ reqd.startUsn ≤ req.endUsn := by
      cases hni : new reqd.startUsn req.endUsn with
      | none => simp [hni] at hi
      | some ivl => exact (new_eq_some.mp hni).1
    obtain ⟨hro, -⟩ := bind_unit_ok.mp hv
    refine ⟨forall_mem_cons.mpr ⟨⟨⟨hro, hvo, hra.1, hra.2⟩, hn⟩, ?_⟩, pairwise_cons.mpr ⟨?_, hp⟩⟩
    · intro o ho
      exact ⟨(hr o ho).1, fun hm => (hr o ho).2 (mem_cons_of_mem _ hm)⟩
    · intro o ho hs
      apply (hr o ho).2
      rw [← hs]
      exact mem_cons_self

/-- An old name of a request that has been checked. -/
structure SharedJournalPendingRenameRequest.Valid (request : ReadJournalVolumeRequest)
    (pending : SharedJournalPendingRenameRequest) : Prop where
  carryId : validateWireIdentifier pending.carryId maxCarryIdBytes = .ok ()
  root : pending.root.validate = .ok ()
  volume : pending.root.volumeId = request.volumeId

theorem validateSharedPendingRenames_ok {req : ReadJournalVolumeRequest} {carryIds : List String}
    {pends : List SharedJournalPendingRenameRequest}
    (h : validateSharedPendingRenames req.volumeId req.journalId req.endUsn carryIds pends = .ok ()) :
    ∀ pending ∈ pends, pending.Valid req := by
  induction pends generalizing carryIds with
  | nil => simp
  | cons pending pends ih =>
    rw [validateSharedPendingRenames, bind_unit_ok, bind_unit_ok] at h
    obtain ⟨hv, -, hr⟩ := h
    unfold SharedJournalPendingRenameRequest.validate at hv
    simp only [bind_unit_ok, require_ok, Bool.not_eq_true', Bool.or_eq_false_iff, bne_eq_false_iff_eq] at hv
    obtain ⟨hc, -, hro, -, -, ⟨⟨⟨hvo, -⟩, -⟩, -⟩, -⟩ := hv
    exact forall_mem_cons.mpr ⟨⟨hc, hro, hvo⟩, ih hr⟩

/-- A request that has been checked. -/
structure ReadJournalVolumeRequest.Valid (request : ReadJournalVolumeRequest) : Prop where
  clientInstance : isZero request.caller.clientInstance = false
  journal : request.journalId ≠ 0
  rootCount : isBetweenOneAnd maxSharedRoots request.roots.length = true
  maxRecords : isBetweenOneAnd maxRecordsLimit request.maxRecords = true
  maxEvidenceBytes : isBetweenOneAnd maxEvidenceBytesLimit request.maxEvidenceBytes = true
  roots : ∀ requested ∈ request.roots, requested.Valid request
  distinct : request.roots.Pairwise fun a b => a.root.identity ≠ b.root.identity
  pendingRenames : ∀ pending ∈ request.pendingRenames, pending.Valid request

section

variable {req : ReadJournalVolumeRequest}

/-- What the validation ensures. -/
theorem ReadJournalVolumeRequest.valid_of_validate (h : req.validate = .ok ()) : req.Valid := by
  unfold ReadJournalVolumeRequest.validate at h
  simp only [bind_unit_ok, require_ok, Bool.not_eq_true', Bool.or_eq_false_iff, beq_eq_false_iff_ne, Bool.not_eq_false'] at h
  obtain ⟨hc, ⟨⟨⟨hj, hco⟩, hr⟩, he⟩, hro, -, hp, -⟩ := h
  unfold CallerClaim.validate at hc
  simp only [require_ok, Bool.not_eq_true', Bool.or_eq_false_iff] at hc
  obtain ⟨hvr, hd⟩ := validateSharedRoots_ok hro
  exact ⟨hc.2, hj, hco, hr, he, fun reqd hm => (hvr reqd hm).1, hd, validateSharedPendingRenames_ok hp⟩

/-- The volume of a request is that of its first root, and as such a valid identifier. -/
theorem ReadJournalVolumeRequest.Valid.volume_ok (h : req.Valid) :
    (validateWireIdentifier req.volumeId maxVolumeIdBytes).isOk = true := by
  obtain ⟨reqd, hm⟩ := exists_mem_of_length_pos (of_decide_eq_true h.rootCount).1
  have hr := h.roots reqd hm
  have hb := binding_ok hr.root h.clientInstance
  have hv := (ResponseBinding.validate_ok.mp hb).2.2
  rw [← hr.volume]
  exact hv ▸ rfl

/-- The start of a root is not before the lowest start. -/
theorem ReadJournalVolumeRequest.minimumStartUsn_le
    {requested : SharedJournalRootRequest} (h : requested ∈ req.roots) : req.minimumStartUsn ≤ requested.startUsn := by
  unfold minimumStartUsn
  have hm : requested.startUsn ∈ req.roots.map (·.startUsn) := mem_map_of_mem h
  cases hmi : (req.roots.map (·.startUsn)).min? with
  | none => rw [min?_eq_none_iff.mp hmi] at hm; cases hm
  | some lowest => exact (min?_eq_some_iff.mp hmi).2 _ hm

end

/-! ## Candidates under a root -/

section

variable {oeq : OrdinalEquals}
  {root : PinnedBrokerRoot} {canonicalRoot : NormalizedWindowsPath} {candidates cands : List BackendJournalCandidate}
  {range : JournalRange} {proof : JournalReadProof} {covered cov : Int} {req : ReadJournalVolumeRequest}
  {requested reqd : SharedJournalRootRequest} {out : SharedJournalRootOutcome} {idx : Nat} {adm : AdmittedRoot}

/-- A constrained candidate is valid. -/
theorem constrainCandidate_ok {cand : BackendJournalCandidate} {constrained : BrokerCandidate}
    (h : constrainCandidate oeq root canonicalRoot cand = .ok (some constrained)) :
    constrained.validate = .ok () ∧ constrained.usn = cand.usn := by
  obtain ⟨-, h⟩ := bind_unit_ok.mp h
  obtain ⟨cur, -, h⟩ := bind_ok h
  obtain ⟨currentScope, -, h⟩ := bind_ok h
  obtain ⟨prevScope, -, h⟩ := bind_ok h
  cases hs : candidateScopes cand currentScope prevScope with
  | none => rw [hs] at h; cases h
  | some scopes =>
    rw [hs] at h
    obtain ⟨hv, h⟩ := bind_unit_ok.mp h
    cases h
    exact ⟨mapError_ok.mp hv, rfl⟩

/-- The rounds of the loop over candidates: those that are kept are valid, and keep their order. -/
theorem constrained_of_forall₂ {results : List (Option BrokerCandidate)}
    (h : List.Forall₂ (fun c r => constrainCandidate oeq root canonicalRoot c = .ok r) cands results) :
    (∀ cand ∈ results.reduceOption, cand.validate = .ok ()) ∧
      (results.reduceOption.map (·.usn)).Sublist (cands.map (·.usn)) := by
  induction h with
  | nil => simp [List.reduceOption]
  | @cons cand res cands results hr _ ih =>
    cases res with
    | none =>
      exact ⟨ih.1, ih.2.cons _⟩
    | some constrained =>
      obtain ⟨hv, hu⟩ := constrainCandidate_ok hr
      rw [reduceOption_cons_of_some, map_cons, hu]
      exact ⟨forall_mem_cons.mpr ⟨hv, ih.1⟩, ih.2.cons_cons _⟩

/-- The candidates under a root are valid, and they are some of those before, in their order. -/
theorem constrainCandidates_ok {root : AuthorizedPinnedRoot}
    {constrained : List BrokerCandidate} (h : constrainCandidates oeq root cands = .ok constrained) :
    (∀ cand ∈ constrained, cand.validate = .ok ()) ∧ (constrained.map (·.usn)).Sublist (cands.map (·.usn)) := by
  obtain ⟨canonicalRoot, -, h⟩ := bind_ok h
  obtain ⟨results, hr, h⟩ := bind_ok h
  cases h
  exact constrained_of_forall₂ (mapM_ok_iff.mp hr)

/-- A path that is disclosed is a valid relative path. -/
theorem disclosedPath_ok {host : VolumeReadHost} {site : CallSite} {root : AuthorizedPinnedRoot}
    {rec : BackendJournalCandidate} {path : String}
    (h : disclosedPath oeq host site root rec = .ok path) : validateRelativePath path = .ok () := by
  obtain ⟨cand, -, h⟩ := bind_ok h
  obtain ⟨disclosable, -, h⟩ := bind_ok h
  obtain ⟨constrained, hc, h⟩ := bind_ok h
  split at h
  · next path' prevScope fref usn kind isDirectory =>
    cases h
    exact (BrokerCandidate.validate_ok.mp ((constrainCandidates_ok hc).1 _ mem_cons_self)).1
  · cases h

/-! ## The page of the backend -/

/-- The host's authorizer hands back some of the candidates it is given, in their order. -/
def VolumeReadHost.Filters (host : VolumeReadHost) : Prop :=
  ∀ site root candidates disclosable, host.filterDisclosableCandidates site root candidates = .ok disclosable →
    disclosable.Sublist candidates

/-- The loop over the candidates of a root: each is in the range that the page covers, and their numbers rise. -/
theorem hasInvalidCandidate_eq_false {last : Option Int} (h : hasInvalidCandidate range (some proof) last cands = false) :
    (∀ cand ∈ cands, cand.usn < proof.coveredUntilUsn ∧ ∀ usn ∈ last, usn < cand.usn) ∧
      cands.Pairwise fun a b => a.usn < b.usn := by
  induction cands generalizing last with
  | nil => simp
  | cons cand cands ih =>
    rw [hasInvalidCandidate] at h
    simp only [Bool.or_eq_false_iff, Option.all_some, decide_eq_false_iff_not, Int.not_le, Option.any_eq_false] at h
    obtain ⟨⟨⟨-, hco⟩, hla⟩, hr⟩ := h
    obtain ⟨hc, hp⟩ := ih hr
    have ha : ∀ usn ∈ last, usn < cand.usn := by
      intro usn hu
      simpa using hla usn hu
    refine ⟨forall_mem_cons.mpr ⟨⟨hco, ha⟩, ?_⟩, pairwise_cons.mpr ⟨?_, hp⟩⟩
    · intro o ho
      obtain ⟨ho, hl⟩ := hc o ho
      exact ⟨ho, fun usn hu => (ha usn hu).trans (hl _ rfl)⟩
    · intro o ho
      exact (hc o ho).2 _ rfl

/-- What the checks of a page say, as far as the answer depends on it. -/
structure ValidPage (request : ReadJournalVolumeRequest) (admitted : List AdmittedRoot) (page : SharedBackendJournalPage) :
    Prop where
  candidateCount : page.candidatesByRoot.length = admitted.length
  barrierCount : page.renameBarriersByRoot.length = admitted.length
  barrier : ∀ barrier, some barrier ∈ page.renameBarriersByRoot → barrier < request.endUsn
  crosses : ∀ handoff ∈ page.handoffs, handoff.previousRootIndex ≠ some handoff.currentRootIndex
  covered : ∀ proof ∈ page.proof, proof.coveredUntilUsn ≤ request.endUsn
  candidates : ∀ proof ∈ page.proof, ∀ candidates, .ok candidates ∈ page.candidatesByRoot →
    hasInvalidCandidate (admittedRange request admitted) (some proof) none candidates = false

theorem JournalReadInterval.admitsCoverage_iff {startUsn endUsn : Int} {isComplete : Bool} :
    (mk startUsn endUsn).admitsCoverage cov isComplete = true ↔
      (startUsn ≤ cov ∧ cov ≤ endUsn) ∧ (startUsn = endUsn → isComplete = true) ∧
        (startUsn ≠ endUsn → startUsn < cov ∧ isComplete = decide (cov = endUsn)) := by
  unfold admitsCoverage
  split
  · next h =>
    simp only at h
    refine ⟨fun h => (by cases h), fun hn => ?_⟩
    omega
  · next h =>
    simp only [not_or, Int.not_lt] at h ⊢
    split
    · next he =>
      have hc : cov = endUsn := by omega
      simp [he, hc]
    · next hne => simp [h, hne]

/-- A page that is accepted is valid. -/
theorem validateSharedBackendPage_ok {before : ExistingJournalMetadata} {adm : List AdmittedRoot}
    {page : SharedBackendJournalPage}
    (h : validateSharedBackendPage before (admittedRange req adm) page adm.length = .ok ()) : ValidPage req adm page := by
  unfold validateSharedBackendPage at h
  cases hi : new (admittedRange req adm).startUsn (admittedRange req adm).endUsn with
  | none => rw [hi] at h; cases h
  | some ivl =>
    rw [hi] at h
    obtain ⟨-, rfl⟩ := new_eq_some.mp hi
    simp only [bind_unit_ok, require_ok, Bool.not_eq_true'] at h
    obtain ⟨hpa, hp⟩ := h
    unfold isInvalidPage at hpa
    simp only [Bool.or_eq_false_iff, bne_eq_false_iff_eq, any_eq_false] at hpa
    obtain ⟨⟨⟨⟨⟨⟨⟨⟨hc, hb⟩, hba⟩, -⟩, -⟩, -⟩, hh⟩, -⟩, ho⟩ := hpa
    refine ⟨hc, hb, ?_, ?_, ?_, ?_⟩
    · intro bar hm
      have := hba _ hm
      simp only [Option.any_some, Bool.or_eq_true, decide_eq_true_eq, not_or, Int.not_le] at this
      exact this.2
    · intro ho hm hs
      apply hh ho hm
      simp [isInvalidHandoff, hs]
    · intro proof hm
      rw [hm] at hp
      obtain ⟨after, -, hp⟩ := bind_ok hp
      simp only [require_ok, Bool.not_eq_true', Bool.or_eq_false_iff, Bool.not_eq_false'] at hp
      exact (admitsCoverage_iff.mp hp.2).1.2
    · intro proof hm cands hc
      rw [hm] at ho
      exact Bool.eq_false_iff.mpr (ho cands (mem_filterMap.mpr ⟨_, hc, rfl⟩))

/-! ## The outcome of a root -/

/-- What a root that is read is answered with, up to `covered`. -/
structure ReadsRoot (request : ReadJournalVolumeRequest) (requested : SharedJournalRootRequest) (covered : Int)
    (outcome : SharedJournalRootOutcome) : Prop where
  binding : outcome.binding = .fromRequest request.caller requested.root
  start : outcome.requestedStartUsn = requested.startUsn
  coverage : outcome.coveredUntilUsn = some covered
  failure : outcome.failure = none
  admits : (JournalReadInterval.mk requested.startUsn request.endUsn).admitsCoverage covered outcome.isComplete = true
  candidates : validateCandidates requested.startUsn covered none outcome.candidates = .ok ()

/-- The outcome of a root, read or failed. -/
def AnswersRoot (request : ReadJournalVolumeRequest) (requested : SharedJournalRootRequest)
    (outcome : SharedJournalRootOutcome) : Prop :=
  (∃ covered, ReadsRoot request requested covered outcome) ∨
    ∃ code, outcome = sharedFailureOutcome request.caller requested code

theorem AnswersRoot.binding (h : AnswersRoot req reqd out) : out.binding = .fromRequest req.caller reqd.root := by
  rcases h with ⟨cov, h⟩ | ⟨code, rfl⟩
  · exact h.binding
  · rfl

/-- The outcome of a root passes its check. -/
theorem AnswersRoot.validate (h : AnswersRoot req reqd out) (hreq : req.Valid) (hr : reqd.Valid req)
    (hre : out.candidates.length ≤ req.maxRecords) : out.validate req.endUsn req.maxRecords = .ok () := by
  have hb := binding_ok hr.root hreq.clientInstance
  rw [SharedJournalRootOutcome.validate_ok, h.binding]
  rcases h with ⟨cov, h⟩ | ⟨code, rfl⟩
  · rw [h.start]
    exact ⟨hb, ⟨hr.start, hr.range⟩, .inl ⟨cov, h.coverage, h.failure, h.admits, hre, h.candidates⟩⟩
  · exact ⟨hb, ⟨hr.start, hr.range⟩, .inr ⟨rfl, rfl, rfl, rfl⟩⟩

/-- A read root is answered. -/
theorem readOutcome_ok {host : VolumeReadHost} (hh : host.Filters)
    (hca : hasInvalidCandidate range (some proof) none cands = false)
    (h : readOutcome oeq host req proof idx adm cands = .ok out) :
    ReadsRoot req adm.requested proof.coveredUntilUsn out := by
  obtain ⟨hi, h⟩ := bind_unit_ok.mp h
  obtain ⟨disclosable, hd, h⟩ := bind_ok h
  obtain ⟨constrained, hc, h⟩ := bind_ok h
  cases h
  obtain ⟨ivl, hn, ha⟩ := (Option.any_eq_true _ _).mp (require_ok.mp hi)
  obtain ⟨-, rfl⟩ := new_eq_some.mp hn
  obtain ⟨hb, hr⟩ := hasInvalidCandidate_eq_false hca
  obtain ⟨hv, hsub⟩ := constrainCandidates_ok hc
  have hsu := hsub.trans ((hh _ _ _ _ (mapError_ok.mp hd)).map _)
  refine ⟨rfl, rfl, rfl, rfl, ha, validateCandidates_ok.mpr ⟨?_, ?_⟩⟩
  · intro cand hm
    have hu := hsu.subset (mem_map_of_mem (f := (·.usn)) hm)
    obtain ⟨original, ho, hsa⟩ := mem_map.mp hu
    obtain ⟨ho, hs⟩ := mem_filter.mp ho
    have hs := of_decide_eq_true hs
    have hco := (hb original ho).1
    refine ⟨hv cand hm, ?_, ?_, fun usn hl => (by cases hl)⟩
    · rw [← hsa]; exact hs
    · rw [← hsa]; exact hco
  · have hp := (pairwise_map.mpr (hr.sublist filter_sublist)).sublist hsu
    exact pairwise_map.mp hp

/-- A root is read when its candidates are there with a proof and no old name it is asked for has failed it. -/
theorem readRoot_ok {host : VolumeReadHost} {proof : Option JournalReadProof}
    {carryFailures : List (Nat × BrokerFailureCode)} {candidates : Except BackendError (List BackendJournalCandidate)}
    (h : readRoot oeq host req proof carryFailures ((adm, candidates), idx) = .ok (.ok out)) :
    ∃ found p, candidates = .ok found ∧ proof = some p ∧ readOutcome oeq host req p idx adm found = .ok out := by
  simp only [readRoot] at h
  cases hf : failureOf carryFailures idx with
  | some code => simp [hf] at h
  | none =>
    cases candidates with
    | error e => simp [hf] at h
    | ok found =>
      cases proof with
      | none => simp [hf] at h
      | some p =>
        simp only [hf, Except.ok.injEq] at h
        exact ⟨found, p, rfl, rfl, h⟩

/-- A barrier after the start of a root and before the end of the range shortens what the root is answered. -/
theorem ReadsRoot.limit {barrier : Int} (h : ReadsRoot req reqd cov out)
    (hs : reqd.startUsn < barrier) (hen : barrier < req.endUsn) :
    ∃ limited, limitOutcome barrier out = .ok limited ∧ ReadsRoot req reqd (min cov barrier) limited := by
  obtain ⟨hb, hr, hco, hf, ha, hc⟩ := h
  rw [admitsCoverage_iff] at ha
  obtain ⟨hv, hp⟩ := validateCandidates_ok.mp hc
  unfold limitOutcome
  rw [if_neg (by omega)]
  refine ⟨_, rfl, hb, hr, ?_, hf, ?_, validateCandidates_ok.mpr ⟨?_, hp.filter _⟩⟩
  · simp only [hco, Option.elim_some]
  · refine admitsCoverage_iff.mpr ⟨by omega, fun he => by omega, fun _ => ⟨by omega, ?_⟩⟩
    exact (decide_eq_false (by omega)).symm
  · intro cand hm
    obtain ⟨hm, hbe⟩ := mem_filter.mp hm
    obtain ⟨hca, hfr, hto, -⟩ := hv cand hm
    exact ⟨hca, hfr, lt_min hto (of_decide_eq_true hbe), fun usn hl => (by cases hl)⟩

/-! ## The rounds of the translation -/

section

variable {host : VolumeReadHost} {adm : List AdmittedRoot}
  {carries : List BackendPendingRenameCarry} {ho : BackendJournalHandoff}
  {source : HandoffSource} {cur : AdmittedRoot} {pending : BackendPendingRename}
  {shared : SharedJournalPendingRename} {bar : Int} {round : Translation}

/-- The endpoint a handoff starts from is an admitted root, or the root of an old name of the request. -/
theorem handoffSource_ok (h : handoffSource req adm carries ho = .ok source) :
    (∃ i prev, ho.previousRootIndex = some i ∧ adm[i]? = some prev ∧
      source.binding = .fromRequest req.caller prev.requested.root ∧ source.carryId = none ∧
      source.startUsn = prev.requested.startUsn) ∨
    ∃ i reqd, ho.previousPendingIndex = some i ∧ req.pendingRenames[i]? = some reqd ∧
      source.binding = .fromRequest req.caller reqd.root ∧ source.carryId = some reqd.carryId := by
  unfold handoffSource at h
  split at h
  · next i hro _ =>
    split at h
    · cases h
    · next prev hp =>
      cases h
      exact .inl ⟨i, prev, hro, hp, rfl, rfl, rfl⟩
  · next i _ hpe =>
    split at h
    · next carry reqd _ hr =>
      split at h
      · cases h
      · split at h
        · cases h
        · cases h
          exact .inr ⟨i, reqd, hpe, hr, rfl, rfl⟩
    · cases h
  · cases h

theorem isUnsupportedHandoff_eq_false : isUnsupportedHandoff ho source cur cov = false ↔
    isReferenceLength ho.fileReference.length = true ∧ source.startUsn ≤ ho.oldUsn ∧ 0 ≤ ho.oldUsn ∧
      ho.oldUsn < ho.usn ∧ cur.requested.startUsn ≤ ho.usn ∧ ho.usn < cov := by
  simp only [isUnsupportedHandoff, Bool.or_eq_false_iff, Bool.not_eq_false', decide_eq_false_iff_not, Int.not_lt, Int.not_le,
    and_assoc]

theorem sourcePath_ok {path : String} (h : sourcePath oeq host idx ho source = .ok path) :
    validateRelativePath path = .ok () := by
  obtain ⟨disclosed, hd, h⟩ := bind_ok h
  obtain ⟨-, h⟩ := bind_unit_ok.mp h
  cases h
  exact disclosedPath_ok hd

/-- The handoff that a round adds, if it adds one. -/
theorem mem_translateEndpoints_handoffs {shared : SharedJournalHandoff} :
    shared ∈ (translateEndpoints oeq host req cov idx ho source cur).handoffs ↔ isUnsupportedHandoff ho source cur cov = false ∧
        ∃ prevPath currentPath, sourcePath oeq host idx ho source = .ok prevPath ∧
          targetPath oeq host idx ho cur = .ok currentPath ∧
          shared = ⟨source.binding, .fromRequest req.caller cur.requested.root, ho.fileReference, ho.usn,
            prevPath, currentPath, ho.isDirectory, source.carryId⟩ := by
  unfold translateEndpoints
  by_cases hu : isUnsupportedHandoff ho source cur cov = true
  · simp [hu]
  · rw [if_neg hu]
    rw [Bool.not_eq_true] at hu
    cases hs : sourcePath oeq host idx ho source with
    | error code => simp
    | ok prevPath =>
      cases ht : targetPath oeq host idx ho cur with
      | error code => simp [preserveVerifiedHandoffSource]
      | ok currentPath => simp [hu]

/-- The old name that a round keeps: that of an admitted root, not of a client's old name. -/
theorem of_mem_translateEndpoints_pendingRenames
    (h : shared ∈ (translateEndpoints oeq host req cov idx ho source cur).pendingRenames) :
    isUnsupportedHandoff ho source cur cov = false ∧ source.carryId = none ∧
      ∃ path, sourcePath oeq host idx ho source = .ok path ∧
        shared = ⟨source.binding, ho.fileReference, ho.oldUsn, path, ho.isDirectory⟩ := by
  unfold translateEndpoints at h
  by_cases hu : isUnsupportedHandoff ho source cur cov = true
  · simp [hu] at h
  · rw [if_neg hu] at h
    cases hs : sourcePath oeq host idx ho source with
    | error code => simp [hs] at h
    | ok path =>
      cases ht : targetPath oeq host idx ho cur with
      | ok currentPath => simp [hs, ht] at h
      | error code =>
        simp only [hs, ht, preserveVerifiedHandoffSource] at h
        split at h
        · next hc => exact ⟨by simpa using hu, by simpa using hc, path, rfl, by simpa using h⟩
        · cases h

/-- A barrier of a round is a record that the page covers, or the lowest start. -/
theorem of_mem_translateEndpoints_barriers (h : bar ∈ (translateEndpoints oeq host req cov idx ho source cur).barriers) :
    bar < cov ∨ bar = req.minimumStartUsn := by
  have hsa : safeOldBarrier req ho cov < cov ∨ safeOldBarrier req ho cov = req.minimumStartUsn := by
    unfold safeOldBarrier
    split
    · next hold => exact .inl hold.2.2
    · exact .inr rfl
  unfold translateEndpoints at h
  by_cases hu : isUnsupportedHandoff ho source cur cov = true
  · rw [if_pos hu, mem_singleton] at h
    rwa [h]
  · rw [if_neg hu] at h
    rw [Bool.not_eq_true] at hu
    cases hs : sourcePath oeq host idx ho source with
    | error code =>
      simp only [hs, mem_singleton] at h
      rwa [h]
    | ok path =>
      cases ht : targetPath oeq host idx ho cur with
      | ok currentPath => simp [hs, ht] at h
      | error code =>
        simp only [hs, ht, preserveVerifiedHandoffSource, mem_singleton] at h
        rw [h]
        exact .inl (isUnsupportedHandoff_eq_false.mp hu).2.2.2.2.2

/-- The old name that a round adds, if it adds one. -/
theorem of_mem_translateOldName_pendingRenames
    (h : shared ∈ (translateOldName oeq host req cov idx pending cur).pendingRenames) :
    isReferenceLength pending.fileReference.length = true ∧ cur.requested.startUsn ≤ pending.oldUsn ∧
      pending.oldUsn < cov ∧ ∃ path, validateRelativePath path = .ok () ∧
        shared = ⟨.fromRequest req.caller cur.requested.root, pending.fileReference, pending.oldUsn, path,
          pending.isDirectory⟩ := by
  unfold translateOldName at h
  split at h
  · cases h
  · next hr =>
    simp only [Bool.or_eq_true, Bool.not_eq_true', decide_eq_true_eq, not_or, Bool.not_eq_false, Int.not_lt, Int.not_le] at hr
    split at h
    · cases h
    · next path hp => exact ⟨hr.1.1, hr.1.2, hr.2, path, disclosedPath_ok hp, mem_singleton.mp h⟩

theorem of_mem_translateOldName_barriers (h : bar ∈ (translateOldName oeq host req cov idx pending cur).barriers) :
    bar < cov ∨ bar = req.minimumStartUsn := by
  unfold translateOldName at h
  split at h
  · rw [mem_singleton] at h
    rw [h]
    split
    · next hold => exact .inl hold.2
    · exact .inr rfl
  · next hr =>
    simp only [Bool.or_eq_true, decide_eq_true_eq, not_or, Int.not_le] at hr
    split at h
    · rw [mem_singleton.mp h]
      exact .inl hr.2
    · cases h

theorem translateHandoff_ok {e : BackendJournalHandoff × Nat} : translateHandoff oeq host req adm carries cov e = .ok round ↔
      ∃ cur source, adm[e.1.currentRootIndex]? = some cur ∧ handoffSource req adm carries e.1 = .ok source ∧
        translateEndpoints oeq host req cov e.2 e.1 source cur = round := by
  obtain ⟨ho, idx⟩ := e
  simp only [translateHandoff]
  cases hc : adm[ho.currentRootIndex]? with
  | none => simp
  | some cur =>
    cases hs : handoffSource req adm carries ho with
    | error code => simp [bind, Except.bind]
    | ok source => simp [bind, Except.bind, pure, Except.pure]

theorem translatePendingRename_ok {e : BackendPendingRename × Nat} : translatePendingRename oeq host req adm cov e = .ok round ↔
      ∃ cur, adm[e.1.rootIndex]? = some cur ∧ translateOldName oeq host req cov e.2 e.1 cur = round := by
  obtain ⟨pending, idx⟩ := e
  simp only [translatePendingRename]
  cases adm[pending.rootIndex]? <;> simp

/-- A translated page with a proof is the sum of its rounds. -/
theorem translatePage_ok {page : SharedBackendJournalPage} {tr : Translation}
    (h : translatePage oeq host req adm carries page = .ok tr) :
    (page.proof = none ∧ tr = {}) ∨ ∃ proof rounds oldNames, page.proof = some proof ∧
      page.handoffs.zipIdx.mapM (translateHandoff oeq host req adm carries proof.coveredUntilUsn) = .ok rounds ∧
      page.pendingRenames.zipIdx.mapM (translatePendingRename oeq host req adm proof.coveredUntilUsn) =
        .ok oldNames ∧ tr = .join (rounds ++ oldNames) := by
  unfold translatePage at h
  cases hp : page.proof with
  | none =>
    rw [hp] at h
    exact .inl ⟨rfl, (Except.ok.inj h).symm⟩
  | some proof =>
    rw [hp] at h
    obtain ⟨rounds, hr, h⟩ := bind_ok h
    obtain ⟨oldNames, hon, h⟩ := bind_ok h
    exact .inr ⟨proof, rounds, oldNames, rfl, hr, hon, (Except.ok.inj h).symm⟩

end

/-! ## The outcomes in the order of the request -/

/-- What holds of each result and of each failure holds of the outcomes, and every result is among them. -/
theorem collectOutcomes_ok {caller : CallerClaim} {P : SharedJournalRootRequest → SharedJournalRootOutcome → Prop}
    (hf : ∀ reqd code, P reqd (sharedFailureOutcome caller reqd code))
    {roots : List SharedJournalRootRequest} {admissions : List (Except BrokerFailureCode AdmittedRoot)}
    {reads : RootReads} {outs : List SharedJournalRootOutcome}
    (ha : List.Forall₂ (fun reqd admission => ∀ a, admission = .ok a → a.requested = reqd) roots admissions)
    (hr : List.Forall₂ (fun (a : AdmittedRoot) read => ∀ out, read = .ok out → P a.requested out)
      (admissions.filterMap Except.toOption) reads) (h : collectOutcomes caller roots admissions reads = .ok outs) :
    List.Forall₂ P roots outs ∧ ∀ out, .ok out ∈ reads → out ∈ outs := by
  induction ha generalizing reads outs with
  | nil =>
    cases reads with
    | nil =>
      cases h
      exact ⟨.nil, by simp⟩
    | cons read reads => cases h
  | @cons reqd admission roots admissions had _ ih =>
    cases admission with
    | error code =>
      obtain ⟨rest, hre, h⟩ := bind_ok h
      cases h
      obtain ⟨hal, hm⟩ := ih hr hre
      exact ⟨.cons (hf reqd code) hal, fun out ho => mem_cons_of_mem _ (hm out ho)⟩
    | ok a =>
      obtain rfl := had a rfl
      obtain ⟨read, rest, hrea, hrr, rfl⟩ := List.forall₂_cons_left_iff.mp hr
      cases read with
      | error code =>
        obtain ⟨restOutcomes, hre, h⟩ := bind_ok h
        cases h
        obtain ⟨hal, hm⟩ := ih hrr hre
        refine ⟨.cons (hf a.requested code) hal, fun out ho => ?_⟩
        rcases mem_cons.mp ho with ho | ho
        · cases ho
        · exact mem_cons_of_mem _ (hm out ho)
      | ok first =>
        obtain ⟨restOutcomes, hre, h⟩ := bind_ok h
        cases h
        obtain ⟨hal, hm⟩ := ih hrr hre
        refine ⟨.cons (hrea first rfl) hal, fun out ho => ?_⟩
        rcases mem_cons.mp ho with ho | ho
        · cases ho
          exact mem_cons_self
        · exact mem_cons_of_mem _ (hm out ho)

end

end Ame
