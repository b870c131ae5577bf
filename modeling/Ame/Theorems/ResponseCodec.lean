import Ame.Lemmas.Codec
import Ame.Lemmas.Path
import Ame.Lemmas.Wire

/-!
# Responses are decoded as they are encoded, except for large pages

Decoding accepts the bytes of the format and nothing else, and encoding writes them for every response that passes its check.
The check does not bound the evidence of a `ReadRange` page as the reader does, and a page over that bound is written but not
read.
-/

namespace Ame

variable {out : SharedJournalRootOutcome} {ho : SharedJournalHandoff} {pend : SharedJournalPendingRename}
  {evid total maximum n : Nat} {α : Type} {endUsn : Int} {vol : String} {payload : List UInt8}

open List Binary Result SharedJournalHandoff BrokerResponse

/-! ## Writing the parts of a response -/

theorem appends_outcome (h : out.Fits) : Appends (Writer.outcome out) (Format.outcome out) := by
  obtain ⟨hb, -, hp⟩ := h
  cases hf : out.failure with
  | some fail => simp [Writer.outcome, Format.outcome, Writer.outcomeProof, Format.outcomeProof, ok_bind, appends_binding hb, hf]
  | none =>
    rw [hf] at hp
    obtain ⟨⟨cov, hco, -⟩, hl, hc⟩ := hp
    simp (disch := omega) [Writer.outcome, Format.outcome, Writer.outcomeProof, Format.outcomeProof, ok_bind, appends_binding hb,
      hf, hco, appends_forM fun cand hm => appends_candidate (hc cand hm)]

theorem appends_handoff (h : ho.Fits) : Appends (Writer.handoff ho) (Format.handoff ho) := by
  simp only [SharedJournalHandoff.Fits, maxPathUtf16Units] at h
  have hca := appends_optional fun carryId hm => appends_string (lt_of_le_of_lt (h.2.2.2.2.2.2 carryId hm) (by decide))
  simp (disch := omega) [Writer.handoff, Format.handoff, ok_bind, appends_binding h.1, appends_binding h.2.1, hca]

theorem appends_pendingRename (h : pend.Fits) : Appends (Writer.pendingRename pend) (Format.pendingRename pend) := by
  simp only [SharedJournalPendingRename.Fits, maxPathUtf16Units] at h
  simp (disch := omega) [Writer.pendingRename, Format.pendingRename, ok_bind, appends_binding h.1]

theorem appends_response {resp : BrokerResponse} (h : resp.Fits) : Appends (Writer.response resp) (Format.response resp) := by
  cases resp <;> simp only [Writer.response, Format.response, Format.responseFields, Format.responseKind, requestId]
  case rootRegistered => simp [ok_bind, appends_binding h]
  case journal | readRangeAccepted => simp [ok_bind, appends_binding h.1]
  case readVolumeAccepted =>
    simp only [BrokerResponse.Fits, maxVolumeIdBytes] at h
    simp (disch := omega) [ok_bind]
  case readVolume =>
    obtain ⟨hv, -, -, -, -, hc, ho, hhc, hh, hpc, hp⟩ := h
    have hc := (of_decide_eq_true hc).2
    simp only [maxSharedRoots, maxVolumeIdBytes, maxSharedHandoffs, maxSharedPendingRenames] at hv hc hhc hpc
    simp (disch := omega) [ok_bind, appends_forM fun out hm => appends_outcome (ho out hm),
      appends_forM fun ho hm => appends_handoff (hh ho hm), appends_forM fun pend hm => appends_pendingRename (hp pend hm)]
  case readRange =>
    obtain ⟨hb, -, -, -, -, -, -, hc, hca⟩ := h
    simp only [maxRecordsLimit] at hc
    simp (disch := omega) [ok_bind, appends_binding hb, appends_forM fun cand hm => appends_candidate (hca cand hm)]
  case cancelled => simp [ok_bind]
  case failure => simp [ok_bind, appends_optional fun _ _ => appends_bytes _]

/-! ## Codes -/

theorem decodeCandidateKind_ok (code : Nat) (kind : CandidateKind) :
    decodeCandidateKind code = .ok kind ↔ code = candidateKindCode kind := by
  constructor
  · intro h
    unfold decodeCandidateKind at h
    split at h <;> cases h <;> rfl
  · rintro rfl
    cases kind <;> rfl

theorem decodeCapability_ok (code : Nat) (capa : JournalCapability) :
    decodeCapability code = .ok capa ↔ code = capabilityCode capa := by
  constructor
  · intro h
    unfold decodeCapability at h
    split at h <;> cases h <;> rfl
  · rintro rfl
    cases capa <;> rfl

theorem decodeFailureCode_ok (code : Nat) (fail : BrokerFailureCode) :
    decodeFailureCode code = .ok fail ↔ code = failureCode fail := by
  constructor
  · intro h
    unfold decodeFailureCode at h
    split at h <;> cases h <;> rfl
  · rintro rfl
    cases fail <;> rfl

@[simp] theorem reads_candidateKind : Reads Reader.candidateKind (fun _ => True)
    (fun kind => leBytes 1 (candidateKindCode kind)) :=
  (reads_unsigned 1).decode decodeCandidateKind_ok fun kind => by cases kind <;> decide

@[simp] theorem reads_capability : Reads Reader.capability (fun _ => True) (fun capa => leBytes 1 (capabilityCode capa)) :=
  (reads_unsigned 1).decode decodeCapability_ok fun capa => by cases capa <;> decide

@[simp] theorem reads_failure : Reads Reader.failure (fun _ => True) (fun fail => leBytes 2 (failureCode fail)) :=
  (reads_unsigned 2).decode decodeFailureCode_ok fun fail => by cases fail <;> decide

/-! ## Reading the parts of a response -/

@[simp] theorem reads_scope : Reads Reader.scope CandidateScope.Fits Format.scope := by
  intro input scope rest
  simp only [Reader.scope, takes_bind, reads_u8]
  constructor
  · rintro ⟨tag, mid, ⟨-, rfl⟩, h⟩
    unfold Reader.scopeOf at h
    split at h <;> simp [maxPathUtf16Units] at h
    · obtain ⟨rfl, rfl⟩ := h
      exact ⟨trivial, rfl⟩
    · obtain ⟨path, ⟨hf, rfl⟩, rfl⟩ := h
      exact ⟨hf, (append_assoc _ _ _).symm⟩
  · rintro ⟨hf, rfl⟩
    cases scope with
    | root => exact ⟨0, rest, ⟨by decide, rfl⟩, rfl⟩
    | relativePath path =>
      refine ⟨1, _, ⟨by decide, append_assoc _ _ _⟩, ?_⟩
      simpa [Reader.scopeOf, CandidateScope.Fits, maxPathUtf16Units] using hf

@[simp] theorem reads_candidate : Reads Reader.candidate BrokerCandidate.Fits Format.candidate := by
  rintro input ⟨⟩ rest
  simp [Reader.candidate, BrokerCandidate.Fits, BrokerCandidate.InRange, Format.candidate, reads_optional reads_scope,
    -Bool.exists_bool]
  tauto

theorem reads_handoff : Reads Reader.handoff SharedJournalHandoff.Fits Format.handoff := by
  rintro input ⟨⟩ rest
  simp [Reader.handoff, SharedJournalHandoff.Fits, Format.handoff, maxPathUtf16Units, maxCarryIdBytes,
    reads_optional (reads_string _), -Bool.exists_bool]
  tauto

theorem reads_pendingRename : Reads Reader.pendingRename SharedJournalPendingRename.Fits Format.pendingRename := by
  rintro input ⟨⟩ rest
  simp [Reader.pendingRename, SharedJournalPendingRename.Fits, Format.pendingRename, maxPathUtf16Units, -Bool.exists_bool]
  tauto

/-! ## The loops and what they count -/

theorem addEvidence_ok {size : Nat} :
    addEvidence evid size = .ok total ↔ total = evid + size ∧ total ≤ maxEvidenceBytesLimit := by
  unfold addEvidence
  split
  · exact ⟨fun h => (by cases h), fun h => (by omega)⟩
  · rw [Except.ok.injEq]
    omega

theorem addRecords_ok {recs more : Nat} : addRecords recs more = .ok total ↔ total = recs + more ∧ total ≤ maxRecordsLimit := by
  unfold addRecords
  split
  · exact ⟨fun h => (by cases h), fun h => (by omega)⟩
  · rw [Except.ok.injEq]
    omega

theorem reads_nextCandidate (evid : Nat) : Reads (Reader.nextCandidate evid)
    (fun r => r.1.Fits ∧ r.2 = evid + r.1.evidenceBytes ∧ r.2 ≤ maxEvidenceBytesLimit)
    (fun r => Format.candidate r.1) := by
  rintro input ⟨cand, total⟩ rest
  simp [Reader.nextCandidate, addEvidence_ok]
  grind

theorem foldl_evidence (cands : List BrokerCandidate) (evid : Nat) :
    cands.foldl (fun total cand => total + cand.evidenceBytes) evid = evid + candidateEvidence cands := by
  induction cands generalizing evid with
  | nil => rfl
  | cons cand cands ih =>
    rw [foldl_cons, ih, candidateEvidence, candidateEvidence, map_cons, sum_cons, Nat.add_assoc]

/-- The candidates of a page or an outcome, with their evidence. -/
theorem reads_candidates (h : evid ≤ maxEvidenceBytesLimit) (count : Nat) : Reads (manyFrom Reader.nextCandidate count evid)
      (fun r => (r.1.length = count ∧ ∀ cand ∈ r.1, cand.Fits) ∧ r.2 = evid + candidateEvidence r.1 ∧
        r.2 ≤ maxEvidenceBytesLimit) (fun r => r.1.flatMap Format.candidate) := by
  have hl := @Reads.manyFrom WireError BrokerCandidate BrokerCandidate.Fits Format.candidate Nat Reader.nextCandidate
    (fun total cand => total + cand.evidenceBytes) (· ≤ maxEvidenceBytesLimit)
    (fun total cand hle => Nat.le_of_add_right_le hle) (fun total _ => reads_nextCandidate total) count evid h
  simpa only [foldl_evidence] using hl

section

variable (totals : Reader.Totals)

/-- The limits of a message. -/
def Reader.Totals.Bounded : Prop :=
  totals.records ≤ maxRecordsLimit ∧ totals.evidence ≤ maxEvidenceBytesLimit

/-- The totals with one more record. -/
def Reader.Totals.addRecord (size : Nat) : Reader.Totals :=
  ⟨totals.records + 1, totals.evidence + size⟩

/-- The totals with the candidates of one more outcome. -/
def Reader.Totals.addOutcome (outcome : SharedJournalRootOutcome) : Reader.Totals :=
  ⟨totals.records + outcome.candidates.length, totals.evidence + candidateEvidence outcome.candidates⟩

end

theorem reads_nextRecord {read : WireStream α} {F : α → Prop} {L : α → List UInt8} (h : Reads read F L)
    (size : α → Nat) (totals : Reader.Totals) : Reads (Reader.nextRecord read size totals)
      (fun r => F r.1 ∧ r.2 = totals.addRecord (size r.1) ∧ r.2.Bounded) (fun r => L r.1) := by
  rintro input ⟨a, after⟩ rest
  simp [Reader.nextRecord, h, addEvidence_ok, addRecords_ok, Reader.Totals.addRecord, Reader.Totals.Bounded]
  grind

theorem foldl_addRecord (size : α → Nat) (l : List α) (totals : Reader.Totals) :
    l.foldl (fun totals a => totals.addRecord (size a)) totals =
      ⟨totals.records + l.length, totals.evidence + (l.map size).sum⟩ := by
  induction l generalizing totals with
  | nil => rfl
  | cons a l ih =>
    rw [foldl_cons, ih, Reader.Totals.addRecord, Reader.Totals.mk.injEq, length_cons, map_cons, sum_cons]
    dsimp only
    omega

/-- The handoffs or the old names of a page, with what they add to the totals. -/
theorem reads_records {read : WireStream α} {F : α → Prop} {L : α → List UInt8} (h : Reads read F L)
    (size : α → Nat) {totals : Reader.Totals} (hb : totals.Bounded) (count : Nat) :
    Reads (manyFrom (Reader.nextRecord read size) count totals) (fun r => (r.1.length = count ∧ ∀ a ∈ r.1, F a) ∧
        r.2 = ⟨totals.records + r.1.length, totals.evidence + (r.1.map size).sum⟩ ∧ r.2.Bounded)
      (fun r => r.1.flatMap L) := by
  have hl := @Reads.manyFrom WireError α F L Reader.Totals (Reader.nextRecord read size)
    (fun totals a => totals.addRecord (size a)) Reader.Totals.Bounded
    (fun totals a hle => ⟨Nat.le_of_succ_le hle.1, Nat.le_of_add_right_le hle.2⟩)
    (fun totals _ => reads_nextRecord h size totals) count totals hb
  simpa only [foldl_addRecord] using hl

theorem reads_nextOutcome {totals : Reader.Totals} (hbo : totals.Bounded) : Reads (Reader.nextOutcome totals)
    (fun r => r.1.Fits ∧ r.2 = totals.addOutcome r.1 ∧ r.2.Bounded) (fun r => Format.outcome r.1) := by
  rintro input ⟨⟨bound, start, covered, isComplete, cands, fail⟩, after⟩ rest
  cases fail with
  | some code =>
    simp only [Reader.nextOutcome, Reader.outcomeProof, takes_bind, takes_ite]
    simp [SharedJournalRootOutcome.Fits, Format.outcome, Format.outcomeProof]
    constructor
    · rintro ⟨⟨hb, rfl⟩, hs, ⟨rfl, rfl, rfl⟩, rfl⟩
      exact ⟨⟨⟨hb, hs, rfl, rfl, rfl⟩, rfl, hbo⟩, rfl⟩
    · rintro ⟨⟨⟨hb, hs, rfl, rfl, rfl⟩, rfl, -⟩, rfl⟩
      exact ⟨⟨hb, rfl⟩, hs, ⟨rfl, rfl, rfl⟩, rfl⟩
  | none =>
    cases covered <;> cases isComplete <;> simp [Reader.nextOutcome, Reader.outcomeProof, addRecords_ok, reads_candidates hbo.2,
      SharedJournalRootOutcome.Fits, Format.outcome, Format.outcomeProof, Reader.Totals.addOutcome, Reader.Totals.Bounded]
    all_goals grind

theorem foldl_addOutcome (outs : List SharedJournalRootOutcome) (totals : Reader.Totals) :
    outs.foldl Reader.Totals.addOutcome totals = ⟨totals.records + (outs.map (·.candidates.length)).sum,
      totals.evidence + (outs.map fun out => candidateEvidence out.candidates).sum⟩ := by
  induction outs generalizing totals with
  | nil => rfl
  | cons out outs ih =>
    rw [foldl_cons, ih, Reader.Totals.addOutcome, Reader.Totals.mk.injEq, map_cons, map_cons, sum_cons, sum_cons]
    dsimp only
    omega

/-- The outcomes of a page, with what they add to the totals. -/
theorem reads_outcomes (count : Nat) : Reads (manyFrom Reader.nextOutcome count ⟨0, 0⟩)
    (fun r => (r.1.length = count ∧ ∀ out ∈ r.1, out.Fits) ∧
      r.2 = ⟨(r.1.map (·.candidates.length)).sum, (r.1.map fun out => candidateEvidence out.candidates).sum⟩ ∧
      r.2.Bounded) (fun r => r.1.flatMap Format.outcome) := by
  have hl := @Reads.manyFrom WireError SharedJournalRootOutcome SharedJournalRootOutcome.Fits Format.outcome
    Reader.Totals Reader.nextOutcome Reader.Totals.addOutcome Reader.Totals.Bounded
    (fun totals out hle => ⟨Nat.le_of_add_right_le hle.1, Nat.le_of_add_right_le hle.2⟩)
    (fun totals => reads_nextOutcome) count ⟨0, 0⟩ ⟨Nat.zero_le _, Nat.zero_le _⟩
  simpa only [foldl_addOutcome, Nat.zero_add] using hl

@[simp] theorem reads_boundedLength (h : maximum < 2 ^ 32) : Reads (Reader.boundedLength maximum) (· ≤ maximum) (leBytes 4) := by
  intro input n rest
  have hl : n ≤ maximum → n < 2 ^ 32 := (lt_of_le_of_lt · h)
  simp [Reader.boundedLength]
  tauto

/-! ## Reading the fields of a response by its kind -/

/-- The responses of a kind and number that the reader accepts. -/
def OfKind (kind requestId : Nat) (response : BrokerResponse) : Prop :=
  (Format.responseKind response = kind ∧ requestId = response.requestId) ∧ response.Fits ∧ response.Bounded

section

variable (rid : Nat)

/-- What is read under a kind is of that kind. -/
theorem responseKind_of_takes {kind : Nat} {input rest : List UInt8} {resp : BrokerResponse}
    (h : Takes (Reader.response kind rid) input resp rest) : Format.responseKind resp = kind := by
  simp only [Reader.response, takes_ite] at h
  split_ifs at h <;> simp [Reader.rootRegisteredResponse, Reader.journalResponse, Reader.readRangeResponse,
    Reader.readAcceptedResponse, Reader.readVolumeAcceptedResponse, Reader.readVolumeResponse, Reader.cancelResponse,
    Reader.failureResponse] at h
  all_goals grind [Format.responseKind]

theorem reads_readVolumeResponse :
    Reads (Reader.readVolumeResponse rid) (OfKind readVolumeResponseKind rid) Format.responseFields := by
  intro input resp rest
  cases resp with
  | readVolume rid client vol jid stop recs bytes outs handoffs pends =>
    simp only [Reader.readVolumeResponse, takes_bind, takes_lift, takes_pure, require_ok, reads_array, reads_u64, reads_i64,
      reads_u32, reads_u8, reads_string (show maxVolumeIdBytes < 256 ^ 4 by decide), reads_outcomes, Prod.exists, existsAndEq,
      reads_boundedLength (show maxSharedHandoffs < 2 ^ 32 by decide), true_and, and_true,
      reads_boundedLength (show maxSharedPendingRenames < 2 ^ 32 by decide), readVolume.injEq, OfKind,
      BrokerResponse.Fits, Bounded, Format.responseFields, Format.responseKind, requestId, append_assoc]
    have hlt : isBetweenOneAnd maxSharedRoots outs.length = true → outs.length < 256 := fun h =>
      lt_of_le_of_lt (of_decide_eq_true h).2 (by decide)
    -- the limits hold after each loop if they hold after the last
    generalize hfi : Reader.Totals.mk (outs.map (·.candidates.length)).sum
      (outs.map fun out => candidateEvidence out.candidates).sum = first
    have htr : totalRecords outs handoffs pends = first.records + handoffs.length + pends.length := by subst hfi; rfl
    have hte : totalEvidence outs handoffs pends = first.evidence + (handoffs.map (·.evidenceBytes)).sum +
        (pends.map (·.evidenceBytes)).sum := by subst hfi; rfl
    rw [htr, hte]
    by_cases hbf : first.Bounded
    · simp only [reads_records reads_handoff _ hbf]
      by_cases hbs : (Reader.Totals.mk (first.records + handoffs.length)
          (first.evidence + (handoffs.map (·.evidenceBytes)).sum)).Bounded
      · simp [hbf, hbs, reads_records reads_pendingRename _ hbs]
        simp only [Reader.Totals.Bounded]
        tauto
      · simp [hbs]
        intros
        exact absurd ⟨by dsimp; omega, by dsimp; omega⟩ hbs
    · simp [hbf]
      intros
      exact absurd ⟨by omega, by omega⟩ hbf
  | _ =>
    simp [Reader.readVolumeResponse, OfKind]
    rintro ⟨⟩

/-- A response is read under its own kind and number. -/
theorem reads_response (kind : Nat) : Reads (Reader.response kind rid) (OfKind kind rid) Format.responseFields := by
  intro input resp rest
  by_cases hk : Format.responseKind resp = kind
  · subst hk
    cases resp
    case readVolume => exact reads_readVolumeResponse rid _ _ _
    all_goals
      simp [Reader.response, Format.responseKind, rootRegisteredResponseKind, journalResponseKind, readResponseKind,
        readAcceptedResponseKind, readVolumeAcceptedResponseKind, readVolumeResponseKind, cancelResponseKind, failureResponseKind,
        Reader.rootRegisteredResponse, Reader.journalResponse, Reader.readRangeResponse, Reader.readAcceptedResponse,
        Reader.readVolumeAcceptedResponse, Reader.cancelResponse, Reader.failureResponse, OfKind, BrokerResponse.Fits, Bounded, Format.responseFields, requestId, Reader.optionalU64, Reader.optionalI64,
        reads_optional reads_u64, reads_optional reads_i64, reads_optional (reads_array 16), maxVolumeIdBytes,
        reads_candidates, maxRecordsLimit, -Bool.exists_bool]
      tauto
  · exact iff_of_false (fun h => hk (responseKind_of_takes rid h)) fun h => hk h.1.1.1

end

/-! ## What the check of a response ensures -/

theorem ResponseBinding.fits_of_validate {bnd : ResponseBinding} (h : bnd.validate = .ok ()) (hr : bnd.InRange) : bnd.Fits := by
  obtain ⟨-, hro, hv⟩ := ResponseBinding.validate_ok.mp h
  exact ⟨size_of_validateWireIdentifier hro, hr, size_of_validateWireIdentifier hv⟩

theorem CandidateScope.fits_of_validate {scope : CandidateScope} (h : scope.validate = .ok ()) : scope.Fits := by
  cases scope with
  | root => trivial
  | relativePath path => exact size_of_validateRelativePath h

theorem BrokerCandidate.fits_of_validate {cand : BrokerCandidate} (h : cand.validate = .ok ())
    (hra : cand.InRange) : cand.Fits := by
  obtain ⟨hs, hp, hr, -⟩ := BrokerCandidate.validate_ok.mp h
  exact ⟨CandidateScope.fits_of_validate hs,
    fun scope hm => CandidateScope.fits_of_validate (hp scope hm).1, length_of_isReferenceLength hr, hra⟩

theorem fits_of_validateCandidates {start cov : Int} {last : Option Int} {cands : List BrokerCandidate}
    (h : validateCandidates start cov last cands = .ok ()) (hr : ∀ cand ∈ cands, cand.InRange) :
    ∀ cand ∈ cands, cand.Fits := by
  intro cand hm
  exact BrokerCandidate.fits_of_validate ((validateCandidates_ok.mp h).1 cand hm).1 (hr cand hm)

theorem SharedJournalRootOutcome.fits_of_validate {maxRecs : Nat} (h : out.validate endUsn maxRecs = .ok ())
    (hra : out.InRange) (hr : maxRecs ≤ maxRecordsLimit) : out.Fits := by
  obtain ⟨hb, hs, hco, hc⟩ := hra
  obtain ⟨hv, -, hp⟩ := SharedJournalRootOutcome.validate_ok.mp h
  refine ⟨ResponseBinding.fits_of_validate hv hb, hs, ?_⟩
  rcases hp with ⟨cov, hso, hn, -, hl, hvc⟩ | ⟨hn, hso, hi, he⟩
  · rw [hn]
    refine ⟨⟨cov, hso, hco cov hso⟩, ?_, fits_of_validateCandidates hvc hc⟩
    exact lt_of_le_of_lt (hl.trans hr) (by decide)
  · obtain ⟨fail, hf⟩ := Option.isSome_iff_exists.mp hso
    rw [hf]
    exact ⟨hn, hi, he⟩

theorem SharedJournalHandoff.fits_of_validate {client} (h : ho.validate client vol endUsn = .ok ())
    (hr : ho.InRange) : ho.Fits := by
  obtain ⟨hp, hc, hpp, hcp, hca, -, -, -, -, -, hre, -⟩ :=
    validate_ok.mp h
  have hps := size_of_validateRelativePath hpp
  have hcs := size_of_validateRelativePath hcp
  exact ⟨ResponseBinding.fits_of_validate hp hr.1, ResponseBinding.fits_of_validate hc hr.2.1,
    length_of_isReferenceLength hre, hr.2.2, by omega, by omega,
    fun carryId hm => size_of_validateWireIdentifier (hca carryId hm)⟩

theorem SharedJournalPendingRename.fits_of_validate {client} (h : pend.validate client vol endUsn = .ok ())
    (hra : pend.InRange) : pend.Fits := by
  obtain ⟨hb, hp, -, -, hr, -⟩ := SharedJournalPendingRename.validate_ok.mp h
  have hs := size_of_validateRelativePath hp
  exact ⟨ResponseBinding.fits_of_validate hb hra.1, length_of_isReferenceLength hr, hra.2, by omega⟩

/-- `ReadRange` pages over the bound that the reader has on their evidence. -/
def BrokerResponse.isOversized : BrokerResponse → Bool
  | .readRange _ _ _ _ _ _ _ _ _ candidates => decide (maxEvidenceBytesLimit < candidateEvidence candidates)
  | _ => false

theorem volumeId_size (h : (validateWireIdentifier vol maxVolumeIdBytes).isOk = true) :
    vol.utf8ByteSize ≤ maxVolumeIdBytes := by
  cases hv : validateWireIdentifier vol maxVolumeIdBytes with
  | error e => simp [hv, Except.isOk, Except.toBool] at h
  | ok u => exact size_of_validateWireIdentifier hv

theorem isBetweenOneAnd_iff : isBetweenOneAnd maximum n = true ↔ 1 ≤ n ∧ n ≤ maximum :=
  decide_eq_true_iff

/-- A checked response is one that the writer writes, and that the reader accepts unless it is oversized. -/
theorem BrokerResponse.fits_of_validate {resp : BrokerResponse} (h : resp.validateKind = .ok ())
    (hr : resp.InRange) : resp.Fits ∧ (resp.Bounded ↔ resp.isOversized = false) := by
  cases resp with
  | rootRegistered rid bnd capa =>
    obtain ⟨hb, -⟩ := bind_unit_ok.mp h
    exact ⟨ResponseBinding.fits_of_validate hb hr.2, iff_of_true trivial rfl⟩
  | journal rid bnd capa jid first next =>
    obtain ⟨hb, -⟩ := bind_unit_ok.mp h
    exact ⟨⟨ResponseBinding.fits_of_validate hb hr.2.1, hr.2.2⟩, iff_of_true trivial rfl⟩
  | readRangeAccepted rid bnd jid start stop recs bytes =>
    obtain ⟨hb, -⟩ := bind_unit_ok.mp h
    exact ⟨⟨ResponseBinding.fits_of_validate hb hr.2.1, hr.2.2⟩, iff_of_true trivial rfl⟩
  | readVolumeAccepted rid client vol jid start stop rootCount recs bytes =>
    simp only [validateKind, require_ok, Bool.not_eq_true', Bool.or_eq_false_iff, Bool.not_eq_false'] at h
    exact ⟨⟨volumeId_size h.1.1.1.1.1.2, hr.2⟩, iff_of_true trivial rfl⟩
  | readVolume rid client vol jid stop recs bytes outs handoffs pends =>
    obtain ⟨-, hj, hst, hre, hby, ho, hh, hp⟩ := hr
    simp only [validateKind, bind_unit_ok, require_ok, Bool.not_eq_true', Bool.or_eq_false_iff,
      Bool.not_eq_false', decide_eq_false_iff_not, Nat.not_lt, isBetweenOneAnd_iff, validateOutcomes_ok, forM_ok_iff] at h
    obtain ⟨⟨⟨⟨⟨⟨⟨⟨⟨-, hv⟩, -⟩, -⟩, hmr⟩, hmb⟩, hc⟩, hhc⟩, hpc⟩, ⟨hvo, -⟩, hvh, hvp, htr, hte⟩ := h
    refine ⟨⟨volumeId_size hv, hj, hst, hre, hby, isBetweenOneAnd_iff.mpr hc, ?_, hhc, ?_,
      hpc, ?_⟩, iff_of_true ⟨htr.trans hmr.2, hte.trans hmb.2⟩ rfl⟩
    · intro out hm
      exact SharedJournalRootOutcome.fits_of_validate (hvo out hm).1 (ho out hm) hmr.2
    · intro ho hm
      exact SharedJournalHandoff.fits_of_validate (hvh ho hm).1 (hh ho hm)
    · intro pend hm
      exact SharedJournalPendingRename.fits_of_validate (hvp pend hm).1 (hp pend hm)
  | readRange rid bnd jid start stop recs bytes cov isComplete cands =>
    obtain ⟨-, hb, hj, hs, hst, hre, hby, hco, hca⟩ := hr
    simp only [validateKind, bind_unit_ok, require_ok, Bool.and_eq_true, Bool.not_eq_true',
      Bool.or_eq_false_iff, decide_eq_false_iff_not, Nat.not_lt] at h
    obtain ⟨hva, ⟨-, -, hc⟩, hvc⟩ := h
    refine ⟨⟨ResponseBinding.fits_of_validate hva hb, hj, hs, hst, hre, hby, hco, hc, fits_of_validateCandidates hvc hca⟩, ?_⟩
    simp only [BrokerResponse.Bounded, isOversized, decide_eq_false_iff_not, Nat.not_lt]
  | cancelled rid client target => exact ⟨hr.2, iff_of_true trivial rfl⟩
  | failure rid client code => exact ⟨trivial, iff_of_true trivial rfl⟩

/-! ## Whole responses -/

theorem responseKind_lt (resp : BrokerResponse) : Format.responseKind resp < 2 ^ 16 := by
  cases resp <;> exact of_decide_eq_true rfl

section

variable {resp : BrokerResponse}

theorem decodeResponse_ok : decodeResponse payload = .ok resp ↔
    resp.requestId < 2 ^ 64 ∧ (resp.Fits ∧ resp.Bounded) ∧ validateResponse resp = .ok () ∧ payload = Format.response resp := by
  constructor
  · intro h
    obtain ⟨header, hi, h⟩ := bind_ok h
    obtain ⟨_, hc, h⟩ := bind_ok h
    obtain ⟨_, hve, h⟩ := bind_ok h
    obtain ⟨kind, hk, h⟩ := bind_ok h
    obtain ⟨⟨read, rest⟩, hr, h⟩ := bind_ok h
    obtain ⟨_, hre, h⟩ := bind_ok h
    obtain ⟨_, hv, h⟩ := bind_ok h
    cases h
    obtain ⟨-, hlt, hp⟩ := header_of_inspect hi (require_ok.mp hc) (beq_iff_eq.mp (require_ok.mp hve)) hk
    obtain ⟨⟨⟨rfl, hn⟩, hfi⟩, hf⟩ := (reads_response _ _ _ _ _).mp hr
    rw [List.isEmpty_iff.mp (require_ok.mp hre), append_nil] at hf
    rw [hn] at hlt hp
    rw [hf] at hp
    exact ⟨hlt, hfi, hv, hp⟩
  · rintro ⟨hlt, hfi, hv, rfl⟩
    obtain ⟨hi, hk, hd⟩ := inspect_header (responseKind_lt resp) hlt (Format.responseFields resp)
    have hr : (Reader.response _ _).run _ = _ := (reads_response _ _ _ resp []).mpr ⟨⟨⟨rfl, rfl⟩, hfi⟩, (append_nil _).symm⟩
    rw [Format.response]
    unfold decodeResponse
    rw [hi, hk, hd]
    simp only [bind, Except.bind, hr, hv]
    simp [require, finish, pure, Except.pure]

theorem encodeResponse_ok (hf : resp.Fits) :
    encodeResponse resp = .ok payload ↔ validateResponse resp = .ok () ∧ payload = Format.response resp := by
  rw [encodeResponse, bind_unit_ok, appends_response hf]
  exact and_congr_right fun _ => ⟨fun h => (by cases h; rfl), fun h => (by rw [h]; rfl)⟩

theorem BrokerResponse.InRange.requestId_lt (h : resp.InRange) : resp.requestId < 2 ^ 64 := by
  cases resp <;> first | exact h.1 | exact h

end

/-! ## The codec -/

/-- Decoding and encoding are inverse to each other on a response, of machine integers, exactly when it is no `ReadRange` page
that passes the check and has more evidence than the reader accepts. -/
theorem response_codec_bijective_iff (response : BrokerResponse) (hrange : response.InRange) :
    (∀ payload, encodeResponse response = .ok payload ↔ decodeResponse payload = .ok response) ↔
      ¬(validateResponse response = .ok () ∧ response.isOversized = true) := by
  have hsp (hv : validateResponse response = .ok ()) := BrokerResponse.fits_of_validate (bind_unit_ok.mp hv).2 hrange
  constructor
  · rintro h ⟨hv, ho⟩
    obtain ⟨hf, hb⟩ := hsp hv
    have hd := (h _).mp ((encodeResponse_ok hf).mpr ⟨hv, rfl⟩)
    have := hb.mp (decodeResponse_ok.mp hd).2.1.2
    rw [ho] at this
    cases this
  · intro h payload
    constructor
    · intro he
      obtain ⟨hv, -⟩ := bind_unit_ok.mp he
      obtain ⟨hf, hb⟩ := hsp hv
      obtain ⟨-, rfl⟩ := (encodeResponse_ok hf).mp he
      have hs : response.isOversized = false := by
        rw [← Bool.not_eq_true]
        exact fun ho => h ⟨hv, ho⟩
      exact decodeResponse_ok.mpr ⟨hrange.requestId_lt, ⟨hf, hb.mpr hs⟩, hv, rfl⟩
    · intro hd
      obtain ⟨-, ⟨hf, -⟩, hv, rfl⟩ := decodeResponse_ok.mp hd
      exact (encodeResponse_ok hf).mpr ⟨hv, rfl⟩

/-! ## A page that is written and not read -/

/-- A file name of many characters. -/
def longName (n : Nat) : List Char := List.replicate n 'a'

theorem longName_valid (n : Nat) : WindowsName (longName (n + 5)) := by
  have hn {c : Char} (hc : c ≠ 'a') : c ∉ longName (n + 5) := fun hm => hc (eq_of_mem_replicate hm)
  have hb : (longName (n + 5)).splitOn '.' = [longName (n + 5)] := by
    have h : (['.'].intercalate [longName (n + 5)]).splitOn '.' = [longName (n + 5)] :=
      splitOn_intercalate '.' (by simpa using hn (by decide)) (by simp)
    simpa [List.intercalate] using h
  have hr : isReservedDeviceName (String.ofList (longName (n + 5))) = false := by
    unfold isReservedDeviceName
    rw [String.toList_ofList, hb]
    simp [longName, replicate_succ, eqIgnoreAsciiCase]
  have hl : (longName (n + 5)).getLast? = some 'a' := by simp [longName, getLast?_replicate]
  have hf : (longName (n + 5)).any isForbiddenInName = false := by
    rw [any_eq_false]
    intro c hc
    rw [eq_of_mem_replicate hc]
    decide
  have hd : String.ofList (longName (n + 5)) ≠ "." ∧ String.ofList (longName (n + 5)) ≠ ".." := by
    constructor <;> intro h <;> simpa [longName, replicate_succ] using congrArg String.toList h
  refine ⟨?_, hn (by decide), hn (by decide)⟩
  unfold validateComponent
  rw [hr, String.toList_ofList, hf, hl]
  simp [hd, show (longName (n + 5)).isEmpty = false from rfl]

theorem length_encode_longName (n : Nat) : (Utf16.encode (longName n)).length = n := by
  simp [Utf16.encode, longName, length_flatMap, show (Utf16.encodeChar 'a').length = 1 by decide]

theorem validateRelativePath_longName (h : n + 5 ≤ maxPathUtf16Units) :
    validateRelativePath (String.ofList (longName (n + 5))) = .ok () := by
  have hv := @validateRelativePath_names [longName (n + 5)] (by simpa using longName_valid n) (by simp) (by simp [maxPathDepth])
    (by simpa [List.intercalate, length_encode_longName] using h)
  simpa [List.intercalate] using hv

/-- A candidate with a path of so many characters. -/
def longCandidate (n : Nat) (usn : Int) : BrokerCandidate :=
  ⟨.relativePath (String.ofList (longName n)), none, List.replicate 8 1, usn, .path, false⟩

/-- The numbers of nine records. -/
def nineUsns : List Int := [0, 1, 2, 3, 4, 5, 6, 7, 8]

/-- A page of nine candidates with paths of so many characters. -/
def pageOf (n : Nat) : BrokerResponse :=
  .readRange 1 ⟨Vector.replicate 16 1, "r", 1, "v"⟩ 1 0 9 1024 524288 9 true (nineUsns.map (longCandidate n))

theorem longCandidate_valid {usn : Int} (hn : n + 5 ≤ maxPathUtf16Units) (h : 0 ≤ usn) :
    (longCandidate (n + 5) usn).validate = .ok () := by
  refine BrokerCandidate.validate_ok.mpr ⟨validateRelativePath_longName hn, ?_, rfl, h, rfl, ?_, ?_⟩
  · intro scope hm
    cases hm
  · intro hk
    cases hk
  · intro hs
    cases hs

theorem nineUsns_range : ∀ usn ∈ nineUsns, 0 ≤ usn ∧ usn < 9 := by decide

theorem pageOf_valid (hn : n + 5 ≤ maxPathUtf16Units) : validateResponse (pageOf (n + 5)) = .ok () := by
  have hca : validateCandidates 0 9 none (nineUsns.map (longCandidate (n + 5))) = .ok () := by
    rw [validateCandidates_ok]
    constructor
    · intro c hc
      obtain ⟨usn, hm, rfl⟩ := mem_map.mp hc
      obtain ⟨hs, hst⟩ := nineUsns_range usn hm
      exact ⟨longCandidate_valid hn hs, hs, hst, by simp⟩
    · rw [pairwise_map]
      exact (by decide : nineUsns.Pairwise (· < ·))
  have hr : (isValidRange 1 0 9 1024 524288 && !(decide ((9 : Int) ≤ 0) || decide ((9 : Int) < 9) ||
      true != decide ((9 : Int) = 9) || decide (maxRecordsLimit < (nineUsns.map (longCandidate (n + 5))).length))) = true := by
    rw [length_map]
    decide
  exact bind_unit_ok.mpr ⟨rfl, bind_unit_ok.mpr ⟨by decide, bind_unit_ok.mpr ⟨require_ok.mpr hr, hca⟩⟩⟩

theorem pageOf_inRange (n : Nat) : (pageOf n).InRange := by
  refine ⟨by decide, show (1 : Nat) < 2 ^ 64 by decide, by decide, by decide, by decide, by decide, by decide, by decide, ?_⟩
  intro c hc
  obtain ⟨usn, hm, rfl⟩ := mem_map.mp hc
  obtain ⟨hs, hst⟩ := nineUsns_range usn hm
  exact ⟨by simp only [longCandidate]; omega, by simp only [longCandidate]; omega⟩

theorem longCandidate_evidence (n : Nat) (usn : Int) : (longCandidate n usn).evidenceBytes = n * 2 + 8 := by
  simp [BrokerCandidate.evidenceBytes, longCandidate, CandidateScope.evidenceBytes, utf16Bytes, length_encode_longName]

theorem isOversized_pageOf (n : Nat) : (pageOf n).isOversized = decide (maxEvidenceBytesLimit < 9 * (n * 2 + 8)) := by
  simp [pageOf, isOversized, candidateEvidence, nineUsns, longCandidate_evidence]
  omega

/-- The page is encoded, and what was written does not decode to it. -/
theorem largePage_not_decoded :
    ∃ payload, encodeResponse (pageOf 30000) = .ok payload ∧ decodeResponse payload ≠ .ok (pageOf 30000) := by
  have hv := @pageOf_valid 29995 (by decide)
  obtain ⟨hf, hb⟩ := BrokerResponse.fits_of_validate (bind_unit_ok.mp hv).2 (pageOf_inRange _)
  refine ⟨_, (encodeResponse_ok hf).mpr ⟨hv, rfl⟩, fun hd => ?_⟩
  have := hb.mp (decodeResponse_ok.mp hd).2.1.2
  rw [isOversized_pageOf] at this
  revert this
  decide

/-- A page with paths of 3000 characters is encoded, and what was written decodes to it. -/
theorem response_codec_bijective_iff_page : validateResponse (pageOf 3000) = .ok () ∧
    ∀ payload, encodeResponse (pageOf 3000) = .ok payload ↔ decodeResponse payload = .ok (pageOf 3000) := by
  refine ⟨@pageOf_valid 2995 (by decide), (response_codec_bijective_iff _ (pageOf_inRange _)).mpr fun h => ?_⟩
  rw [isOversized_pageOf] at h
  exact absurd h.2 (by decide)

end Ame
