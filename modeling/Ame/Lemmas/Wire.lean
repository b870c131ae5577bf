import Ame.Broker.Message

/-!
# What the checks of the wire format accept

Each check of a candidate, an outcome, a handoff or an old name as the conditions it stands for.
-/

namespace Ame

open Binary Result JournalReadInterval

variable {endUsn : Int} {client : Vector UInt8 16} {vol : String}

theorem ResponseBinding.validate_ok {bnd : ResponseBinding} : bnd.validate = .ok () ↔
    (isZero bnd.clientInstance = false ∧ bnd.rootGeneration ≠ 0) ∧
      validateWireIdentifier bnd.rootId maxWireRootIdBytes = .ok () ∧
      validateWireIdentifier bnd.volumeId maxVolumeIdBytes = .ok () := by
  unfold ResponseBinding.validate
  rw [ite_throw_bind_ok, bind_unit_ok, Bool.or_eq_true, beq_iff_eq, not_or, Bool.not_eq_true]
  rfl

/-! ## Candidates -/

theorem validatePreviousScope_ok {prevScope : Option CandidateScope} : validatePreviousScope prevScope = .ok () ↔
    ∀ scope ∈ prevScope, scope.validate = .ok () ∧ scope ≠ .root := by
  cases prevScope with
  | none => simp [validatePreviousScope]
  | some scope =>
    rw [validatePreviousScope, bind_unit_ok, ite_throw_ok]
    constructor
    · rintro ⟨hv, hr, -⟩ scope hm
      cases hm
      exact ⟨hv, hr⟩
    · intro h
      exact ⟨(h scope rfl).1, (h scope rfl).2, rfl⟩

theorem isReferenceLength_iff {n : Nat} : isReferenceLength n = true ↔ n = 8 ∨ n = 16 := by
  simp [isReferenceLength]

theorem BrokerCandidate.validate_ok {cand : BrokerCandidate} : cand.validate = .ok () ↔
    cand.scope.validate = .ok () ∧ (∀ scope ∈ cand.previousScope, scope.validate = .ok () ∧ scope ≠ .root) ∧
      isReferenceLength cand.fileReference.length = true ∧ 0 ≤ cand.usn ∧
      cand.previousScope.isSome = (cand.kind == .rename) ∧
      (cand.kind = .subtree → cand.isDirectory = true) ∧
      (cand.scope = .root → cand.isDirectory = true ∧ cand.kind = .subtree) := by
  unfold BrokerCandidate.validate
  rw [bind_unit_ok, bind_unit_ok, validatePreviousScope_ok, ite_throw_bind_ok, ite_throw_ok, isReferenceLength_iff]
  refine and_congr_right fun _ => and_congr_right fun _ => ?_
  constructor
  · rintro ⟨h, hr, -⟩
    simp only [not_or, not_and, not_not, Bool.not_eq_false] at h hr
    obtain ⟨hl, hu, hp, hd, hrd⟩ := h
    exact ⟨by omega, Int.not_lt.mp hu, hp, hd, fun hs => ⟨hrd hs, hr hs⟩⟩
  · rintro ⟨hl, hu, hp, hd, hr⟩
    refine ⟨?_, fun h => h.2 (hr h.1).2, rfl⟩
    rintro (h | h | h | h | h)
    · omega
    · omega
    · exact h hp
    · exact absurd (hd h.1) (by simp [h.2])
    · exact absurd (hr h.1).1 (by simp [h.2])

/-- The loop over the candidates: each is valid and in the range, and their numbers rise. -/
theorem validateCandidates_ok {start cov : Int} {last : Option Int} {cands : List BrokerCandidate} :
    validateCandidates start cov last cands = .ok () ↔
      (∀ c ∈ cands, c.validate = .ok () ∧ start ≤ c.usn ∧ c.usn < cov ∧ ∀ usn ∈ last, usn < c.usn) ∧
        cands.Pairwise (fun a b => a.usn < b.usn) := by
  induction cands generalizing last with
  | nil => simp [validateCandidates]
  | cons c cands ih =>
    rw [validateCandidates]
    rw [bind_unit_ok, ite_throw_bind_ok, ih, List.forall_mem_cons, List.pairwise_cons, Option.any_eq_true]
    simp only [decide_eq_true_eq, not_or, not_exists, not_and, Int.not_lt, Int.not_le, Option.mem_some_iff, forall_eq']
    constructor
    · rintro ⟨hc, ⟨hs, hco, hl⟩, hr, hp⟩
      refine ⟨⟨⟨hc, hs, hco, hl⟩, fun d hd => ?_⟩, fun d hd => (hr d hd).2.2.2, hp⟩
      obtain ⟨hv, hf, hto, ha⟩ := hr d hd
      exact ⟨hv, hf, hto, fun usn hm => (hl usn hm).trans ha⟩
    · rintro ⟨⟨⟨hc, hs, hco, hl⟩, hr⟩, ha, hp⟩
      refine ⟨hc, ⟨hs, hco, hl⟩, fun d hd => ?_, hp⟩
      obtain ⟨hv, hf, hto, -⟩ := hr d hd
      exact ⟨hv, hf, hto, ha d hd⟩

/-! ## Outcomes -/

theorem JournalReadInterval.new_eq_some {startUsn endUsn : Int} {ivl : JournalReadInterval} : new startUsn endUsn = some ivl ↔
      (0 ≤ startUsn ∧ startUsn ≤ endUsn) ∧ ivl = ⟨startUsn, endUsn⟩ := by
  unfold new
  split
  · simp only [reduceCtorEq, false_iff, not_and]
    omega
  · rw [Option.some.injEq, eq_comm]
    exact ⟨fun h => ⟨by omega, h⟩, fun h => h.2⟩

/-- An outcome has coverage and candidates, or a failure and nothing else. -/
theorem SharedJournalRootOutcome.validate_ok {out : SharedJournalRootOutcome}
    {maxRecs : Nat} : out.validate endUsn maxRecs = .ok () ↔ out.binding.validate = .ok () ∧
      (0 ≤ out.requestedStartUsn ∧ out.requestedStartUsn ≤ endUsn) ∧
      ((∃ cov, out.coveredUntilUsn = some cov ∧ out.failure = none ∧
          (JournalReadInterval.mk out.requestedStartUsn endUsn).admitsCoverage cov out.isComplete = true ∧
          out.candidates.length ≤ maxRecs ∧
          validateCandidates out.requestedStartUsn cov none out.candidates = .ok ()) ∨
        out.coveredUntilUsn = none ∧ out.failure.isSome = true ∧ out.isComplete = false ∧ out.candidates = []) := by
  unfold SharedJournalRootOutcome.validate
  rw [bind_unit_ok]
  refine and_congr_right fun _ => ?_
  cases hi : new out.requestedStartUsn endUsn with
  | none =>
    refine ⟨fun h => (by cases h), fun h => ?_⟩
    rw [new_eq_some.mpr ⟨h.1, rfl⟩] at hi
    cases hi
  | some ivl =>
    obtain ⟨hr, rfl⟩ := new_eq_some.mp hi
    simp only [hr, and_self, true_and]
    unfold validateOutcomeProof
    cases hco : out.coveredUntilUsn with
    | none =>
      cases hf : out.failure with
      | none => simp
      | some fail =>
        split <;> simp_all
    | some cov =>
      cases hf : out.failure with
      | some fail => simp
      | none =>
        simp only [Option.some.injEq, true_and, exists_eq_left', reduceCtorEq, false_and, or_false]
        split
        · next h =>
          refine ⟨fun h => (by cases h), fun hn => ?_⟩
          rcases h with h | h
          · rw [hn.1] at h
            cases h
          · omega
        · next h =>
          rw [not_or, Bool.not_eq_false, Nat.not_lt] at h
          exact ⟨fun hc => ⟨h.1, h.2, hc⟩, fun hn => hn.2.2⟩

/-- The loop over the outcomes: each is valid and bound to the page, and no root has two. -/
theorem validateOutcomes_ok {maxRecs : Nat} {bindings : List (String × Nat)} {outs : List SharedJournalRootOutcome} :
    validateOutcomes client vol endUsn maxRecs bindings outs = .ok () ↔ (∀ out ∈ outs, out.validate endUsn maxRecs = .ok () ∧
        out.binding.clientInstance = client ∧ out.binding.volumeId = vol ∧
        (out.binding.rootId, out.binding.rootGeneration) ∉ bindings) ∧
      outs.Pairwise fun a b =>
        (a.binding.rootId, a.binding.rootGeneration) ≠ (b.binding.rootId, b.binding.rootGeneration) := by
  induction outs generalizing bindings with
  | nil => simp [validateOutcomes]
  | cons out outs ih =>
    rw [validateOutcomes, bind_unit_ok, bind_unit_ok, require_ok, ih, List.forall_mem_cons, List.pairwise_cons]
    simp only [Bool.not_eq_true', Bool.or_eq_false_iff, decide_eq_false_iff_not, not_not, bne_eq_false_iff_eq,
      List.contains_eq_mem, List.mem_cons, not_or]
    constructor
    · rintro ⟨hva, ⟨⟨hi, hv⟩, hn⟩, hr, hp⟩
      refine ⟨⟨⟨hva, hi, hv, hn⟩, fun o hm => ?_⟩, fun o hm => ?_, hp⟩
      · obtain ⟨hva, hi, hv, -, hn⟩ := hr o hm
        exact ⟨hva, hi, hv, hn⟩
      · exact Ne.symm (hr o hm).2.2.2.1
    · rintro ⟨⟨⟨hva, hi, hv, hn⟩, hr⟩, hd, hp⟩
      refine ⟨hva, ⟨⟨hi, hv⟩, hn⟩, fun o hm => ?_, hp⟩
      obtain ⟨hva, hi, hv, hn⟩ := hr o hm
      exact ⟨hva, hi, hv, (hd o hm).symm, hn⟩

/-! ## Handoffs and old names -/

theorem SharedJournalHandoff.validate_ok {ho : SharedJournalHandoff} : ho.validate client vol endUsn = .ok () ↔
      ho.previousBinding.validate = .ok () ∧ ho.currentBinding.validate = .ok () ∧
      validateRelativePath ho.previousRelativePath = .ok () ∧
      validateRelativePath ho.currentRelativePath = .ok () ∧
      (∀ carryId ∈ ho.previousCarryId, validateWireIdentifier carryId maxCarryIdBytes = .ok ()) ∧
      ho.previousBinding.clientInstance = client ∧ ho.currentBinding.clientInstance = client ∧
      ho.previousBinding.volumeId = vol ∧ ho.currentBinding.volumeId = vol ∧
      (ho.previousBinding.rootId, ho.previousBinding.rootGeneration) ≠
        (ho.currentBinding.rootId, ho.currentBinding.rootGeneration) ∧
      isReferenceLength ho.fileReference.length = true ∧ 0 ≤ ho.usn ∧ ho.usn < endUsn := by
  have hc : ho.previousCarryId.elim (.ok ()) (validateWireIdentifier · maxCarryIdBytes) = .ok () ↔
      ∀ carryId ∈ ho.previousCarryId, validateWireIdentifier carryId maxCarryIdBytes = .ok () := by
    cases ho.previousCarryId <;> simp
  unfold SharedJournalHandoff.validate
  simp only [bind_unit_ok, require_ok, hc, Bool.not_eq_true', Bool.or_eq_false_iff, decide_eq_false_iff_not, not_not,
    bne_eq_false_iff_eq, beq_eq_false_iff_ne, Bool.not_eq_false', Int.not_lt, Int.not_le, ne_eq, and_assoc]

theorem SharedJournalPendingRename.validate_ok {pend : SharedJournalPendingRename} : pend.validate client vol endUsn = .ok () ↔
      pend.binding.validate = .ok () ∧ validateRelativePath pend.previousRelativePath = .ok () ∧
      pend.binding.clientInstance = client ∧ pend.binding.volumeId = vol ∧
      isReferenceLength pend.fileReference.length = true ∧ 0 ≤ pend.oldUsn ∧ pend.oldUsn < endUsn := by
  unfold SharedJournalPendingRename.validate
  simp only [bind_unit_ok, require_ok, Bool.not_eq_true', Bool.or_eq_false_iff, decide_eq_false_iff_not, not_not,
    bne_eq_false_iff_eq, Bool.not_eq_false', Int.not_lt, Int.not_le, ne_eq, and_assoc]

end Ame
