import Ame.Lemmas.Codec

/-!
# Requests are decoded exactly as they are encoded

The bytes of a request are those of its format. Encoding writes them for every request that passes its checks, and decoding
accepts them and nothing else.
-/

namespace Ame

open List Binary Result SharedJournalPendingRenameRequest ReadJournalVolumeRequest

variable {pend : SharedJournalPendingRenameRequest} {req : BrokerRequest} {vol : String} {jid : Nat} {endUsn : Int}

/-! ## Writing the parts of a request -/

theorem appends_rootRequest {req : SharedJournalRootRequest} (h : req.Fits) :
    Appends (Writer.rootRequest req) (Format.rootRequest req) := by
  simp [Writer.rootRequest, Format.rootRequest, ok_bind, appends_root h.1]

theorem appends_pendingRequest (h : pend.Fits) : Appends (Writer.pendingRequest pend) (Format.pendingRequest pend) := by
  simp only [SharedJournalPendingRenameRequest.Fits, maxCarryIdBytes, maxPathUtf16Units] at h
  simp (disch := omega) [Writer.pendingRequest, Format.pendingRequest, ok_bind, appends_root h.2.2.1,
    appends_optional fun _ _ => appends_rootCapability _]

theorem appends_request (h : req.Fits) : Appends (Writer.request req) (Format.request req) := by
  cases req <;> simp only [Writer.request, Format.request, Format.requestFields, Format.requestKind, BrokerRequest.requestId]
  case readVolume rid req =>
    obtain ⟨-, hc, hr, hpc, hp, -⟩ := h
    have hc := (of_decide_eq_true hc).2
    simp only [maxSharedRoots, maxSharedPendingRenames] at hc hpc
    simp (disch := omega) [ok_bind, Format.readVolumeRequest, appends_forM fun root hm => appends_rootRequest (hr root hm),
      appends_forM fun pend hm => appends_pendingRequest (hp pend hm)]
  case cancel => simp [ok_bind]
  all_goals
    simp [ok_bind, Format.registerRootRequest, Format.queryJournalRequest, Format.readRangeRequest, appends_root h.2.1]

/-! ## Reading the parts of a request -/

theorem reads_rootRequest : Reads Reader.rootRequest SharedJournalRootRequest.Fits Format.rootRequest := by
  rintro input ⟨⟩ rest
  simp [Reader.rootRequest, SharedJournalRootRequest.Fits, Format.rootRequest]
  tauto

theorem reads_pendingRequest : Reads Reader.pendingRequest SharedJournalPendingRenameRequest.Fits Format.pendingRequest := by
  rintro input ⟨⟩ rest
  simp [Reader.pendingRequest, SharedJournalPendingRenameRequest.Fits, Format.pendingRequest, maxCarryIdBytes,
    maxPathUtf16Units, reads_optional reads_rootCapability, -Bool.exists_bool]
  tauto

theorem reads_registerRootRequest : Reads Reader.registerRootRequest RegisterRootRequest.Fits Format.registerRootRequest := by
  rintro input ⟨⟩ rest
  simp [Reader.registerRootRequest, RegisterRootRequest.Fits, Format.registerRootRequest]
  tauto

theorem reads_queryJournalRequest : Reads Reader.queryJournalRequest QueryJournalRequest.Fits Format.queryJournalRequest := by
  rintro input ⟨⟩ rest
  simp [Reader.queryJournalRequest, QueryJournalRequest.Fits, Format.queryJournalRequest]
  tauto

theorem reads_readRangeRequest : Reads Reader.readRangeRequest ReadJournalRangeRequest.Fits Format.readRangeRequest := by
  rintro input ⟨⟩ rest
  simp [Reader.readRangeRequest, ReadJournalRangeRequest.Fits, Format.readRangeRequest]
  tauto

theorem reads_readVolumeRequest : Reads Reader.readVolumeRequest ReadJournalVolumeRequest.Fits Format.readVolumeRequest := by
  rintro input ⟨⟩ rest
  simp [Reader.readVolumeRequest, ReadJournalVolumeRequest.Fits, Format.readVolumeRequest, reads_rootRequest.many,
    reads_pendingRequest.many, isBetweenOneAnd, maxSharedRoots, maxSharedPendingRenames]
  grind

/-- A request is read under its own kind and number. -/
theorem reads_request (kind rid : Nat) : Reads (Reader.request kind rid)
    (fun req => (kind = Format.requestKind req ∧ rid = req.requestId) ∧ req.Fits) Format.requestFields := by
  intro input req rest
  cases req <;> simp [Reader.request, Format.requestKind, Format.requestFields, BrokerRequest.requestId, BrokerRequest.Fits,
    reads_registerRootRequest, reads_queryJournalRequest, reads_readRangeRequest, reads_readVolumeRequest]
  all_goals grind [registerRootRequestKind, queryRequestKind, readRequestKind, readVolumeRequestKind, cancelRequestKind]

/-! ## Whole requests -/

theorem requestKind_lt (req : BrokerRequest) : Format.requestKind req < 2 ^ 16 := by
  cases req <;> exact of_decide_eq_true rfl

/-- What follows a request in a payload is left over. -/
theorem decodeRequest_append (hid : req.requestId ≠ 0) (hlt : req.requestId < 2 ^ 64)
    (hf : req.Fits) (extra : List UInt8) : decodeRequest (Format.request req ++ extra) = (do
      finish extra
      req.validate
      return req) := by
  obtain ⟨hi, hk, hd⟩ := inspect_header (requestKind_lt req) hlt (Format.requestFields req ++ extra)
  have hr : (Reader.request _ _).run _ = _ := (reads_request _ _ _ _ extra).mpr ⟨⟨⟨rfl, rfl⟩, hf⟩, rfl⟩
  rw [Format.request, append_assoc]
  unfold decodeRequest
  rw [hi, hk, hd]
  simp only [bind, Except.bind, hr]
  simp [require, hid]

theorem decodeRequest_ok_iff {payload : List UInt8} : decodeRequest payload = .ok req ↔
    req.requestId ≠ 0 ∧ req.requestId < 2 ^ 64 ∧ req.Fits ∧ req.validate = .ok () ∧ payload = Format.request req := by
  constructor
  · intro h
    obtain ⟨header, hi, h⟩ := bind_ok h
    obtain ⟨_, hc, h⟩ := bind_ok h
    obtain ⟨_, hid, h⟩ := bind_ok h
    obtain ⟨_, hve, h⟩ := bind_ok h
    obtain ⟨kind, hk, h⟩ := bind_ok h
    obtain ⟨⟨read, rest⟩, hr, h⟩ := bind_ok h
    obtain ⟨_, hre, h⟩ := bind_ok h
    obtain ⟨_, hv, h⟩ := bind_ok h
    cases h
    obtain ⟨-, hlt, hp⟩ := header_of_inspect hi (require_ok.mp hc) (beq_iff_eq.mp (require_ok.mp hve)) hk
    obtain ⟨⟨⟨rfl, hn⟩, hfi⟩, hf⟩ := (reads_request _ _ _ _ _).mp hr
    rw [List.isEmpty_iff.mp (require_ok.mp hre), append_nil] at hf
    rw [hn] at hlt hp
    rw [hf] at hp
    refine ⟨?_, hlt, hfi, hv, hp⟩
    rw [← hn]
    exact bne_iff_ne.mp (require_ok.mp hid)
  · rintro ⟨hid, hlt, hfi, hv, rfl⟩
    have h := decodeRequest_append hid hlt hfi []
    rw [append_nil] at h
    rw [h, hv]
    rfl

theorem encodeRequest_ok (hf : req.Fits) {bytes : List UInt8} : encodeRequest req = .ok bytes ↔
      req.requestId ≠ 0 ∧ req.validate = .ok () ∧ bytes = Format.request req := by
  constructor
  · intro h
    obtain ⟨_, hid, h⟩ := bind_ok h
    obtain ⟨_, hv, h⟩ := bind_ok h
    rw [appends_request hf] at h
    cases h
    exact ⟨bne_iff_ne.mp (require_ok.mp hid), hv, rfl⟩
  · rintro ⟨hid, hv, rfl⟩
    unfold encodeRequest
    rw [hv, appends_request hf, (require_ok (u := ())).mpr (bne_iff_ne.mpr hid)]
    rfl

/-! ## What the checks ensure -/

theorem SharedJournalPendingRenameRequest.fits_of_validate (h : pend.validate vol jid endUsn = .ok ())
    (hr : pend.InRange) : pend.Fits := by
  obtain ⟨_, hc, h⟩ := bind_ok h
  obtain ⟨_, hs, h⟩ := bind_ok h
  obtain ⟨_, hro, h⟩ := bind_ok h
  obtain ⟨_, -, h⟩ := bind_ok h
  obtain ⟨_, hp, h⟩ := bind_ok h
  have hsi := size_of_validateRelativePath hp
  simp only [require_ok, Bool.not_eq_true', Bool.or_eq_false_iff, Bool.not_eq_false'] at h
  exact ⟨size_of_validateWireIdentifier hc, size_of_validateWireIdentifier hs,
    RootAuthorization.fits_of_validate hro hr.1, length_of_isReferenceLength h.1.1.2, hr.2, by omega⟩

theorem fits_of_validateSharedRoots {roots : List SharedJournalRootRequest}
    {identities : List (String × Nat)} (h : validateSharedRoots vol endUsn identities roots = .ok ())
    (hr : ∀ root ∈ roots, root.InRange) : ∀ root ∈ roots, root.Fits := by
  induction roots generalizing identities with
  | nil => simp
  | cons root roots ih =>
    obtain ⟨_, hro, h⟩ := bind_ok h
    obtain ⟨_, -, h⟩ := bind_ok h
    obtain ⟨_, ha, -⟩ := bind_ok hro
    obtain ⟨hh, ht⟩ := forall_mem_cons.mp hr
    exact forall_mem_cons.mpr ⟨⟨RootAuthorization.fits_of_validate ha hh.1, hh.2⟩, ih h ht⟩

theorem fits_of_validateSharedPendingRenames {carryIds : List String} {pends : List SharedJournalPendingRenameRequest}
    (h : validateSharedPendingRenames vol jid endUsn carryIds pends = .ok ()) (hr : ∀ pend ∈ pends, pend.InRange) :
    ∀ pend ∈ pends, pend.Fits := by
  induction pends generalizing carryIds with
  | nil => simp
  | cons pend pends ih =>
    obtain ⟨_, hp, h⟩ := bind_ok h
    obtain ⟨_, -, h⟩ := bind_ok h
    obtain ⟨hh, ht⟩ := forall_mem_cons.mp hr
    exact forall_mem_cons.mpr ⟨fits_of_validate hp hh, ih h ht⟩

/-- A checked request is one that the reader accepts. -/
theorem BrokerRequest.fits_of_validate (h : req.validate = .ok ()) (hr : req.InRange) : req.Fits := by
  cases req with
  | registerRoot rid req =>
    obtain ⟨-, hc, hroo, hh, ht⟩ := hr
    obtain ⟨_, -, h⟩ := bind_ok h
    obtain ⟨_, hv, -⟩ := bind_ok h
    exact ⟨hc, RootAuthorization.fits_of_validate hv hroo, hh, ht⟩
  | queryJournal rid req =>
    obtain ⟨-, hc, hroo, ht⟩ := hr
    obtain ⟨_, -, h⟩ := bind_ok h
    obtain ⟨_, hv, -⟩ := bind_ok h
    exact ⟨hc, RootAuthorization.fits_of_validate hv hroo, ht⟩
  | readRange rid req =>
    obtain ⟨-, hc, hroo, hre⟩ := hr
    obtain ⟨_, -, h⟩ := bind_ok h
    obtain ⟨_, hv, -⟩ := bind_ok h
    exact ⟨hc, RootAuthorization.fits_of_validate hv hroo, hre⟩
  | readVolume rid req =>
    obtain ⟨-, hc, hro, hp, hre⟩ := hr
    obtain ⟨_, -, h⟩ := bind_ok h
    obtain ⟨_, hl, h⟩ := bind_ok h
    obtain ⟨_, hvr, h⟩ := bind_ok h
    obtain ⟨_, hco, h⟩ := bind_ok h
    obtain ⟨_, hvp, -⟩ := bind_ok h
    simp only [require_ok, Bool.not_eq_true', Bool.or_eq_false_iff, Bool.not_eq_false'] at hl
    exact ⟨hc, hl.1.1.2, fits_of_validateSharedRoots hvr hro, of_decide_eq_true (require_ok.mp hco),
      fits_of_validateSharedPendingRenames hvp hp, hre⟩
  | cancel rid caller targetRequestId => exact hr.2

theorem BrokerRequest.inRange_of_fits (h : req.Fits) (hid : req.requestId < 2 ^ 64) : req.InRange := by
  cases req with
  | registerRoot rid req => exact ⟨hid, h.1, h.2.1.2.1, h.2.2⟩
  | queryJournal rid req => exact ⟨hid, h.1, h.2.1.2.1, h.2.2⟩
  | readRange rid req => exact ⟨hid, h.1, h.2.1.2.1, h.2.2⟩
  | readVolume rid req =>
    obtain ⟨hc, -, hr, -, hp, hre⟩ := h
    refine ⟨hid, hc, fun root hm => ⟨(hr root hm).1.2.1, (hr root hm).2⟩, fun pend hm => ?_, hre⟩
    obtain ⟨-, -, hro, -, hold, -⟩ := hp pend hm
    exact ⟨hro.2.1, hold⟩
  | cancel rid caller targetRequestId => exact ⟨hid, h⟩

theorem BrokerRequest.InRange.requestId_lt (h : req.InRange) : req.requestId < 2 ^ 64 := by
  cases req <;> exact h.1

/-! ## The codec -/

/-- Decoding inverts encoding and encoding inverts decoding, over every request of machine integers and every payload. So no
two payloads decode to one request, and a payload with bytes after a request is rejected for them. -/
theorem request_codec_bijective (request : BrokerRequest) (payload : List UInt8) :
    (decodeRequest payload = .ok request ↔ request.InRange ∧ encodeRequest request = .ok payload) ∧
      (∀ other, decodeRequest payload = .ok request → decodeRequest other = .ok request → other = payload) ∧
      ∀ extra, decodeRequest payload = .ok request → extra ≠ [] → decodeRequest (payload ++ extra) = .error .trailingBytes := by
  refine ⟨⟨?_, ?_⟩, ?_, ?_⟩
  · intro h
    obtain ⟨hid, hlt, hf, hv, rfl⟩ := decodeRequest_ok_iff.mp h
    exact ⟨BrokerRequest.inRange_of_fits hf hlt, (encodeRequest_ok hf).mpr ⟨hid, hv, rfl⟩⟩
  · rintro ⟨hr, he⟩
    obtain ⟨_, -, h⟩ := bind_ok he
    obtain ⟨_, hv, -⟩ := bind_ok h
    have hf := BrokerRequest.fits_of_validate hv hr
    obtain ⟨hid, -, rfl⟩ := (encodeRequest_ok hf).mp he
    exact decodeRequest_ok_iff.mpr ⟨hid, hr.requestId_lt, hf, hv, rfl⟩
  · intro other h ho
    obtain ⟨-, -, -, -, rfl⟩ := decodeRequest_ok_iff.mp h
    obtain ⟨-, -, -, -, rfl⟩ := decodeRequest_ok_iff.mp ho
    rfl
  · intro extra h hex
    obtain ⟨hid, hlt, hf, -, rfl⟩ := decodeRequest_ok_iff.mp h
    have ht : finish extra = .error .trailingBytes := by
      rw [finish, require, if_neg (by simpa using hex)]
    rw [decodeRequest_append hid hlt hf, ht]
    rfl

end Ame
