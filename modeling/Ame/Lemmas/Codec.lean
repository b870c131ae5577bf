import Ame.Broker.Format

/-!
# The parts of a message

Each writer appends the format of its part and each reader takes it, for the parts that requests and responses share.
-/

namespace Ame

open List Binary Result RootAuthorization

variable {bytes payload : List UInt8} {n width maximum kind : Nat} {value : String} {α : Type} {root : RootAuthorization}

/-! ## Strings as bytes -/

/-- Bytes are those of at most one string. -/
theorem ofUtf8_eq_some_iff {s : String} : ofUtf8 bytes = some s ↔ bytes = utf8Bytes s := by
  unfold ofUtf8 utf8Bytes String.fromUTF8?
  constructor
  · intro h
    split at h
    · cases h
      rfl
    · cases h
  · rintro rfl
    rw [dif_pos (by simpa using s.isValidUTF8)]
    rfl

theorem flatMap_leBytes_unitsOfBytes (h : bytes.length = n * 2) :
    (unitsOfBytes bytes).length = n ∧ (unitsOfBytes bytes).flatMap (fun unit => leBytes 2 unit.toNat) = bytes := by
  induction n generalizing bytes with
  | zero =>
    obtain rfl : bytes = [] := eq_nil_of_length_eq_zero (by simpa using h)
    exact ⟨rfl, rfl⟩
  | succ n ih =>
    match bytes, h with
    | [], h | [_], h =>
      simp only [length_cons, length_nil] at h
      omega
    | low :: hi :: rest, h =>
      have hl : rest.length = n * 2 := by
        simp only [length_cons] at h
        omega
      obtain ⟨hr, hb⟩ := ih hl
      have hn : (UInt16.ofNat (ofLeBytes [low, hi])).toNat = ofLeBytes [low, hi] := by
        have := ofLeBytes_lt [low, hi]
        simp only [length_cons, length_nil] at this
        rw [UInt16.toNat_ofNat']
        omega
      refine ⟨by rw [unitsOfBytes, length_cons, hr], ?_⟩
      rw [unitsOfBytes, flatMap_cons, hb, hn]
      exact congrArg (· ++ rest) (leBytes_ofLeBytes [low, hi])

theorem unitsOfBytes_flatMap (units : List UInt16) : unitsOfBytes (units.flatMap fun unit => leBytes 2 unit.toNat) = units := by
  induction units with
  | nil => rfl
  | cons unit units ih =>
    have hlt := unit.toNat_lt
    have hu : ofLeBytes (leBytes 2 unit.toNat) = unit.toNat := ofLeBytes_leBytes (by omega)
    have hc : (unit :: units).flatMap (fun unit => leBytes 2 unit.toNat) =
        UInt8.ofNat unit.toNat :: UInt8.ofNat (unit.toNat / 256) :: units.flatMap (fun unit => leBytes 2 unit.toNat) := rfl
    rw [hc, unitsOfBytes, ih]
    refine congrArg (· :: units) ?_
    calc UInt16.ofNat (ofLeBytes (leBytes 2 unit.toNat)) = UInt16.ofNat unit.toNat := by rw [hu]
      _ = unit := UInt16.ofNat_toNat

/-! ## Writers -/

attribute [simp] Writer.u8 Writer.u16 Writer.u32 Writer.u64

@[simp] theorem appends_unsigned (width value : Nat) : Appends (Writer.unsigned width value) (leBytes width value) :=
  appends_append _

@[simp] theorem appends_i64 (value : Int) : Appends (Writer.i64 value) (Format.i64 value) := appends_append _

@[simp] theorem appends_bytes (value : List UInt8) : Appends (Writer.bytes value) value := appends_append _

@[simp] theorem appends_rootCapability (value : RootCapability) : Appends (Writer.rootCapability value) value.bytes.toList :=
  appends_append _

@[simp] theorem appends_boolean (value : Bool) : Appends (Writer.boolean value) (Format.boolean value) := appends_append _

@[simp] theorem appends_length {value : Nat} (h : value < 256 ^ width) :
    Appends (Writer.length width value) (leBytes width value) := by
  intro written
  unfold Writer.length require
  rw [if_pos (decide_eq_true h)]
  rfl

@[simp] theorem appends_byteVec {value : List UInt8} (h : value.length < 256 ^ 4) :
    Appends (Writer.byteVec value) (Format.byteVec value) := by
  intro written
  simp (disch := omega) [Writer.byteVec, Format.byteVec, ok_bind]

@[simp] theorem appends_string (h : value.utf8ByteSize < 256 ^ 4) : Appends (Writer.string value) (Format.string value) :=
  appends_byteVec h

@[simp] theorem appends_utf16 {value : List UInt16} (h : value.length < 256 ^ 4) :
    Appends (Writer.utf16 value) (Format.utf16 value) := by
  intro written
  have hl := @appends_forM WireError _ _ _ value fun unit _ => appends_unsigned 2 unit.toNat
  simp (disch := omega) [Writer.utf16, Format.utf16, ok_bind, hl]

theorem appends_optional {write : α → WireStream Unit} {format : α → List UInt8} {value : Option α}
    (h : ∀ a ∈ value, Appends (write a) (format a)) : Appends (Writer.optional write value) (Format.optional format value) := by
  intro written
  cases value <;> simp_all [Writer.optional, Format.optional, ok_bind]

@[simp] theorem appends_optionalU64 (value : Option Nat) :
    Appends (Writer.optionalU64 value) (Format.optional (leBytes 8) value) :=
  appends_optional fun _ _ => appends_unsigned 8 _

@[simp] theorem appends_optionalI64 (value : Option Int) :
    Appends (Writer.optionalI64 value) (Format.optional Format.i64 value) :=
  appends_optional fun _ _ => appends_i64 _

@[simp] theorem appends_header (kind rid : Nat) : Appends (Writer.header kind rid) (Format.header kind rid) := by
  simp [Writer.header, Format.header, ok_bind]

@[simp] theorem appends_caller (claim : CallerClaim) : Appends (Writer.caller claim) (Format.caller claim) := by
  simp [Writer.caller, Format.caller, ok_bind]

theorem appends_root (h : root.Fits) : Appends (Writer.root root) (Format.root root) := by
  simp only [Fits, maxWireRootIdBytes, maxVolumeIdBytes, maxPathUtf16Units] at h
  simp (disch := omega) [Writer.root, Format.root, ok_bind]

theorem appends_binding {bnd : ResponseBinding} (h : bnd.Fits) : Appends (Writer.binding bnd) (Format.binding bnd) := by
  simp only [ResponseBinding.Fits, maxWireRootIdBytes, maxVolumeIdBytes] at h
  simp (disch := omega) [Writer.binding, Format.binding, ok_bind]

theorem appends_scope {scope : CandidateScope} (h : scope.Fits) : Appends (Writer.scope scope) (Format.scope scope) := by
  cases scope <;> simp only [CandidateScope.Fits, maxPathUtf16Units] at h <;>
    simp (disch := omega) [Writer.scope, Format.scope, ok_bind]

theorem appends_candidate {cand : BrokerCandidate} (h : cand.Fits) :
    Appends (Writer.candidate cand) (Format.candidate cand) := by
  obtain ⟨hs, hp, hr, -⟩ := h
  simp (disch := omega) [Writer.candidate, Format.candidate, ok_bind, appends_scope hs,
    appends_optional fun scope hm => appends_scope (hp scope hm)]

/-! ## Readers -/

@[simp] theorem reads_unsigned (width : Nat) : Reads (Reader.unsigned width) (· < 256 ^ width) (leBytes width) := by
  intro input n rest
  simp only [Reader.unsigned, takes_bind, takes_pure, takes_take]
  constructor
  · rintro ⟨bytes, mid, ⟨hl, rfl⟩, hn, rfl⟩
    obtain ⟨hlt, rfl⟩ := (ofLeBytes_eq_iff hl).mp hn
    exact ⟨hlt, rfl⟩
  · rintro ⟨hlt, rfl⟩
    exact ⟨_, _, ⟨length_leBytes width n, rfl⟩, ofLeBytes_leBytes hlt, rfl⟩

@[simp] theorem reads_u8 : Reads Reader.u8 (· < 2 ^ 8) (leBytes 1) := reads_unsigned 1

@[simp] theorem reads_u16 : Reads Reader.u16 (· < 2 ^ 16) (leBytes 2) := reads_unsigned 2

@[simp] theorem reads_u32 : Reads Reader.u32 (· < 2 ^ 32) (leBytes 4) := reads_unsigned 4

@[simp] theorem reads_u64 : Reads Reader.u64 (· < 2 ^ 64) (leBytes 8) := reads_unsigned 8

@[simp] theorem reads_i64 : Reads Reader.i64 Signed64 Format.i64 := by
  intro input v rest
  have h (n : Nat) := @ofUnsigned64_eq_iff n v
  simp only [Reader.i64, Format.i64, takes_bind, takes_pure, reads_unsigned, existsAndEq]
  grind

@[simp] theorem reads_array (n : Nat) : Reads (Reader.array n) (fun _ => True) Vector.toList := by
  intro input value rest
  simp only [Reader.array, takes_bind, takes_take]
  constructor
  · rintro ⟨bytes, mid, ⟨hl, rfl⟩, h⟩
    rw [dif_pos hl] at h
    obtain ⟨rfl, rfl⟩ := h
    exact ⟨trivial, rfl⟩
  · rintro ⟨-, rfl⟩
    refine ⟨value.toList, rest, ⟨by simp, rfl⟩, ?_⟩
    rw [dif_pos (by simp), takes_pure]
    exact ⟨by ext; simp, rfl⟩

@[simp] theorem reads_boolean : Reads Reader.boolean (fun _ => True) Format.boolean := by
  refine (reads_unsigned 1).decode (fun n b => ?_) fun b => by cases b <;> decide
  constructor
  · intro h
    unfold Reader.decodeBoolean at h
    split at h <;> cases h <;> rfl
  · rintro rfl
    cases b <;> rfl

@[simp] theorem reads_byteVec (h : maximum < 256 ^ 4) : Reads (Reader.byteVec maximum) (·.length ≤ maximum) Format.byteVec := by
  intro input value rest
  have hl : value.length ≤ maximum → value.length < 2 ^ 32 := (lt_of_le_of_lt · h)
  simp [Reader.byteVec, Format.byteVec]
  tauto

@[simp] theorem reads_string (h : maximum < 256 ^ 4) :
    Reads (Reader.string maximum) (·.utf8ByteSize ≤ maximum) Format.string := by
  intro input value rest
  have hc (bytes : List UInt8) :
      (ofUtf8 bytes).elim (.error .invalidUtf8) .ok = (.ok value : Except WireError String) ↔ bytes = utf8Bytes value := by
    rw [← ofUtf8_eq_some_iff]
    cases ofUtf8 bytes <;> simp
  simp [Reader.string, hc, reads_byteVec h]
  rfl

@[simp] theorem reads_utf16 (h : maximum < 256 ^ 4) : Reads (Reader.utf16 maximum) (·.length ≤ maximum) Format.utf16 := by
  intro input units rest
  simp only [Reader.utf16, takes_bind, takes_lift, takes_pure, require_ok, decide_eq_true_eq, takes_take, reads_u32]
  constructor
  · rintro ⟨n, _, ⟨-, rfl⟩, _, _, ⟨hle, rfl⟩, bytes, _, ⟨hl, rfl⟩, rfl, rfl⟩
    obtain ⟨hu, hb⟩ := flatMap_leBytes_unitsOfBytes hl
    rw [Format.utf16, hu, hb]
    exact ⟨hle, rfl⟩
  · rintro ⟨hle, rfl⟩
    refine ⟨_, _, ⟨lt_of_le_of_lt hle h, append_assoc _ _ _⟩, (), _, ⟨hle, rfl⟩, _, _, ⟨?_, rfl⟩,
      unitsOfBytes_flatMap units, rfl⟩
    simp [length_flatMap]

theorem reads_optional {read : WireStream α} {F : α → Prop} {L : α → List UInt8} (h : Reads read F L) :
    Reads (Reader.optional read) (fun value => ∀ a ∈ value, F a) (Format.optional L) := by
  intro input value rest
  cases value <;> simp [Reader.optional, Format.optional, h]
  tauto

/-! ## Records -/

@[simp] theorem reads_caller : Reads Reader.caller CallerClaim.InRange Format.caller := by
  rintro input ⟨⟩ rest
  simp [Reader.caller, CallerClaim.InRange, Format.caller]
  tauto

@[simp] theorem reads_root : Reads Reader.root RootAuthorization.Fits Format.root := by
  rintro input ⟨⟩ rest
  simp [Reader.root, RootAuthorization.Fits, RootAuthorization.InRange, Format.root, maxWireRootIdBytes, maxVolumeIdBytes,
    maxPathUtf16Units]
  tauto

@[simp] theorem reads_binding : Reads Reader.binding ResponseBinding.Fits Format.binding := by
  rintro input ⟨⟩ rest
  simp [Reader.binding, ResponseBinding.Fits, ResponseBinding.InRange, Format.binding, maxWireRootIdBytes, maxVolumeIdBytes]
  tauto

@[simp] theorem reads_rootCapability : Reads Reader.rootCapability (fun _ => True) (fun capa => capa.bytes.toList) := by
  rintro input ⟨⟩ rest
  simp [Reader.rootCapability]

/-! ## The header -/

/-- A field is read where it lies. -/
theorem readAt_ok {offset : Nat} : readAt payload offset width = .ok n ↔
    offset + width ≤ payload.length ∧ n < 256 ^ width ∧ (payload.drop offset).take width = leBytes width n := by
  unfold readAt
  split
  · next hle =>
    have hl : ((payload.drop offset).take width).length = width := by
      rw [length_take, length_drop]
      omega
    rw [Except.ok.injEq, ofLeBytes_eq_iff hl]
    exact ⟨fun h => ⟨hle, h⟩, fun h => h.2⟩
  · next hgt => exact ⟨fun h => (by cases h), fun h => absurd h.1 hgt⟩

theorem length_header (kind rid : Nat) : (Format.header kind rid).length = headerLength := by
  simp [Format.header, protocolMagic, magicOf, headerLength]

theorem drop_eq_take_append_drop (l : List UInt8) (m n : Nat) : l.drop m = (l.drop m).take n ++ l.drop (m + n) := by
  rw [← drop_drop, take_append_drop]

/-- Inspecting a payload of the present version. -/
theorem inspect_header {rid : Nat} (hk : kind < 2 ^ 16) (hid : rid < 2 ^ 64) (body : List UInt8) :
    inspectRequestHeader (Format.header kind rid ++ body) = .ok ⟨rid, protocolVersion, true⟩ ∧
      readAt (Format.header kind rid ++ body) 10 2 = .ok kind ∧
      (Format.header kind rid ++ body).drop headerLength = body := by
  have hl : (Format.header kind rid ++ body).length = headerLength + body.length := by
    rw [length_append, length_header]
  have hat {offset width n : Nat} {before after : List UInt8} (hn : n < 256 ^ width) (hb : before.length = offset)
      (hs : Format.header kind rid = before ++ (leBytes width n ++ after)) :
      readAt (Format.header kind rid ++ body) offset width = .ok n := by
    have hle := congrArg List.length hs
    simp only [length_append, length_header, length_leBytes] at hle
    refine readAt_ok.mpr ⟨by omega, hn, ?_⟩
    subst hb
    rw [hs, append_assoc, drop_left, append_assoc, take_left' (length_leBytes width n)]
  have hr : readAt (Format.header kind rid ++ body) 12 8 = .ok rid :=
    @hat 12 8 rid (protocolMagic ++ leBytes 2 protocolVersion ++ leBytes 2 kind) [] hid rfl (by simp [Format.header])
  refine ⟨?_, ?_, ?_⟩
  · unfold inspectRequestHeader
    rw [hr]
    rfl
  · exact @hat 10 2 kind (protocolMagic ++ leBytes 2 protocolVersion) (leBytes 8 rid) hk rfl (by simp [Format.header])
  · exact drop_left' (length_header kind rid)

/-- A payload whose header is accepted starts with that header. -/
theorem header_of_inspect {header : InspectedRequestHeader} (hi : inspectRequestHeader payload = .ok header)
    (hc : header.isCurrentMagic = true) (hve : header.version = protocolVersion) (hki : readAt payload 10 2 = .ok kind) :
    kind < 2 ^ 16 ∧ header.requestId < 2 ^ 64 ∧ payload = Format.header kind header.requestId ++ payload.drop headerLength := by
  obtain ⟨_, hl, hi⟩ := bind_ok hi
  obtain ⟨_, hm, hi⟩ := bind_ok hi
  obtain ⟨version, hv, hi⟩ := bind_ok hi
  obtain ⟨rid, hid, hi⟩ := bind_ok hi
  cases hi
  obtain rfl : version = protocolVersion := hve
  have hm : payload.take 8 = protocolMagic := by simpa using hc
  obtain ⟨-, -, hv⟩ := readAt_ok.mp hv
  obtain ⟨-, hidl, hid⟩ := readAt_ok.mp hid
  obtain ⟨-, hk, hki⟩ := readAt_ok.mp hki
  refine ⟨hk, hidl, ?_⟩
  calc payload = payload.take 8 ++ ((payload.drop 8).take 2 ++ ((payload.drop 10).take 2 ++
        ((payload.drop 12).take 8 ++ payload.drop headerLength))) := by
        rw [headerLength, ← drop_eq_take_append_drop payload 12 8, ← drop_eq_take_append_drop payload 10 2,
          ← drop_eq_take_append_drop payload 8 2, take_append_drop]
    _ = _ := by
        rw [hm, hv, hid, hki]
        simp [Format.header]

/-! ## What the checks ensure for the reader -/

theorem size_of_validateWireIdentifier (h : validateWireIdentifier value maximum = .ok ()) : value.utf8ByteSize ≤ maximum := by
  unfold validateWireIdentifier at h
  split at h
  · cases h
  · next hn =>
    simp only [Bool.or_eq_true, decide_eq_true_eq, not_or] at hn
    omega

theorem size_of_validateRelativePath {path : String} (h : validateRelativePath path = .ok ()) :
    path.utf8ByteSize ≤ maxPathUtf16Units * 3 := by
  unfold validateRelativePath at h
  split at h
  · cases h
  · next hn =>
    have hs := Utf16.utf8ByteSize_le path
    simp only [Bool.or_eq_true, decide_eq_true_eq, not_or] at hn
    omega

theorem length_of_normalizeAbsolutePath {path : List UInt16} {normalized : NormalizedWindowsPath}
    (h : normalizeAbsolutePath path = .ok normalized) : path.length ≤ maxPathUtf16Units := by
  unfold normalizeAbsolutePath at h
  split at h
  · cases h
  · next hn =>
    simp only [Bool.or_eq_true, decide_eq_true_eq, not_or] at hn
    omega

theorem length_of_isReferenceLength (h : isReferenceLength n = true) : n ≤ 16 := by
  simp only [isReferenceLength, Bool.or_eq_true, beq_iff_eq] at h
  omega

theorem RootAuthorization.fits_of_validate (h : root.validate = .ok ()) (hr : root.InRange) : root.Fits := by
  obtain ⟨_, hid, h⟩ := bind_ok h
  obtain ⟨_, hv, h⟩ := bind_ok h
  obtain ⟨_, hi, h⟩ := bind_ok h
  obtain ⟨_, hp, -⟩ := bind_ok h
  rw [require_ok, Bool.not_eq_true', Bool.or_eq_false_iff, Bool.not_eq_false'] at hi
  exact ⟨size_of_validateWireIdentifier hid, hr, size_of_validateWireIdentifier hv,
    length_of_isReferenceLength hi.2, length_of_normalizeAbsolutePath hp⟩

end Ame
