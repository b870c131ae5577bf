import Ame.Lemmas.Codec
import Ame.Usn.Parsing

/-!
# Parsing a journal buffer inverts its layout

The layout is stated twice and apart from the parser: as the bytes of a record in their order (`RawUsnRecord.bytes`), and as where
each field of a record is found (`RecordAt`). The parser accepts a buffer exactly if it is cut into records that stand at their
places, and what it returns are their fields.
-/

namespace Ame

open List Binary Result Slices Except

variable {piece : List UInt8} {record rec : ParsedUsnRecord} {recs : List ParsedUsnRecord} {value : Int}

/-! ## The layout -/

/-- A file name the parser lets through. -/
structure ValidName (name : String) : Prop where
  nonempty : name.toList ≠ []
  notCurrent : name.toList ≠ ['.']
  notParent : name.toList ≠ ['.', '.']
  component : ∀ c ∈ name.toList, c ≠ '\\' ∧ c ≠ '/' ∧ c ≠ '\x00'

/-- A file name as the journal writes it. -/
def nameBytes (name : String) : List UInt8 := (Utf16.encode name.toList).flatMap fun unit => leBytes 2 unit.toNat

/-- The version that has references of a width. -/
def versionOf (width : Nat) : Nat := if width = 8 then 2 else 3

/-- The fields behind the two references of a record, which have some width, are those of a parsed record. -/
structure FieldsAt (width : Nat) (piece : List UInt8) (record : ParsedUsnRecord) : Prop where
  header : 44 + 2 * width ≤ piece.length
  usn : ofUnsigned64 (ofLeBytes (slice piece (8 + 2 * width) 8)) = record.usn
  timestamp : ofUnsigned64 (ofLeBytes (slice piece (16 + 2 * width) 8)) = record.timestamp100ns
  reason : ofLeBytes (slice piece (24 + 2 * width) 4) = record.reason.toNat
  attributes : ofLeBytes (slice piece (36 + 2 * width) 4) = record.fileAttributes.toNat
  name : ∃ nameLength nameOffset, ofLeBytes (slice piece (40 + 2 * width) 2) = nameLength ∧
    ofLeBytes (slice piece (42 + 2 * width) 2) = nameOffset ∧ nameLength % 2 = 0 ∧ nameOffset % 2 = 0 ∧
    44 + 2 * width ≤ nameOffset ∧ nameOffset + nameLength ≤ piece.length ∧ slice piece nameOffset nameLength =
    nameBytes record.name
  validName : ValidName record.name
  nonnegative : 0 ≤ record.usn

/-- The bytes are one record of the journal, and every field of a parsed record is the one at its place. -/
structure RecordAt (piece : List UInt8) (record : ParsedUsnRecord) : Prop where
  recordLength : ofLeBytes (slice piece 0 4) = piece.length
  aligned : piece.length % 8 = 0
  version : ofLeBytes (slice piece 4 2) = versionOf record.fileReference.bytes.length
  fileReference : slice piece 8 record.fileReference.bytes.length = record.fileReference.bytes
  parentReference : slice piece (8 + record.fileReference.bytes.length) record.fileReference.bytes.length =
    record.parentReference.bytes
  fields : FieldsAt record.fileReference.bytes.length piece record

/-! ## Reading a field -/

section

variable {buffer : List UInt8} {offset : Nat}

theorem readArray_ok {n : Nat} {bytes : List UInt8} :
    readArray buffer offset n = .ok bytes ↔ offset + n ≤ buffer.length ∧ slice buffer offset n = bytes := by
  unfold readArray
  split
  · next h => exact ⟨fun hok => ⟨h, ok.inj hok⟩, fun hb => congrArg _ hb.2⟩
  · next h => exact ⟨fun hok => (by cases hok), fun hb => absurd hb.1 h⟩

theorem readArray_map_ok {n : Nat} {α : Type} {f : List UInt8 → α} {value : α} :
    (readArray buffer offset n).map f = .ok value ↔ offset + n ≤ buffer.length ∧ f (slice buffer offset n) = value := by
  unfold readArray
  split
  · next h => exact ⟨fun hok => ⟨h, ok.inj hok⟩, fun hb => congrArg _ hb.2⟩
  · next h => exact ⟨fun hok => (by cases hok), fun hb => absurd hb.1 h⟩

theorem readU16_ok {value : Nat} :
    readU16 buffer offset = .ok value ↔ offset + 2 ≤ buffer.length ∧ ofLeBytes (slice buffer offset 2) = value :=
  readArray_map_ok

theorem readU32_ok {value : Nat} :
    readU32 buffer offset = .ok value ↔ offset + 4 ≤ buffer.length ∧ ofLeBytes (slice buffer offset 4) = value :=
  readArray_map_ok

theorem readI64_ok {value : Int} :
    readI64 buffer offset = .ok value ↔ offset + 8 ≤ buffer.length ∧ ofUnsigned64 (ofLeBytes (slice buffer offset 8)) = value :=
  readArray_map_ok

theorem readReference_ok {width : Nat} (hw : width = 8 ∨ width = 16) {ref : FileReference} :
    readReference buffer offset width = .ok ref ↔ offset + width ≤ buffer.length ∧ slice buffer offset width = ref.bytes := by
  unfold readReference
  constructor
  · intro h
    obtain ⟨bytes, hb, h⟩ := bind_ok h
    obtain ⟨hle, rfl⟩ := readArray_ok.mp hb
    split at h
    · obtain rfl := ok.inj h
      exact ⟨hle, rfl⟩
    · cases h
  · rintro ⟨hle, hb⟩
    have hl := length_slice hle
    have hv : (slice buffer offset width).length = 8 ∨ (slice buffer offset width).length = 16 := by omega
    rw [readArray_ok.mpr ⟨hle, rfl⟩]
    obtain ⟨bytes, hv'⟩ := ref
    subst hb
    exact dif_pos hv

end

theorem ofList_any_iff {name : List Char} :
    (name = ['.'] ∨ name = ['.', '.'] ∨ (name.any fun c => c = '\\' ∨ c = '/' ∨ c = '\x00') = true) ↔
      ¬(name ≠ ['.'] ∧ name ≠ ['.', '.'] ∧ ∀ c ∈ name, c ≠ '\\' ∧ c ≠ '/' ∧ c ≠ '\x00') := by
  simp only [any_eq_true, decide_eq_true_eq]
  push Not
  constructor
  · rintro (h | h | ⟨c, hc, h⟩)
    · exact fun h' => absurd h h'
    · exact fun _ h' => absurd h h'
    · exact fun _ _ => ⟨c, hc, by tauto⟩
  · intro h
    by_cases h1 : name = ['.']
    · exact .inl h1
    by_cases h2 : name = ['.', '.']
    · exact .inr (.inl h2)
    obtain ⟨c, hc, h⟩ := h h1 h2
    exact .inr (.inr ⟨c, hc, by tauto⟩)

/-- The name of a record: the bytes of a valid name. -/
theorem decodeName_some {bytes : List UInt8} (hev : bytes.length % 2 = 0) {name : String} :
    decodeName bytes = .ok (some name) ↔ ValidName name ∧ bytes = nameBytes name := by
  have hl : bytes.length = bytes.length / 2 * 2 := by omega
  have hu := (flatMap_leBytes_unitsOfBytes hl).2
  unfold decodeName
  constructor
  · intro h
    split at h
    · cases h
    · next hn =>
      split at h
      · cases h
      · next decoded hde =>
        split at h
        · cases h
        · next hv =>
          obtain rfl := Option.some.inj (ok.inj h)
          rw [ofList_any_iff, not_not] at hv
          have hb : bytes = nameBytes (String.ofList decoded) := by
            rw [nameBytes, String.toList_ofList, Utf16.encode_of_decode hde, hu]
          refine ⟨⟨?_, ?_, ?_, ?_⟩, hb⟩ <;> rw [String.toList_ofList]
          · rintro rfl
            exact hn (by rw [hb]; rfl)
          · exact hv.1
          · exact hv.2.1
          · exact hv.2.2
  · rintro ⟨hv, rfl⟩
    have hn : (nameBytes name).isEmpty = false := by
      rw [isEmpty_eq_false_iff]
      intro hni
      have he : Utf16.encode name.toList = [] := by
        rw [← unitsOfBytes_flatMap (Utf16.encode name.toList)]
        exact congrArg unitsOfBytes hni
      have hd := Utf16.decode_encode name.toList
      rw [he] at hd
      exact hv.nonempty (Option.some.inj hd).symm
    have hd : Utf16.decode (unitsOfBytes (nameBytes name)) = some name.toList := by
      rw [nameBytes, unitsOfBytes_flatMap, Utf16.decode_encode]
    rw [hn, hd]
    dsimp only
    rw [if_neg Bool.false_ne_true, if_neg (ofList_any_iff.not.mpr (not_not.mpr
      ⟨hv.notCurrent, hv.notParent, hv.component⟩)), String.ofList_toList]

/-! ## Decoding one record -/

/-- Where the fields of a record stand, by the width of its references. -/
def offsetsOf (width : Nat) : UsnRecordOffsets :=
  ⟨8 + 2 * width, 16 + 2 * width, 24 + 2 * width, 36 + 2 * width, 40 + 2 * width, 42 + 2 * width, 44 + 2 * width⟩

section

variable {fref pref : FileReference} {width : Nat}

theorem toNat_ofNat_ofLeBytes {offset : Nat} (h : offset + 4 ≤ piece.length) :
    (UInt32.ofNat (ofLeBytes (slice piece offset 4))).toNat = ofLeBytes (slice piece offset 4) := by
  have hlt := ofLeBytes_lt (slice piece offset 4)
  rw [length_slice h] at hlt
  exact Nat.mod_eq_of_lt hlt

/-- What is decoded is laid out so. -/
theorem decodeFields_sound (h : (decodeFields piece fref pref (offsetsOf width) >>= admitNamed) = .ok rec) :
    rec.fileReference = fref ∧ rec.parentReference = pref ∧ FieldsAt width piece rec := by
  obtain ⟨decoded, hd, hna⟩ := bind_ok h
  obtain ⟨hh, hd⟩ := ite_throw_bind_ok.mp hd
  obtain ⟨nameLength, hl, hd⟩ := bind_ok hd
  obtain ⟨nameOffset, ho, hd⟩ := bind_ok hd
  obtain ⟨hp, hd⟩ := ite_throw_bind_ok.mp hd
  obtain ⟨bytes, hb, hd⟩ := bind_ok hd
  obtain ⟨name, hnam, hd⟩ := bind_ok hd
  obtain ⟨usn, hu, hd⟩ := bind_ok hd
  obtain ⟨hn, hd⟩ := ite_throw_bind_ok.mp hd
  obtain ⟨timestamp, ht, hd⟩ := bind_ok hd
  obtain ⟨reason, hr, hd⟩ := bind_ok hd
  obtain ⟨attributes, ha, hd⟩ := bind_ok hd
  obtain rfl := ok.inj hd
  obtain ⟨hi, rfl⟩ := readArray_ok.mp hb
  obtain ⟨hreason_le, rfl⟩ := readU32_ok.mp hr
  obtain ⟨hattributes_le, rfl⟩ := readU32_ok.mp ha
  cases name with
  | none => cases hna
  | some name =>
    obtain rfl := ok.inj hna
    push Not at hp
    have he : (slice piece nameOffset nameLength).length % 2 = 0 := by rw [length_slice hi]; exact hp.1
    obtain ⟨hv, hnb⟩ := (decodeName_some he).mp hnam
    exact ⟨rfl, rfl, not_lt.mp hh, (readI64_ok.mp hu).2, (readI64_ok.mp ht).2,
      (toNat_ofNat_ofLeBytes hreason_le).symm, (toNat_ofNat_ofLeBytes hattributes_le).symm,
      ⟨nameLength, nameOffset, (readU16_ok.mp hl).2, (readU16_ok.mp ho).2, hp.1, hp.2.1, hp.2.2, hi, hnb⟩, hv, not_lt.mp hn⟩

/-- What is laid out so is decoded. -/
theorem decodeFields_complete (h : FieldsAt width piece rec) :
    (decodeFields piece rec.fileReference rec.parentReference (offsetsOf width) >>= admitNamed) = .ok rec := by
  have hh := h.header
  obtain ⟨nameLength, nameOffset, hl, ho, hle, hoe, hbe, hi, hnb⟩ := h.name
  have he : (slice piece nameOffset nameLength).length % 2 = 0 := by rw [length_slice hi]; exact hle
  have hn := (decodeName_some he).mpr ⟨h.validName, hnb⟩
  have hlr : readU16 piece (40 + 2 * width) = .ok nameLength := readU16_ok.mpr ⟨by omega, hl⟩
  have hor : readU16 piece (42 + 2 * width) = .ok nameOffset := readU16_ok.mpr ⟨by omega, ho⟩
  have hb : readArray piece nameOffset nameLength = .ok (slice piece nameOffset nameLength) := readArray_ok.mpr ⟨hi, rfl⟩
  have hu : readI64 piece (8 + 2 * width) = .ok rec.usn := readI64_ok.mpr ⟨by omega, h.usn⟩
  have ht : readI64 piece (16 + 2 * width) = .ok rec.timestamp100ns := readI64_ok.mpr ⟨by omega, h.timestamp⟩
  have hr : readU32 piece (24 + 2 * width) = .ok rec.reason.toNat := readU32_ok.mpr ⟨by omega, h.reason⟩
  have ha : readU32 piece (36 + 2 * width) = .ok rec.fileAttributes.toNat := readU32_ok.mpr ⟨by omega, h.attributes⟩
  have hp : ¬(nameLength % 2 ≠ 0 ∨ nameOffset % 2 ≠ 0 ∨ nameOffset < 44 + 2 * width) := by omega
  unfold decodeFields offsetsOf
  rw [if_neg (not_lt.mpr hh), hlr, hor]
  dsimp only [bind, Except.bind]
  rw [if_neg hp, hb]
  dsimp only
  rw [hn, hu]
  dsimp only
  rw [if_neg (not_lt.mpr h.nonnegative), ht, hr, ha]
  dsimp only [pure, Except.pure, admitNamed]
  rw [UInt32.ofNat_toNat, UInt32.ofNat_toNat]

/-- A version of the record and the references that go with it. -/
theorem decodeVersion_ok (hw : width = 8 ∨ width = 16) : ((do
      let fref ← readReference piece 8 width
      let pref ← readReference piece (8 + width) width
      decodeFields piece fref pref (offsetsOf width)) >>= admitNamed) = .ok rec ↔
      slice piece 8 width = rec.fileReference.bytes ∧ slice piece (8 + width) width = rec.parentReference.bytes ∧
        FieldsAt width piece rec := by
  constructor
  · intro h
    obtain ⟨decoded, h, hn⟩ := bind_ok h
    obtain ⟨fref, hfi, h⟩ := bind_ok h
    obtain ⟨pref, hp, h⟩ := bind_ok h
    obtain ⟨rfl, rfl, hf⟩ := decodeFields_sound ((congrArg (· >>= admitNamed) h).trans hn)
    exact ⟨((readReference_ok hw).mp hfi).2, ((readReference_ok hw).mp hp).2, hf⟩
  · rintro ⟨hfi, hp, hf⟩
    have hh := hf.header
    rw [(readReference_ok hw).mpr ⟨by omega, hfi⟩]
    rw [(readReference_ok hw).mpr ⟨by omega, hp⟩]
    exact decodeFields_complete hf

end

/-- One record is decoded exactly if its fields stand at their places. -/
theorem decodeUsnRecord_ok : (decodeUsnRecord piece >>= admitNamed) = .ok rec ↔
      ofLeBytes (slice piece 4 2) = versionOf rec.fileReference.bytes.length ∧
      slice piece 8 rec.fileReference.bytes.length = rec.fileReference.bytes ∧
      slice piece (8 + rec.fileReference.bytes.length) rec.fileReference.bytes.length = rec.parentReference.bytes ∧
      FieldsAt rec.fileReference.bytes.length piece rec := by
  unfold decodeUsnRecord
  constructor
  · intro h
    obtain ⟨decoded, h, hn⟩ := bind_ok h
    obtain ⟨version, hv, h⟩ := bind_ok h
    obtain ⟨-, hv⟩ := readU16_ok.mp hv
    have hd := congrArg (· >>= admitNamed) h
    split at hd
    · obtain ⟨hfi, hp, hf⟩ := (decodeVersion_ok (.inl rfl)).mp (hd.trans hn)
      have hw : rec.fileReference.bytes.length = 8 := by
        rw [← hfi]
        exact length_slice (by have := hf.header; omega)
      rw [hw]
      exact ⟨hv, hfi, hp, hf⟩
    · obtain ⟨hfi, hp, hf⟩ := (decodeVersion_ok (.inr rfl)).mp (hd.trans hn)
      have hw : rec.fileReference.bytes.length = 16 := by
        rw [← hfi]
        exact length_slice (by have := hf.header; omega)
      rw [hw]
      exact ⟨hv, hfi, hp, hf⟩
    · cases hd.trans hn
  · rintro ⟨hv, hfi, hp, hf⟩
    have hh := hf.header
    rw [readU16_ok.mpr ⟨by omega, hv⟩]
    rcases rec.fileReference.version with hw | hw <;> rw [hw] at hfi hp hf ⊢
    · exact (decodeVersion_ok (.inl rfl)).mpr ⟨hfi, hp, hf⟩
    · exact (decodeVersion_ok (.inr rfl)).mpr ⟨hfi, hp, hf⟩

/-! ## The records of a buffer -/

theorem RecordAt.length_ge (h : RecordAt piece rec) : 60 ≤ piece.length := by
  have hh := h.fields.header
  rcases rec.fileReference.version with hw | hw <;> omega

/-- The loop cuts the bytes into records, all of them and nothing else. -/
theorem decodeRecords_ok {rem : List UInt8} : decodeRecords admitNamed rem = .ok recs ↔
      ∃ pieces, rem = pieces.flatten ∧ List.Forall₂ RecordAt pieces recs := by
  constructor
  · intro h
    fun_induction decodeRecords admitNamed rem generalizing recs with
    | case1 =>
      obtain rfl := ok.inj h
      exact ⟨[], rfl, .nil⟩
    | case2 | case3 | case4 => cases h
    | case5 rem _ _ recordLength hl hfi ih =>
      push Not at hfi
      obtain ⟨decoded, hd, h⟩ := bind_ok h
      obtain ⟨rec, hr, h⟩ := bind_ok h
      obtain ⟨rest, hres, h⟩ := bind_ok h
      obtain rfl := ok.inj h
      obtain ⟨pieces, hpi, hal⟩ := ih hres
      have ht : (rem.take recordLength).length = recordLength := length_take_of_le hfi.2.2
      obtain ⟨hv, hfil, hp, hf⟩ := decodeUsnRecord_ok.mp (by rw [hd]; exact hr)
      refine ⟨rem.take recordLength :: pieces, ?_, .cons ⟨?_, ?_, hv, hfil, hp, hf⟩ hal⟩
      · rw [flatten_cons, ← hpi, take_append_drop]
      · rw [ht]
        have hfo : min 4 recordLength = 4 := by omega
        have hlb := (readU32_ok.mp hl).2
        rw [slice, drop_zero] at hlb ⊢
        rw [take_take, hfo, hlb]
      · rw [ht]
        exact hfi.2.1
  · rintro ⟨pieces, rfl, hal⟩
    induction hal with
    | nil => rw [flatten_nil, decodeRecords, if_pos rfl]
    | @cons piece rec pieces recs hr hal ih =>
      have hl := hr.length_ge
      rw [flatten_cons]
      have hne : piece ++ pieces.flatten ≠ [] := by
        intro hni
        have := congrArg List.length hni
        rw [length_append, length_nil] at this
        omega
      have hle : piece.length ≤ (piece ++ pieces.flatten).length := by rw [length_append]; omega
      have hre : readU32 (piece ++ pieces.flatten) 0 = .ok piece.length := by
        refine readU32_ok.mpr ⟨by omega, ?_⟩
        rw [← hr.recordLength]
        simp only [slice, drop_zero]
        rw [take_append_of_le_length (by omega)]
      obtain ⟨decoded, hd, hn⟩ := bind_ok (decodeUsnRecord_ok.mpr ⟨hr.version, hr.fileReference, hr.parentReference, hr.fields⟩)
      have ha := hr.aligned
      rw [decodeRecords, if_neg hne, if_neg (by omega), hre]
      dsimp only
      rw [dif_neg (by omega), take_left, drop_left, hd, ih]
      dsimp only [bind, Except.bind]
      rw [hn]
      rfl

/-- A buffer is its records, one after the other. -/
theorem parseJournalBuffer_ok {buffer : List UInt8} {nextUsn : Int} : parseJournalBuffer buffer = .ok (nextUsn, recs) ↔
      8 ≤ buffer.length ∧ ofUnsigned64 (ofLeBytes (buffer.take 8)) = nextUsn ∧
        ∃ pieces, buffer.drop 8 = pieces.flatten ∧ List.Forall₂ RecordAt pieces recs := by
  unfold parseJournalBuffer decodeJournalBuffer
  rw [ite_throw_bind_ok, ← decodeRecords_ok, not_lt]
  refine and_congr_right fun hl => ?_
  constructor
  · intro h
    obtain ⟨next, hn, h⟩ := bind_ok h
    obtain ⟨rest, hres, h⟩ := bind_ok h
    cases ok.inj h
    exact ⟨(readI64_ok.mp (mapError_ok.mp hn)).2, hres⟩
  · rintro ⟨hn, hr⟩
    have hre : readI64 buffer 0 = .ok nextUsn := readI64_ok.mpr ⟨by omega, hn⟩
    rw [mapError_ok.mpr hre, hr]
    rfl

/-! ## Records as they are written -/

/-- A record in the journal: what is parsed of it, and the rest of its bytes. -/
structure RawUsnRecord where
  record : ParsedUsnRecord
  minorVersion : List UInt8
  sourceInfoAndSecurityId : List UInt8
  /-- Between the header and the name. -/
  gap : List UInt8
  /-- Behind the name. -/
  padding : List UInt8

namespace RawUsnRecord

section

variable (raw : RawUsnRecord)

def width : Nat := raw.record.fileReference.bytes.length

def nameOffset : Nat := 44 + 2 * raw.width + raw.gap.length

def recordLength : Nat := raw.nameOffset + (nameBytes raw.record.name).length + raw.padding.length

/-- The bytes of the record in their order. -/
def bytes : List UInt8 :=
  leBytes 4 raw.recordLength ++ (leBytes 2 (versionOf raw.width) ++ (raw.minorVersion ++
  (raw.record.fileReference.bytes ++ (raw.record.parentReference.bytes ++
  (leBytes 8 (toUnsigned64 raw.record.usn) ++ (leBytes 8 (toUnsigned64 raw.record.timestamp100ns) ++
  (leBytes 4 raw.record.reason.toNat ++ (raw.sourceInfoAndSecurityId ++ (leBytes 4 raw.record.fileAttributes.toNat ++
  (leBytes 2 (nameBytes raw.record.name).length ++ (leBytes 2 raw.nameOffset ++
  (raw.gap ++ (nameBytes raw.record.name ++ raw.padding)))))))))))))

end

/-- The record can be written: every number fits its field, and the record has the form the journal gives it. -/
structure Fits (raw : RawUsnRecord) : Prop where
  minorVersion : raw.minorVersion.length = 2
  sourceInfoAndSecurityId : raw.sourceInfoAndSecurityId.length = 8
  sameVersion : raw.record.parentReference.bytes.length = raw.width
  usn : 0 ≤ raw.record.usn ∧ raw.record.usn < 2 ^ 63
  timestamp : Signed64 raw.record.timestamp100ns
  name : ValidName raw.record.name
  nameLength : (nameBytes raw.record.name).length < 2 ^ 16
  nameOffset : raw.nameOffset < 2 ^ 16 ∧ raw.nameOffset % 2 = 0
  recordLength : raw.recordLength < 2 ^ 32 ∧ raw.recordLength % 8 = 0

/-- A record has the length it states. -/
theorem length_bytes {raw : RawUsnRecord} (h : raw.Fits) : raw.bytes.length = raw.recordLength := by
  have hp := h.sameVersion
  have hm := h.minorVersion
  have hs := h.sourceInfoAndSecurityId
  unfold bytes recordLength nameOffset
  unfold width at hp ⊢
  simp only [length_append, length_leBytes]
  omega

end RawUsnRecord

theorem length_nameBytes_even (name : String) : (nameBytes name).length % 2 = 0 := by
  rw [nameBytes, length_flatMap]
  simp only [length_leBytes, map_const', sum_replicate_nat]
  omega

theorem ofUnsigned64_toUnsigned64 (h : Signed64 value) : ofUnsigned64 (toUnsigned64 value) = value :=
  (ofUnsigned64_eq_iff.mpr ⟨h, rfl⟩).2

theorem toUnsigned64_lt (h : Signed64 value) : toUnsigned64 value < 256 ^ 8 :=
  (ofUnsigned64_eq_iff.mpr ⟨h, rfl⟩).1

/-- The fields of a written record stand at their places. -/
theorem RawUsnRecord.recordAt {raw : RawUsnRecord} (h : raw.Fits) : RecordAt raw.bytes raw.record := by
  have hl := length_bytes h
  have hwi : raw.record.fileReference.bytes.length = raw.width := rfl
  have hpl : 44 + 2 * raw.width + raw.gap.length = raw.nameOffset := rfl
  have hto : raw.nameOffset + (nameBytes raw.record.name).length + raw.padding.length = raw.recordLength := rfl
  have hw : raw.bytes.drop 0 = raw.bytes := drop_zero
  -- The record is taken apart field by field; each step keeps what is left behind the field.
  obtain ⟨-, hs, hw⟩ := (drop_eq_append_iff 4 (length_leBytes 4 _) rfl (by omega)).mp hw
  obtain ⟨-, hv, hw⟩ := (drop_eq_append_iff 6 (length_leBytes 2 _) rfl (by omega)).mp hw
  obtain ⟨-, -, hw⟩ := (drop_eq_append_iff 8 h.minorVersion rfl (by omega)).mp hw
  obtain ⟨-, hf, hw⟩ := (drop_eq_append_iff _ hwi rfl (by omega)).mp hw
  obtain ⟨-, hp, hw⟩ :=
    (drop_eq_append_iff (8 + 2 * raw.width) h.sameVersion (by omega) (by omega)).mp hw
  obtain ⟨-, hus, hw⟩ :=
    (drop_eq_append_iff (16 + 2 * raw.width) (length_leBytes 8 _) (by omega) (by omega)).mp hw
  obtain ⟨-, ht, hw⟩ :=
    (drop_eq_append_iff (24 + 2 * raw.width) (length_leBytes 8 _) (by omega) (by omega)).mp hw
  obtain ⟨-, hr, hw⟩ :=
    (drop_eq_append_iff (28 + 2 * raw.width) (length_leBytes 4 _) (by omega) (by omega)).mp hw
  obtain ⟨-, -, hw⟩ :=
    (drop_eq_append_iff (36 + 2 * raw.width) h.sourceInfoAndSecurityId (by omega) (by omega)).mp hw
  obtain ⟨-, ha, hw⟩ :=
    (drop_eq_append_iff (40 + 2 * raw.width) (length_leBytes 4 _) (by omega) (by omega)).mp hw
  obtain ⟨-, hnl, hw⟩ :=
    (drop_eq_append_iff (42 + 2 * raw.width) (length_leBytes 2 _) (by omega) (by omega)).mp hw
  obtain ⟨-, hno, hw⟩ :=
    (drop_eq_append_iff (44 + 2 * raw.width) (length_leBytes 2 _) (by omega) (by omega)).mp hw
  obtain ⟨-, -, hw⟩ := (drop_eq_append_iff _ rfl hpl (by omega)).mp hw
  obtain ⟨-, hn, -⟩ := (drop_eq_append_iff _ rfl rfl (by omega)).mp hw
  have hu : Signed64 raw.record.usn := ⟨by have := h.usn.1; omega, h.usn.2⟩
  have hvl : versionOf raw.width < 256 ^ 2 := by unfold versionOf; split <;> omega
  exact {
    recordLength := by rw [hs, hl, ofLeBytes_leBytes h.recordLength.1]
    aligned := by rw [hl]; exact h.recordLength.2
    version := by rw [hv, ofLeBytes_leBytes hvl, hwi]
    fileReference := hf
    parentReference := hp
    fields := {
      header := by omega
      usn := by rw [hwi, hus, ofLeBytes_leBytes (toUnsigned64_lt hu), ofUnsigned64_toUnsigned64 hu]
      timestamp := by
        rw [hwi, ht, ofLeBytes_leBytes (toUnsigned64_lt h.timestamp), ofUnsigned64_toUnsigned64 h.timestamp]
      reason := by rw [hwi, hr, ofLeBytes_leBytes raw.record.reason.toNat_lt]
      attributes := by rw [hwi, ha, ofLeBytes_leBytes raw.record.fileAttributes.toNat_lt]
      name := ⟨(nameBytes raw.record.name).length, raw.nameOffset, by rw [hwi, hnl, ofLeBytes_leBytes h.nameLength],
        by rw [hwi, hno, ofLeBytes_leBytes h.nameOffset.1], length_nameBytes_even _, h.nameOffset.2, by omega, by omega,
        hn⟩
      validName := h.name
      nonnegative := h.usn.1 } }

/-- A journal buffer: the coordinate of the next read, and the records. -/
def journalBuffer (nextUsn : Int) (raws : List RawUsnRecord) : List UInt8 :=
  leBytes 8 (toUnsigned64 nextUsn) ++ (raws.map RawUsnRecord.bytes).flatten

/-- Parsing returns the records a buffer was written from. Conversely, whatever bytes it accepts are cut into records without a rest,
and what it returns are the fields at their places. -/
theorem parseJournalBuffer_inverts :
    (∀ (nextUsn : Int) (raws : List RawUsnRecord), Signed64 nextUsn → (∀ raw ∈ raws, raw.Fits) →
      parseJournalBuffer (journalBuffer nextUsn raws) = .ok (nextUsn, raws.map RawUsnRecord.record)) ∧
    ∀ (buffer : List UInt8) (nextUsn : Int) (records : List ParsedUsnRecord),
      parseJournalBuffer buffer = .ok (nextUsn, records) →
        8 ≤ buffer.length ∧ ofUnsigned64 (ofLeBytes (buffer.take 8)) = nextUsn ∧
          ∃ pieces, buffer.drop 8 = pieces.flatten ∧ List.Forall₂ RecordAt pieces records := by
  refine ⟨?_, fun buffer nextUsn records h => parseJournalBuffer_ok.mp h⟩
  intro nextUsn raws hn hf
  have ht : (journalBuffer nextUsn raws).take 8 = leBytes 8 (toUnsigned64 nextUsn) :=
    take_left' (length_leBytes 8 _)
  have hd : (journalBuffer nextUsn raws).drop 8 = (raws.map RawUsnRecord.bytes).flatten :=
    drop_left' (length_leBytes 8 _)
  refine parseJournalBuffer_ok.mpr ⟨?_, ?_, raws.map RawUsnRecord.bytes, hd, ?_⟩
  · rw [journalBuffer, length_append, length_leBytes]
    omega
  · rw [ht, ofLeBytes_leBytes (toUnsigned64_lt hn), ofUnsigned64_toUnsigned64 hn]
  · rw [List.forall₂_map_left_iff, List.forall₂_map_right_iff, List.forall₂_same]
    exact fun raw hr => RawUsnRecord.recordAt (hf raw hr)

/-- A record of version 3 whose name takes a surrogate pair, with a gap in front of the name and padding behind it. -/
def surrogateRecord : RawUsnRecord where
  record := ⟨⟨List.replicate 16 7, by decide⟩, ⟨List.replicate 16 5, by decide⟩, 4096, -1, 0x2000, 32, "𝄞.jpg"⟩
  minorVersion := [0, 0]
  sourceInfoAndSecurityId := List.replicate 8 0
  gap := [0, 0]
  padding := [0, 0, 0, 0, 0, 0]

theorem parseJournalBuffer_inverts_surrogate :
    parseJournalBuffer (journalBuffer 8192 [surrogateRecord]) = .ok (8192, [surrogateRecord.record]) := by
  have ht : surrogateRecord.record.name.toList = ['𝄞', '.', 'j', 'p', 'g'] := by decide
  have hn : ValidName surrogateRecord.record.name := by
    refine ⟨by decide, by decide, by decide, ?_⟩
    rw [ht]
    simp
  have hf : surrogateRecord.Fits :=
    ⟨by decide, by decide, by decide, by decide, by decide, hn, by decide, by decide, by decide⟩
  exact parseJournalBuffer_inverts.1 8192 [surrogateRecord] (by decide) (by simpa using hf)

end Ame
