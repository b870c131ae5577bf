import Ame.Broker.Codec
import Ame.Broker.Usn
import Ame.Lib.Slices

/-!
# The bytes of a journal buffer (`windows_usn/parsing.rs`)

A read of the journal fills a buffer: the coordinate of the next read, and then records one after the other, each with its length in
front. A record is of version 2 or 3, which differ in the width of the file references; its name stands at an offset the record
gives.
-/

namespace Ame

open Binary Slices

inductive UsnParseError where
  | bufferMalformed
  | recordMalformed
  | versionUnsupported
  | nameInvalid
  deriving DecidableEq, Repr

structure DecodedUsnRecord where
  fileReference : FileReference
  parentReference : FileReference
  usn : Int
  timestamp100ns : Int
  reason : UInt32
  fileAttributes : UInt32
  name : Option String
  deriving DecidableEq, Repr

structure ParsedUsnRecord where
  fileReference : FileReference
  parentReference : FileReference
  usn : Int
  timestamp100ns : Int
  reason : UInt32
  fileAttributes : UInt32
  name : String
  deriving DecidableEq, Repr

variable (buffer : List UInt8)

/-- `read_array` -/
def readArray (offset n : Nat) : Except UsnParseError (List UInt8) :=
  if offset + n ≤ buffer.length then .ok (slice buffer offset n) else .error .recordMalformed

/-- `read_u16` -/
def readU16 (offset : Nat) : Except UsnParseError Nat := (readArray buffer offset 2).map ofLeBytes

/-- `read_u32` -/
def readU32 (offset : Nat) : Except UsnParseError Nat := (readArray buffer offset 4).map ofLeBytes

/-- `read_i64` -/
def readI64 (offset : Nat) : Except UsnParseError Int :=
  (readArray buffer offset 8).map fun bytes => ofUnsigned64 (ofLeBytes bytes)

/-- A file reference of 8 or of 16 bytes. -/
def readReference (offset width : Nat) : Except UsnParseError FileReference := do
  let bytes ← readArray buffer offset width
  if h : bytes.length = 8 ∨ bytes.length = 16 then return ⟨bytes, h⟩ else throw .recordMalformed

/-- `decode_name` -/
def decodeName (bytes : List UInt8) : Except UsnParseError (Option String) :=
  if bytes.isEmpty then .ok none
  else
    match Utf16.decode (unitsOfBytes bytes) with
    | none => .error .nameInvalid
    | some name =>
      if name = ['.'] ∨ name = ['.', '.'] ∨ name.any (fun c => c = '\\' ∨ c = '/' ∨ c = '\x00') then .error .nameInvalid
      else .ok (some (String.ofList name))

/-- Where the fields of a record stand. -/
structure UsnRecordOffsets where
  usn : Nat
  timestamp : Nat
  reason : Nat
  attributes : Nat
  nameLength : Nat
  nameOffset : Nat
  minimumLength : Nat

/-- The part of `decode_usn_record` that is the same for both versions. -/
def decodeFields (record : List UInt8) (fileReference parentReference : FileReference) (offsets : UsnRecordOffsets) :
    Except UsnParseError DecodedUsnRecord := do
  if record.length < offsets.minimumLength then throw .recordMalformed
  let nameLength ← readU16 record offsets.nameLength
  let nameOffset ← readU16 record offsets.nameOffset
  if nameLength % 2 ≠ 0 ∨ nameOffset % 2 ≠ 0 ∨ nameOffset < offsets.minimumLength then throw .recordMalformed
  let nameBytes ← readArray record nameOffset nameLength
  let name ← decodeName nameBytes
  let usn ← readI64 record offsets.usn
  if usn < 0 then throw .recordMalformed
  let timestamp100ns ← readI64 record offsets.timestamp
  let reason ← readU32 record offsets.reason
  let fileAttributes ← readU32 record offsets.attributes
  return {
    fileReference
    parentReference
    usn
    timestamp100ns
    reason := UInt32.ofNat reason
    fileAttributes := UInt32.ofNat fileAttributes
    name }

/-- `decode_usn_record` -/
def decodeUsnRecord (record : List UInt8) : Except UsnParseError DecodedUsnRecord := do
  let version ← readU16 record 4
  match version with
  | 2 =>
    let fileReference ← readReference record 8 8
    let parentReference ← readReference record 16 8
    decodeFields record fileReference parentReference ⟨24, 32, 40, 52, 56, 58, 60⟩
  | 3 =>
    let fileReference ← readReference record 8 16
    let parentReference ← readReference record 24 16
    decodeFields record fileReference parentReference ⟨40, 48, 56, 68, 72, 74, 76⟩
  | _ => throw .versionUnsupported

/-- The loop of `decode_journal_buffer`, over the bytes that remain. -/
def decodeRecords {Record : Type} (admitRecord : DecodedUsnRecord → Except UsnParseError Record) (remaining : List UInt8) :
    Except UsnParseError (List Record) :=
  if remaining = [] then .ok []
  else if remaining.length < 8 then .error .bufferMalformed
  else
    match readU32 remaining 0 with
    | .error e => .error e
    | .ok recordLength =>
      if _h : recordLength < 60 ∨ recordLength % 8 ≠ 0 ∨ remaining.length < recordLength then .error .recordMalformed
      else do
        let record ← decodeUsnRecord (remaining.take recordLength)
        let record ← admitRecord record
        let records ← decodeRecords admitRecord (remaining.drop recordLength)
        return record :: records
termination_by remaining.length
decreasing_by
  rw [List.length_drop]
  omega

/-- `decode_journal_buffer` -/
def decodeJournalBuffer {Record : Type} (admitRecord : DecodedUsnRecord → Except UsnParseError Record) (buffer : List UInt8) :
    Except UsnParseError (Int × List Record) := do
  if buffer.length < 8 then throw .bufferMalformed
  let nextUsn ← (readI64 buffer 0).mapError fun _ => .bufferMalformed
  let records ← decodeRecords admitRecord (buffer.drop 8)
  return (nextUsn, records)

/-- The record a named-path reconstruction works with: it has a name. -/
def admitNamed (record : DecodedUsnRecord) : Except UsnParseError ParsedUsnRecord :=
  match record.name with
  | none => .error .nameInvalid
  | some name =>
    .ok ⟨record.fileReference, record.parentReference, record.usn, record.timestamp100ns, record.reason,
      record.fileAttributes, name⟩

/-- `parse_journal_buffer` -/
def parseJournalBuffer : Except UsnParseError (Int × List ParsedUsnRecord) :=
  decodeJournalBuffer admitNamed buffer

end Ame
