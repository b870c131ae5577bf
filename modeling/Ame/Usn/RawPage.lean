import Ame.Usn.Parsing

/-!
# One page of raw journal records (`journal_broker/windows/usn.rs`)

A page is read with one call to the journal. What is too much for the page is left to the next one, which then has to begin at the
first record that was left.
-/

namespace Ame

/-- `MAX_RAW_RECORDS_PER_PAGE` -/
def maxRawRecordsPerPage : Nat := 16 * 1024

/-- `MAX_SINGLE_RAW_RECORD_EVIDENCE_BYTES`; `recordSize` is the size of a parsed record in memory. -/
def maxSingleRawRecordEvidenceBytes (recordSize : Nat) : Nat := recordSize + maxPathUtf16Units * 2

/-- `map_parse_error` -/
def mapParseError (_ : UsnParseError) : BackendError := .recordUnsupported

/-- The loop of `retain_bounded_raw_records`: what is retained in the end, and the coordinate of the first record that is not. -/
def retainRecords (recordSize maxRecords maxEvidenceBytes : Nat) (retained : List ParsedUsnRecord) (retainedBytes : Nat) :
    List ParsedUsnRecord → List ParsedUsnRecord × Option Int
  | [] => (retained, none)
  | record :: rest =>
    let nextBytes := retainedBytes + (recordSize + (Utf16.encode record.name.toList).length * 2)
    if maxRecords ≤ retained.length ∨ maxEvidenceBytes < nextBytes then (retained, some record.usn)
    else retainRecords recordSize maxRecords maxEvidenceBytes (retained ++ [record]) nextBytes rest

/-- `retain_bounded_raw_records` -/
def retainBoundedRawRecords (recordSize : Nat) (retained : List ParsedUsnRecord) (retainedBytes : Nat)
    (records : List ParsedUsnRecord) (endUsn : Int) (maxRecords maxEvidenceBytes : Nat) : List ParsedUsnRecord × Option Int :=
  retainRecords recordSize maxRecords maxEvidenceBytes retained retainedBytes (records.filter fun record => record.usn < endUsn)

/-- `read_single_native_journal_buffer_with` -/
def readSingleNativeJournalBufferWith (recordSize : Nat) (startUsn endUsn : Int) (maxRecords maxEvidenceBytes : Nat)
    (physicalRead : Int → Except BackendError (List UInt8)) : Except BackendError (List ParsedUsnRecord × Int) := do
  let some interval := JournalReadInterval.new startUsn endUsn | throw .journalDiscontinuous
  let output ← physicalRead startUsn
  let (nextUsn, batch) ← (parseJournalBuffer output).mapError mapParseError
  let (rawRecords, firstUnretainedUsn) := retainBoundedRawRecords recordSize [] 0 batch endUsn
    (min maxRecords maxRawRecordsPerPage) (max maxEvidenceBytes (maxSingleRawRecordEvidenceBytes recordSize))
  let coveredUntilUsn := min (firstUnretainedUsn.getD nextUsn) endUsn
  if interval.admitsCoverage coveredUntilUsn (coveredUntilUsn = endUsn) = false ∨
      (interval.startUsn = interval.endUsn ∧ rawRecords ≠ []) then
    throw .journalDiscontinuous
  return (rawRecords, coveredUntilUsn)

/-- One page of a sequence of reads: its limits, and what the journal answers. -/
structure RawPageRead where
  maxRecords : Nat
  maxEvidenceBytes : Nat
  physicalRead : Int → Except BackendError (List UInt8)

/-- Pages read one after the other, each from where the one before it ended: the records of each page and its coverage. -/
def readRawPages (recordSize : Nat) (endUsn : Int) (startUsn : Int) :
    List RawPageRead → Except BackendError (List (List ParsedUsnRecord × Int))
  | [] => .ok []
  | read :: reads => do
    let page ← readSingleNativeJournalBufferWith recordSize startUsn endUsn read.maxRecords read.maxEvidenceBytes
      read.physicalRead
    let pages ← readRawPages recordSize endUsn page.2 reads
    return page :: pages

end Ame
