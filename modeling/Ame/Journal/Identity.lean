import Ame.Journal.Contract
import Ame.Lib.Binary
import Ame.Queue.Coverage
import Mathlib

/-!
# From changed files to a batch (`identity_reader/translation.rs`, `translation/directory_change.rs`)

The identity reader is told which files changed, not under which names. It asks the catalog where a file was and the volume where it
is, and makes intents for the paths it had and has. Sets and maps are lists in ascending order here.
-/

namespace Ame.IdentityReader

/-- `IdentityJournalRecord` -/
structure IdentityJournalRecord where
  fileReference : JournalFileReference
  parentReference : JournalFileReference
  usn : Int
  isDirectory : Bool
  isDeleted : Bool
  deriving DecidableEq, Repr

/-- `IdentityJournalPage` -/
structure IdentityJournalPage where
  coveredUntilUsn : Int
  records : List IdentityJournalRecord
  deriving DecidableEq, Repr

/-- `IdentityJournalLocation` -/
structure IdentityJournalLocation where
  identity : FileIdentityEvidence
  relativePath : String
  isDirectory : Bool
  deriving DecidableEq, Repr

/-- `IdentityJournalResolution` -/
structure IdentityJournalResolution where
  locations : List IdentityJournalLocation
  accessDenied : List FileIdentityEvidence
  unresolved : List FileIdentityEvidence
  deriving DecidableEq, Repr

/-- `JournalFileReference::as_bytes` -/
def asBytes : JournalFileReference → List UInt8
  | .v2 bytes => bytes.toList
  | .v3 bytes => bytes.toList

/-- `identity_for_reference`: the reference as a number of 32 hexadecimal digits, behind the serial of the volume. -/
def identityForReference (volumeSerial : Nat) (reference : JournalFileReference) : FileIdentityEvidence :=
  let digits := Nat.toDigits 16 (Binary.ofLeBytes (asBytes reference))
  ⟨"windows-file-id-128-v1", String.ofList (serialHexPrefix volumeSerial ++ List.replicate (32 - digits.length) '0' ++ digits)⟩

/-- `invalid` -/
def invalid : ScanError :=
  ⟨"identity_journal_translation_invalid", "Identity journal reconstruction exceeded its verified ownership or resource bounds"⟩

/-! ## Intents by key -/

/-- `IntentKey` -/
structure IntentKey where
  directory : Bool
  path : String
  previous : Option String
  deriving DecidableEq, Repr

/-- The derived order of the keys. -/
def IntentKey.compareTo (left right : IntentKey) : Ordering :=
  (compare left.directory.toNat right.directory.toNat).then <|
    (compare left.path right.path).then <| compare left.previous right.previous

/-- The scope of the intent with a key. -/
def IntentKey.scope (key : IntentKey) : LibraryChangeScope :=
  if key.path.isEmpty then .root else if key.directory then .subtree else .path

section

variable (checkpoint : PersistentJournalCheckpoint) (observed usn : Int)

/-- The intent that is inserted for a key. -/
def intentOf (key : IntentKey) : LibraryChangeIntent where
  rootId := checkpoint.rootId
  rootGeneration := checkpoint.rootGeneration
  kind := if key.previous.isSome then .renameCandidate else .reconcile
  scope := key.scope
  relativePath := key.path
  previousRelativePath := key.previous
  origin := .startupCatchUp
  firstObservedUnixMs := observed
  mostRecentObservedUnixMs := observed
  firstSequence := usn.toNat
  mostRecentSequence := usn.toNat
  coalescedObservationCount := 1

/-- The intent after another record with its key. -/
def seenAgain (intent : LibraryChangeIntent) : LibraryChangeIntent :=
  { intent with
    mostRecentSequence := usn.toNat
    coalescedObservationCount := min (intent.coalescedObservationCount + 1) u32Max }

/-- `add_intent` -/
def addIntent (intents : List (IntentKey × LibraryChangeIntent)) (key : IntentKey) :
    Except ScanError (List (IntentKey × LibraryChangeIntent)) :=
  if usn < 0 then .error invalid
  else if key ∈ intents.map (·.1) then
    .ok (intents.map fun entry => (entry.1, if entry.1 = key then seenAgain usn entry.2 else entry.2))
  else .ok (intents.orderedInsert (fun a b => a.1.compareTo b.1 ≠ .gt) (key, intentOf checkpoint observed usn key))

end

/-! ## The paths of a record -/

/-- A `BTreeSet` of paths. -/
def pathSet (paths : List String) : List String := paths.dedup.insertionSort (· ≤ ·)

/-- `paths`, of the file with a reference. -/
def paths (checkpoint : PersistentJournalCheckpoint) (locations : List IdentityJournalLocation)
    (reference : JournalFileReference) (isDirectory : Bool) : List String :=
  pathSet ((locations.filter fun location =>
    location.identity.value == (identityForReference checkpoint.volume.volumeSerial reference).value &&
      location.isDirectory == isDirectory).map (·.relativePath))

/-- The old and the new path of a file that lost one path and gained one. -/
def pairedFile (old live : List String) : Option (String × String) :=
  match old.filter (· ∉ live), live.filter (· ∉ old) with
  | [previous], [path] => some (previous, path)
  | _, _ => none

/-- The keys of the intents for a file. -/
def fileKeys (old live : List String) : List IntentKey :=
  ((pairedFile old live).map fun pair => ⟨false, pair.2, some pair.1⟩).toList ++ ((pathSet (old ++ live)).filter fun path =>
      !(pairedFile old live).any fun pair => path == pair.1 || path == pair.2).map fun path => ⟨false, path, none⟩

/-- The old and the new path of a directory that had one path and has another. -/
def pairedDirectory (old live : List String) : Option (String × String) :=
  match old, live with
  | [previous], [path] => if previous ≠ path ∧ previous ≠ "" ∧ path ≠ "" then some (previous, path) else none
  | _, _ => none

/-- The keys of the intents for a directory. -/
def directoryKeys (old live : List String) : List IntentKey :=
  match pairedDirectory old live with
  | some (previous, path) => [⟨true, path, some previous⟩]
  | none => ((pathSet (old ++ live)).filter (· ≠ "")).map fun path => ⟨true, path, none⟩

/-- The end of `directory_change::translate`: what is recorded of the directory itself. -/
def directoryChange (record : IdentityJournalRecord) (identity : FileIdentityEvidence) (old live : List String)
    (current : IdentityJournalResolution) : Except ScanError (Option PersistentJournalDirectoryChange) :=
  if identity ∈ current.accessDenied ++ current.unresolved ∧ record.isDeleted = false then .ok none
  else if 1 < live.length then .error invalid
  else if old.filter (· ≠ "") = [] ∧ live.find? (· ≠ "") = none then .ok none
  else .ok (some ⟨identity, old.filter (· ≠ ""), live.find? (· ≠ "")⟩)

/-- The change of a directory replaces an earlier one. -/
def insertDirectoryChange (changes : List PersistentJournalDirectoryChange) (change : PersistentJournalDirectoryChange) :
    List PersistentJournalDirectoryChange :=
  (changes.filter (·.identity.value ≠ change.identity.value)).orderedInsert (fun a b => a.identity.value ≤ b.identity.value)
    change

/-! ## The translation -/

/-- What the loop over the records has collected. -/
structure Translation where
  intents : List (IntentKey × LibraryChangeIntent)
  directoryChanges : List PersistentJournalDirectoryChange

section

variable (checkpoint : PersistentJournalCheckpoint) (observed : Int) (previous : List IdentityJournalLocation)
  (current : IdentityJournalResolution)

/-- Nothing was known of the file of a record, and it cannot be looked at. -/
def deniedUnknown (record : IdentityJournalRecord) : Bool :=
  current.accessDenied.contains (identityForReference checkpoint.volume.volumeSerial record.fileReference) &&
    (paths checkpoint previous record.fileReference record.isDirectory).isEmpty

/-- The keys of the intents for a record. -/
def recordKeys (record : IdentityJournalRecord) : List IntentKey :=
  if deniedUnknown checkpoint previous current record then
    (pathSet (paths checkpoint previous record.parentReference true ++
      paths checkpoint current.locations record.parentReference true)).map fun path => ⟨true, path, none⟩
  else
    (if record.isDirectory then directoryKeys else fileKeys) (paths checkpoint previous record.fileReference record.isDirectory)
      (paths checkpoint current.locations record.fileReference record.isDirectory)

/-- One round of the loop over the records. -/
def translateRecord (st : Translation) (record : IdentityJournalRecord) : Except ScanError Translation := do
  let intents ← (recordKeys checkpoint previous current record).foldlM (addIntent checkpoint observed record.usn) st.intents
  if deniedUnknown checkpoint previous current record ∨ record.isDirectory = false then return { st with intents }
  let change ← directoryChange record (identityForReference checkpoint.volume.volumeSerial record.fileReference)
    (paths checkpoint previous record.fileReference true) (paths checkpoint current.locations record.fileReference true) current
  return ⟨intents, change.elim st.directoryChanges (insertDirectoryChange st.directoryChanges)⟩

/-- `translate` -/
def translate (digests : JournalDigests) (page : IdentityJournalPage) (requestedEnd : Int) :
    Except ScanError (PersistentJournalEnrollmentBatch × PersistentJournalCheckpoint) := do
  let st ← (page.records.filter fun record => checkpoint.nextUnreadUsn.value ≤ record.usn).foldlM
    (translateRecord checkpoint observed previous current) ⟨[], []⟩
  if maxPersistentJournalBatchIntents < st.intents.length then throw invalid
  let requestedEndUsn ← JournalUsn.new requestedEnd
  let coveredUntilUsn ← JournalUsn.new page.coveredUntilUsn
  let range : PersistentJournalSourceRange :=
    { batchId := "pending-content-id", rootId := checkpoint.rootId, rootGeneration := checkpoint.rootGeneration
      volume := checkpoint.volume, journalId := checkpoint.journalId, requestedStartUsn := checkpoint.nextUnreadUsn
      requestedEndUsn, coveredUntilUsn, isComplete := page.coveredUntilUsn == requestedEnd
      protocolVersion := checkpoint.protocolVersion, contractVersion := checkpoint.contractVersion, state := .enrolled
      enrolledUnixMs := observed, checkpointedUnixMs := none }
  let batch : PersistentJournalEnrollmentBatch := ⟨range, st.intents.map (·.2), [], [], [], [], st.directoryChanges⟩
  let batch := { batch with range := { range with batchId := digests.batchId batch } }
  batch.validate digests
  let next := { checkpoint with
    nextUnreadUsn := coveredUntilUsn, capturedExclusiveEnd := requestedEndUsn, continuity := .catchingUp, failure := none
    updatedUnixMs := observed }
  next.validate
  return (batch, next)

end

end Ame.IdentityReader
