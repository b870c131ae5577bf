import Ame.Incremental.Reconcile
import Ame.Lib.Iter
import Ame.Lib.Utf16
import Mathlib

/-!
# What a change is prepared with (`application/incremental_library_changes.rs`, `sqlite_catalog/catalog_delta.rs`)

The file system below a root, the media inspector and the catalog are the environment of a preparation; they do not change
while a change is prepared. A path is observed by a visit, and the catalog is asked what it knows of the path and of the file
that is there.
-/

namespace Ame

open List Iter Utf16

/-! ## The environment -/

/-- `stable_id`: a hash of a namespace and a value, in hexadecimal digits. -/
structure StableIds where
  stableId : String → String → String
  injective : ∀ name, Function.Injective (stableId name)
  notBlank : ∀ name value, trimIsEmpty (stableId name value) = false
  noZero : ∀ name value, contains (stableId name value) '\x00' = false

/-- `stable_location_id` -/
def StableIds.stableLocationId (ids : StableIds) (rootId relativePath : String) : String :=
  ids.stableId "asset-location-v1" (rootId ++ "\x00" ++ relativePath)

/-- Two characters that name one, neither of them NUL. -/
def codeChar (c : Char) : List Char := [Char.ofNat (0x41 + c.toNat / 0x1000), Char.ofNat (0x41 + c.toNat % 0x1000)]

theorem codeChar_toNat (c : Char) : (codeChar c).map Char.toNat = [0x41 + c.toNat / 0x1000, 0x41 + c.toNat % 0x1000] := by
  have hv := toNat_valid c
  rw [codeChar, map_cons, map_singleton, toNat_ofNat (by omega), toNat_ofNat (by omega)]

theorem codeChar_injective : Function.Injective codeChar := by
  intro c d h
  have hn := congrArg (List.map Char.toNat) h
  rw [codeChar_toNat, codeChar_toNat] at hn
  obtain ⟨hh, hl⟩ : c.toNat / 0x1000 = d.toNat / 0x1000 ∧ c.toNat % 0x1000 = d.toNat % 0x1000 := by simpa using hn
  exact Char.toNat_inj.mp (by omega)

theorem flatMap_codeChar_injective : Function.Injective (List.flatMap codeChar) := by
  intro l l' h
  induction l generalizing l' with
  | nil => cases l' <;> simp_all [codeChar]
  | cons c l ih =>
    cases l' with
    | nil => simp [codeChar] at h
    | cons d l' =>
      obtain ⟨hh, ht⟩ := append_inj h rfl
      rw [codeChar_injective hh, ih ht]

/-- Identifiers that spell the value out: the assumptions on the hash can be met. -/
def StableIds.coded : StableIds where
  stableId _ value := String.ofList ('#' :: value.toList.flatMap codeChar)
  injective name value value' h := by
    have hlist := List.cons.inj (String.ofList_injective h)
    exact String.toList_inj.mp (flatMap_codeChar_injective hlist.2)
  notBlank name value := by
    rw [trimIsEmpty, String.toList_ofList, all_cons]
    rfl
  noZero name value := by
    rw [contains, String.toList_ofList, contains_eq_mem, decide_eq_false_iff_not, mem_cons, mem_flatMap]
    rintro (h | ⟨c, -, h⟩)
    · cases h
    · have hnat := mem_map_of_mem (f := Char.toNat) h
      rw [codeChar_toNat] at hnat
      simp at hnat
      omega

/-- The identifier is the stable one of the path under some root. -/
def StableIds.IdOf (ids : StableIds) (path locationId : String) : Prop :=
  ∃ rootId, contains rootId '\x00' = false ∧ locationId = ids.stableLocationId rootId path

/-- The file that a visit found. -/
def FileVisitOutcome.found : FileVisitOutcome → Option DiscoveredFile
  | .file found | .terminalMedia found _ _ => some found
  | _ => none

/-- The state of a file: what the catalog has to say of it. -/
structure FileState where
  fileSize : Nat
  modifiedUnixMs : Int
  fileIdentity : Option FileIdentityEvidence
  sourceRevision : Option SourceRevisionEvidence
  deriving DecidableEq, Repr

/-- The state of a file that was found. -/
def DiscoveredFile.state (file : DiscoveredFile) : FileState :=
  ⟨file.fileSize, file.modifiedUnixMs, file.fileIdentity, file.sourceRevision⟩

/-- The state that a location records. -/
def AssetLocationView.state (location : AssetLocationView) : FileState :=
  ⟨location.fileSize, location.modifiedUnixMs, location.fileIdentity, location.sourceRevision⟩

/-- The file system below a root (`PublicationFileSource`) and the inspector. A file is found under the path that was asked
for, and an identity names one file, whatever paths lead to it. -/
structure PublicationSource where
  visit : String → FileVisitOutcome
  inventoryEntry : String → Option MetadataInventoryEntry
  inspect : DiscoveredFile → Except MediaInspectionFailure MediaInspection
  inspectionEngineId : String
  inspectionEngineVersion : Nat
  metadataEngineId : String
  metadataEngineVersion : String
  found_path : ∀ path file, (visit path).found = some file → file.relativePath = path
  same_identity : ∀ path path' file file', (visit path).found = some file → (visit path').found = some file' →
    file.fileIdentity.isSome → file.fileIdentity = file'.fileIdentity → file.state = file'.state

/-- The active locations of all roots, and the next source generation. -/
structure CatalogRows where
  locations : List AssetLocationView
  nextSourceGeneration : Nat
  deriving DecidableEq

/-- A catalog in order. The key of a location is its root and its identifier; a root has one location at a path, and its
identifier is the stable one of that path under some root. -/
structure Catalog (ids : StableIds) extends CatalogRows where
  distinctIds : (locations.map fun location => (location.rootId, location.locationId)).Nodup
  distinctPaths : (locations.map fun location => (location.rootId, location.relativePath)).Nodup
  stable : ∀ location ∈ locations, ids.IdOf location.relativePath location.locationId

/-- What a change is prepared with. A handoff is the last location of a file that left a root, kept for the changes of one
catch-up source. -/
structure PreparationEnv where
  ids : StableIds
  source : PublicationSource
  catalog : Catalog ids
  handoff : LibraryChangeCatchUpEvidence → FileIdentityEvidence → Option AssetLocationView
  handoff_identity : ∀ evidence identity location,
    handoff evidence identity = some location → location.fileIdentity = some identity
  recheck : String → String → Option MediaAdmissionRecheck
  isWindows : Bool

/-- `load_incremental_location`: the first match by its identifier. -/
def loadIncrementalLocation {ids : StableIds} (catalog : Catalog ids) (predicate : AssetLocationView → Bool) :
    Option AssetLocationView :=
  minByKey (·.locationId) (catalog.locations.filter predicate)

/-- `load_incremental_location_by_relative_path` -/
def loadLocationByRelativePath {ids : StableIds} (catalog : Catalog ids) (rootId relativePath : String) :
    Except ScanError (Option AssetLocationView) :=
  if trimIsEmpty rootId || contains rootId '\x00' then
    .error ⟨"catalog_root_id_invalid", "The incremental catalog root ID must be non-empty and contain no NUL bytes"⟩
  else if relativePath.isEmpty || contains relativePath '\x00' then
    .error ⟨"catalog_relative_path_invalid", "An incremental catalog path must be non-empty and contain no NUL bytes"⟩
  else .ok (loadIncrementalLocation catalog fun location =>
    location.rootId == rootId && location.relativePath == relativePath)

/-- `load_incremental_location_by_file_identity`: an active location of any root, or a handoff. -/
def loadLocationByFileIdentity (env : PreparationEnv) (identity : FileIdentityEvidence)
    (lineage : List LibraryChangeCatchUpEvidence) : Except ScanError (Option AssetLocationView) :=
  if identity.scheme.isEmpty || identity.value.isEmpty || contains identity.scheme '\x00' || contains identity.value '\x00' then
    .error ⟨"catalog_file_identity_invalid", "Incremental file identity evidence must be non-empty and contain no NUL bytes"⟩
  else
    match loadIncrementalLocation env.catalog fun location => location.fileIdentity == some identity with
    | some active => .ok (some active)
    | none => .ok (lineage.findSome? fun evidence => env.handoff evidence identity)

/-! ## Observing a path -/

/-- `InspectedPath` -/
inductive InspectedPath where
  | file (file : DiscoveredFile)
  | terminalMedia (file : DiscoveredFile) (issue : LibraryChangeFailure) (reportIssue : Bool)
  | catalogAbsent
  | preservedIssue (issue : LibraryChangeFailure)
  | retry (issue : LibraryChangeFailure)
  deriving DecidableEq, Repr

/-- `inspect_path` -/
def inspectPath (source : PublicationSource) (relativePath : String) : InspectedPath :=
  match source.visit relativePath with
  | .file file => .file file
  | .terminalMedia file issue reportIssue => .terminalMedia file (issueFailure issue) reportIssue
  | .directory | .ignored => .catalogAbsent
  | .issue issue =>
    if issue.code = "file_missing" then .catalogAbsent
    else if issue.code = "cloud_placeholder_skipped" then .preservedIssue (issueFailure issue)
    else .retry (issueFailure issue)
  | .retryableFile _ issue => .retry (issueFailure issue)

/-- `RevalidationTarget` -/
inductive RevalidationTarget where
  | present (relativePath : String) (expected : ExpectedFileState)
  | catalogAbsent (relativePath : String)
  deriving DecidableEq, Repr

/-- `PreparedChange` -/
structure PreparedChange where
  completion : LibraryChangeCompletion
  mutations : List CatalogDeltaMutation
  terminalMediaEvidence : List TerminalMediaEvidenceUpdate
  revalidation : List RevalidationTarget
  deriving DecidableEq, Repr

/-- `expected_state` -/
def expectedState (file : DiscoveredFile) : ExpectedFileState :=
  ⟨file.absolutePath, file.fileSize, file.modifiedUnixMs, file.fileIdentity, file.sourceRevision⟩

/-- `push_unique` -/
def pushUnique (values : List String) (value : String) : List String :=
  if values.contains value then values else values ++ [value]

/-- `select_prior` -/
def selectPrior (pathPrior identityPrior candidatePrior : Option AssetLocationView) (file : DiscoveredFile) :
    Option AssetLocationView :=
  let identityMatches := fun prior : AssetLocationView => file.fileIdentity.isSome && prior.fileIdentity == file.fileIdentity
  pathPrior.filter identityMatches <|> identityPrior.filter identityMatches <|> candidatePrior.filter identityMatches <|>
    pathPrior <|> candidatePrior

/-- `leased_catch_up_lineage` -/
def leasedCatchUpLineage (leased : LeasedLibraryChange) : Except LibraryChangeFailure (List LibraryChangeCatchUpEvidence) :=
  match leased.catchUpSource, leased.catchUpWatermark with
  | some source, some watermark =>
    if leased.catchUpLineage.any fun evidence => evidence.source == source && evidence.watermark == watermark then
      .ok leased.catchUpLineage
    else .error ⟨"incremental_catch_up_evidence_incomplete", "A leased change contains incomplete catch-up handoff lineage"⟩
  | none, none =>
    if leased.catchUpLineage.isEmpty then .ok []
    else .error ⟨"incremental_catch_up_evidence_incomplete", "A leased change contains incomplete catch-up handoff lineage"⟩
  | _, _ => .error ⟨"incremental_catch_up_evidence_incomplete", "A leased change contains incomplete catch-up handoff lineage"⟩

end Ame
