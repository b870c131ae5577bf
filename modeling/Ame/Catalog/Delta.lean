import Ame.Incremental.Prepare

/-!
# Publishing a delta (`sqlite_catalog/catalog_delta.rs`, `location_mutation.rs`, `source_reconciliation.rs`)

A delta is validated as a whole, and its mutations are applied one after the other. A mutation deletes locations of the root
and writes at most one. The written location gets a source generation: the one it asks for, or a new one, in which case the
state of the file is written to every active location with the same identity.

Left out are the tables that follow the locations (previews, gallery, organization) and the copy that a running scan keeps.
-/

namespace Ame

/-! ## The source of a location -/

/-- `MAX_CAMERA_FIELD_BYTES` -/
def maxCameraFieldBytes : Nat := 128

/-- A field of the camera metadata is bounded, trimmed text without control characters. -/
def validCameraField (value : String) : Bool :=
  !value.isEmpty && decide (value.utf8ByteSize ≤ maxCameraFieldBytes) && !value.toList.head?.any isWhitespace &&
    !value.toList.getLast?.any isWhitespace &&
    !value.toList.any fun c => c.toNat < 0x20 || 0x7F ≤ c.toNat && c.toNat ≤ 0x9F

/-- `CameraMetadata::validate` -/
def CameraMetadata.validate (camera : CameraMetadata) : Except ScanError Unit :=
  if camera.make.all validCameraField && camera.model.all validCameraField then .ok ()
  else .error ⟨"camera_metadata_invalid", "Camera metadata must contain bounded, normalized text"⟩

/-- `source_revision_token`: only one scheme is stored. The token is the evidence as text. -/
def sourceRevisionToken (evidence : SourceRevisionEvidence) : Except ScanError SourceRevisionEvidence :=
  let isLowerHexDigit := fun c : Char => c.isDigit || 'a' ≤ c && c ≤ 'f'
  if evidence.scheme = "windows-file-change-time-100ns-v1" ∧ evidence.value.utf8ByteSize = 16 ∧
      evidence.value.toList.all isLowerHexDigit then .ok evidence
  else .error ⟨"catalog_source_revision_invalid", "Source revision evidence is not a canonical Windows ChangeTime token"⟩

/-- `StoredIdentityGroupState` -/
structure StoredIdentityGroupState where
  generation : Nat
  sourceRevision : Option SourceRevisionEvidence
  fileSize : Nat
  modifiedUnixMs : Int
  deriving DecidableEq, Repr

/-- `IdentityGenerationBatchState` -/
structure IdentityGenerationBatchState where
  baselineState : Option StoredIdentityGroupState
  assignedGeneration : Nat
  sourceRevision : Option SourceRevisionEvidence
  fileSize : Nat
  modifiedUnixMs : Int
  deriving DecidableEq, Repr

/-- The identities that a batch has met. -/
abbrev IdentityGenerations := List (FileIdentityEvidence × IdentityGenerationBatchState)

/-- The catalog while a batch is applied. -/
structure DeltaState where
  rows : CatalogRows
  generations : IdentityGenerations
  deriving DecidableEq

/-- `revisions_conflict` -/
def revisionsConflict (left right : Option SourceRevisionEvidence) : Bool :=
  left.isSome && right.isSome && left != right

/-- `source_observation_superseded` -/
def sourceObservationSuperseded : ScanError :=
  ⟨"catalog_source_observation_superseded", "A newer observation already owns this physical file identity"⟩

/-- `load_active_identity_group_state` -/
def loadActiveIdentityGroupState (rows : CatalogRows) (identity : FileIdentityEvidence) :
    Except ScanError (Option StoredIdentityGroupState) :=
  match rows.locations.filter (·.fileIdentity == some identity) with
  | [] => .ok none
  | first :: rest =>
    let revisions := (first :: rest).filterMap (·.sourceRevision)
    if rest.all (fun other => other.sourceGeneration == first.sourceGeneration && other.fileSize == first.fileSize &&
        other.modifiedUnixMs == first.modifiedUnixMs) && revisions.all (some · == revisions.head?) then
      .ok (some ⟨first.sourceGeneration, revisions.head?, first.fileSize, first.modifiedUnixMs⟩)
    else .error ⟨"catalog_source_identity_state_unverifiable",
      "The catalog contains conflicting source state for one physical file identity"⟩

/-- `allocate_source_generation` -/
def allocateSourceGeneration (rows : CatalogRows) : Except ScanError (CatalogRows × Nat) :=
  if rows.nextSourceGeneration = 0 ∨ rows.nextSourceGeneration ≥ i64Max then
    .error ⟨"catalog_source_generation_exhausted", "The catalog source-generation allocator is exhausted"⟩
  else .ok ({ rows with nextSourceGeneration := rows.nextSourceGeneration + 1 }, rows.nextSourceGeneration)

/-- A location with the same identity, after the propagation. -/
def observedThrough (location : AssetLocationView) (generation : Nat) (other : AssetLocationView) : AssetLocationView :=
  if other.fileIdentity = location.fileIdentity then
    { other with
      fileSize := location.fileSize
      createdUnixMs := location.createdUnixMs
      modifiedUnixMs := location.modifiedUnixMs
      width := location.width
      height := location.height
      metadataEngineId := location.metadataEngineId
      metadataEngineVersion := location.metadataEngineVersion
      captureTime := location.captureTime
      sourceRevision := location.sourceRevision
      sourceGeneration := generation
      previewPath := ""
      previewStatus := .pending
      previewIssueCode := none
      previewIssueMessage := none
      camera := location.camera }
  else other

/-- `propagate_observation` for the current locations -/
def propagateObservation (rows : CatalogRows) (location : AssetLocationView) (generation : Nat) : CatalogRows :=
  { rows with locations := rows.locations.map (observedThrough location generation) }

/-- The generation for an identity that the batch has met before. -/
def reuseGeneration (known : IdentityGenerationBatchState) (location : AssetLocationView) (requested : Option Nat) :
    Except ScanError IdentityGenerationBatchState :=
  if known.fileSize ≠ location.fileSize ∨ known.modifiedUnixMs ≠ location.modifiedUnixMs ∨
      revisionsConflict known.sourceRevision location.sourceRevision then
    .error sourceObservationSuperseded
  else if requested.any fun requested =>
      requested != (known.baselineState.map (·.generation)).getD requested && requested != known.assignedGeneration then
    .error sourceObservationSuperseded
  else .ok { known with sourceRevision := known.sourceRevision <|> location.sourceRevision }

/-- Whether a requested generation contradicts the stored state of the identity. -/
def generationConflicts (group : Option StoredIdentityGroupState) (location : AssetLocationView) (requested : Nat) : Bool :=
  group.any fun state => state.generation != requested || state.fileSize != location.fileSize ||
    state.modifiedUnixMs != location.modifiedUnixMs || revisionsConflict state.sourceRevision location.sourceRevision

/-- The requested generation, or a new one that is propagated. -/
def newGeneration (rows : CatalogRows) (group : Option StoredIdentityGroupState) (location : AssetLocationView) :
    Option Nat → Except ScanError (CatalogRows × Nat)
  | some requested =>
    if generationConflicts group location requested then .error sourceObservationSuperseded else .ok (rows, requested)
  | none => do
    let (rows, generation) ← allocateSourceGeneration rows
    return (propagateObservation rows location generation, generation)

/-- The generation for an identity that the batch meets for the first time. -/
def assignGeneration (state : DeltaState) (identity : FileIdentityEvidence) (location : AssetLocationView)
    (requested : Option Nat) : Except ScanError (DeltaState × Nat) := do
  let group ← loadActiveIdentityGroupState state.rows identity
  let (rows, generation) ← newGeneration state.rows group location requested
  let known := ⟨group, generation, location.sourceRevision, location.fileSize, location.modifiedUnixMs⟩
  return (⟨rows, (identity, known) :: state.generations⟩, generation)

/-- The generation that a location asks for; zero asks for a new one. -/
def requestedGeneration (location : AssetLocationView) : Except ScanError (Option Nat) :=
  if location.sourceGeneration = 0 then .ok none
  else (sqliteInteger location.sourceGeneration "source generation").map some

section

variable (state : DeltaState) (location : AssetLocationView)

/-- The generation of a location whose fields were checked. -/
def resolveGeneration (requested : Option Nat) : Except ScanError (DeltaState × Nat) :=
  match location.fileIdentity, requested with
  | some identity, _ =>
    match state.generations.lookup identity with
    | some known => do
      let known ← reuseGeneration known location requested
      return ({ state with generations := (identity, known) :: state.generations }, known.assignedGeneration)
    | none => assignGeneration state identity location requested
  | none, some requested => .ok (state, requested)
  | none, none => do
    let (rows, generation) ← allocateSourceGeneration state.rows
    return ({ state with rows := rows }, generation)

/-- `reconcile_location_source`, as the incremental publication calls it -/
def reconcileLocationSource : Except ScanError (DeltaState × Nat) := do
  location.camera.validate
  let _ ← sqliteInteger location.fileSize "file size"
  let _ ← location.sourceRevision.toList.mapM sourceRevisionToken
  let requested ← requestedGeneration location
  resolveGeneration state location requested

end

/-! ## Mutations -/

/-- The locations that a mutation deletes: those it names, and the one it writes anew. -/
def CatalogDeltaMutation.deletes (mutation : CatalogDeltaMutation) (rootId : String) (location : AssetLocationView) : Bool :=
  location.rootId == rootId && (mutation.removeLocationIds.contains location.locationId ||
    mutation.upsertLocation.any (·.locationId == location.locationId))

/-- `location_mutation::apply` -/
def applyMutation (rootId : String) (state : DeltaState) (mutation : CatalogDeltaMutation) : Except ScanError DeltaState := do
  let kept := state.rows.locations.filter fun location => !mutation.deletes rootId location
  let state := { state with rows := { state.rows with locations := kept } }
  match mutation.upsertLocation with
  | none => return state
  | some location =>
    let (state, generation) ← reconcileLocationSource state location
    let written := { location with rootId := rootId, sourceGeneration := generation }
    return { state with rows := { state.rows with locations := state.rows.locations ++ [written] } }

/-- The loop of `publish_catalog_delta` over the mutations of a batch -/
def applyMutations (rows : CatalogRows) (rootId : String) (mutations : List CatalogDeltaMutation) :
    Except ScanError CatalogRows :=
  (mutations.foldlM (applyMutation rootId) ⟨rows, []⟩).map (·.rows)

end Ame
