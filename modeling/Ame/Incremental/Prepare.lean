import Ame.Incremental.Environment

/-!
# Preparing a leased change (`application/incremental_library_changes.rs`, `rename_change.rs`, `terminal_media.rs`,
`location_evidence.rs`, `media_admission_recheck.rs`)

For a leased change of a path the file system is looked at, the catalog is asked what it knows of the path and of the file that
is there, and the delta is built that makes the catalog agree.
-/

namespace Ame

/-! ## Building the delta -/

/-- `incremental_asset_id` -/
def incrementalAssetId (ids : StableIds) (leased : LeasedLibraryChange) (file : DiscoveredFile) : String :=
  let identity := (file.fileIdentity.map fun identity => identity.scheme ++ "\x00" ++ identity.value).getD ""
  ids.stableId "incremental-asset-v1"
    (leased.intent.rootId ++ "\x00" ++ toString leased.id ++ "\x00" ++ file.relativePath ++ "\x00" ++ identity)

/-- `retained_preview_expectation` -/
def retainedPreviewExpectation (location : AssetLocationView) : RetainedPreviewExpectation :=
  ⟨location.locationId, location.previewPath, location.previewStatus, location.previewIssueCode, location.previewIssueMessage⟩

/-- `inspection_metadata_is_compatible` -/
def inspectionMetadataIsCompatible (prior : AssetLocationView) (source : PublicationSource) : Bool :=
  prior.metadataEngineId == source.metadataEngineId && prior.metadataEngineVersion == source.metadataEngineVersion

/-- The completion of a change. -/
def completionOf (leased : LeasedLibraryChange) (issue : Option LibraryChangeFailure) : LibraryChangeCompletion :=
  ⟨leased.id, leased.leaseGeneration, issue⟩

section

variable (env : PreparationEnv) (leased : LeasedLibraryChange) (file : DiscoveredFile) (prior : Option AssetLocationView)
  (issue : LibraryChangeFailure)

/-- The location of a file whose media cannot be read. -/
def terminalLocation : AssetLocationView where
  assetId :=
    match prior with
    | some prior =>
      if file.fileIdentity.isSome && prior.fileIdentity == file.fileIdentity then prior.assetId
      else incrementalAssetId env.ids leased file
    | none => incrementalAssetId env.ids leased file
  locationId := env.ids.stableLocationId leased.intent.rootId file.relativePath
  rootId := leased.intent.rootId
  absolutePath := file.absolutePath
  relativePath := file.relativePath
  previewPath := ""
  fileSize := file.fileSize
  createdUnixMs := file.createdUnixMs
  modifiedUnixMs := file.modifiedUnixMs
  fileIdentity := file.fileIdentity
  sourceRevision := file.sourceRevision
  sourceGeneration := 0
  width := 0
  height := 0
  previewStatus := .failed
  previewIssueCode := some issue.code
  previewIssueMessage := some issue.message
  metadataEngineId := env.source.inspectionEngineId
  metadataEngineVersion := toString env.source.inspectionEngineVersion
  camera := {}
  captureTime := none

/-- `terminal_media_change`: a failed inspection brings no new image in, but a known one stays. -/
def terminalMediaChange (reportIssue : Bool) (removals : List String) : PreparedChange where
  completion := completionOf leased (if reportIssue then some issue else none)
  mutations :=
    if prior.isNone && removals.isEmpty then []
    else
      let location := terminalLocation env leased file prior issue
      [⟨leased.id, .terminalIssue, .invalidateDerived, removals, some location, none⟩]
  terminalMediaEvidence := [⟨leased.id, ⟨file.relativePath, file.fileSize, file.modifiedUnixMs, file.fileIdentity,
    file.sourceRevision, 0, env.source.inspectionEngineId, env.source.inspectionEngineVersion, issue⟩⟩]
  revalidation := [.present file.relativePath (expectedState file)]

end

/-- `BuiltLocation` -/
structure BuiltLocation where
  location : AssetLocationView
  issue : Option LibraryChangeFailure
  deriving DecidableEq, Repr

/-- `BuildLocationFailure` -/
inductive BuildLocationFailure where
  | retry (issue : LibraryChangeFailure)
  | terminal (issue : LibraryChangeFailure)
  deriving DecidableEq, Repr

/-- What a location says of the media: kept from the prior location, or read anew. -/
structure MediaFacts where
  width : Nat
  height : Nat
  metadataEngineId : String
  metadataEngineVersion : String
  camera : CameraMetadata
  captureTime : Option CaptureTimeEvidence
  issue : Option LibraryChangeFailure

/-- The first part of `build_location`. -/
def mediaFacts (source : PublicationSource) (file : DiscoveredFile) (retained : Option AssetLocationView) :
    Except BuildLocationFailure MediaFacts :=
  match retained with
  | some prior => .ok ⟨prior.width, prior.height, prior.metadataEngineId, prior.metadataEngineVersion, prior.camera,
      prior.captureTime, file.issues.head?.map issueFailure⟩
  | none =>
    match source.inspect file with
    | .ok inspection => .ok ⟨inspection.width, inspection.height, inspection.engineId, inspection.engineVersion,
        inspection.camera, inspection.captureTime,
        file.issues.head?.map issueFailure <|> inspection.issues.head?.map issueFailure⟩
    | .error failure =>
      match failure.kind with
      | .retryable => .error (.retry (issueFailure failure.issue))
      | .terminal => .error (.terminal (issueFailure failure.issue))

section

variable (env : PreparationEnv) (leased : LeasedLibraryChange) (file : DiscoveredFile)

/-- The asset of the new location: the prior one, if the outcome preserves it. -/
def builtAssetId
    (outcome : IncrementalReconciliationOutcome) (prior : Option AssetLocationView) : Except BuildLocationFailure String :=
  match outcome with
  | .unchanged | .modified | .renamedOrMoved =>
    match prior with
    | some prior => .ok prior.assetId
    | none => .error (.retry ⟨"incremental_prior_asset_missing", "Identity-preserving reconciliation requires a prior asset"⟩)
  | .added | .replaced => .ok (incrementalAssetId env.ids leased file)
  | _ => .error (.retry ⟨"incremental_upsert_outcome_invalid", "The reconciliation outcome cannot create a catalog location"⟩)

/-- `build_location` -/
def buildLocation (decision : IncrementalReconciliationDecision) (prior : Option AssetLocationView) :
    Except BuildLocationFailure BuiltLocation := do
  let retained := prior.filter fun prior =>
    decision.evidenceDisposition == .retainCompatible && inspectionMetadataIsCompatible prior env.source
  let facts ← mediaFacts env.source file retained
  let assetId ← builtAssetId env leased file decision.outcome prior
  return {
    location := {
      assetId := assetId
      locationId := env.ids.stableLocationId leased.intent.rootId file.relativePath
      rootId := leased.intent.rootId
      absolutePath := file.absolutePath
      relativePath := file.relativePath
      previewPath := (retained.map (·.previewPath)).getD ""
      fileSize := file.fileSize
      createdUnixMs := file.createdUnixMs
      modifiedUnixMs := file.modifiedUnixMs
      fileIdentity := file.fileIdentity
      sourceRevision := file.sourceRevision
      sourceGeneration := (decision.current.map (·.sourceGeneration)).getD 0
      width := facts.width
      height := facts.height
      previewStatus := (retained.map (·.previewStatus)).getD .pending
      previewIssueCode := retained.bind (·.previewIssueCode)
      previewIssueMessage := retained.bind (·.previewIssueMessage)
      metadataEngineId := facts.metadataEngineId
      metadataEngineVersion := facts.metadataEngineVersion
      camera := facts.camera
      captureTime := facts.captureTime }
    issue := facts.issue }

end

/-! ## The change of one path -/

/-- `PathChangeContext` -/
structure PathChangeContext where
  relativePath : String
  observed : Option InspectedPath
  candidatePrior : Option AssetLocationView
  mayRemoveCandidatePrior : Bool
  removals : List String

/-- `inventory_matches_location` -/
def inventoryMatchesLocation (entry : MetadataInventoryEntry) (prior : AssetLocationView) : Bool :=
  if entry.fileSize ≠ some prior.fileSize ∨ entry.modifiedUnixMs ≠ prior.modifiedUnixMs then false
  else if entry.placeholderState ≠ .available then entry.fileIdentity.isNone
  else if entry.sourceRevision = none ∨ entry.sourceRevision ≠ prior.sourceRevision then false
  else entry.fileIdentity == prior.fileIdentity

/-- `metadata_inventory_dirty_path_change` -/
def metadataInventoryDirtyPathChange (leased : LeasedLibraryChange) (prior : AssetLocationView)
    (entry : MetadataInventoryEntry) (removals : List String) : Option PreparedChange :=
  if entry.kind ≠ .file ∨ entry.placeholderState ≠ .available ∨ inventoryMatchesLocation entry prior = false then none
  else
    entry.fileSize.map fun fileSize =>
      let current := { prior with
        fileSize := fileSize
        modifiedUnixMs := entry.modifiedUnixMs
        fileIdentity := entry.fileIdentity
        sourceRevision := entry.sourceRevision
        sourceGeneration := 0
        metadataEngineId := invalidatedMediaMetadataEngineId
        metadataEngineVersion := invalidatedMediaMetadataEngineVersion
        camera := {}
        captureTime := none
        previewPath := ""
        previewStatus := .pending
        previewIssueCode := none
        previewIssueMessage := none }
      { completion := completionOf leased none
        mutations := [⟨leased.id, .modified, .invalidateDerived, pushUnique removals prior.locationId, some current, none⟩]
        terminalMediaEvidence := []
        revalidation := [.present entry.relativePath
          ⟨prior.absolutePath, fileSize, entry.modifiedUnixMs, entry.fileIdentity, entry.sourceRevision⟩] }

/-- The first branch of `prepare_path_change`: a dirty path of the metadata inventory whose file did not change. -/
def inventoryShortcut (env : PreparationEnv) (leased : LeasedLibraryChange) (pathPrior : Option AssetLocationView)
    (context : PathChangeContext) : Option PreparedChange :=
  let intent := leased.intent
  if context.observed.isNone && intent.origin == .metadataInventory && intent.kind == .reconcile && intent.scope == .path &&
      intent.previousRelativePath.isNone then do
    let prior ← pathPrior.filter (inspectionMetadataIsCompatible · env.source)
    let entry ← env.source.inventoryEntry context.relativePath
    metadataInventoryDirtyPathChange leased prior entry context.removals
  else none

/-- The location that is known under the identity of a file. -/
def loadIdentityPrior (env : PreparationEnv) (file : DiscoveredFile) (lineage : List LibraryChangeCatchUpEvidence) :
    Except LibraryChangeFailure (Option AssetLocationView) :=
  match file.fileIdentity with
  | none => .ok none
  | some identity => (loadLocationByFileIdentity env identity lineage).mapError scanFailure

/-- The removals of a change that writes a location: the prior one of the path, and the candidate if it is gone. -/
def priorRemovals (context : PathChangeContext) (pathPrior : Option AssetLocationView) : List String :=
  let removals := (pathPrior.map (·.locationId)).elim context.removals (pushUnique context.removals)
  let candidate := if context.mayRemoveCandidatePrior then context.candidatePrior else none
  (candidate.map (·.locationId)).elim removals (pushUnique removals)

/-- What is decided for a file that is there. -/
def presentDecision (env : PreparationEnv) (intent : LibraryChangeIntent) (file : DiscoveredFile)
    (selected : Option AssetLocationView) : IncrementalReconciliationDecision :=
  applyEvidencePolicy (reconcilePresentPath (selected.map locationEvidence) (fileEvidence file)) selected intent
    (selected.all (inspectionMetadataIsCompatible · env.source))

/-- A decision, and what it was made from. -/
structure DecidedPath where
  decision : IncrementalReconciliationDecision
  currentFile : Option DiscoveredFile
  selectedPrior : Option AssetLocationView
  revalidation : List RevalidationTarget

/-- `identity_backfill` in `prepare_path_change`: the location has no identity yet, and the file has one. -/
def identityBackfill (file : Option DiscoveredFile) (prior : Option AssetLocationView) : Bool :=
  file.any fun file => file.fileIdentity.isSome &&
    prior.any fun prior => prior.fileIdentity.isNone && prior.relativePath == file.relativePath

/-- A prepared change with at most one mutation. -/
def reconciledChange (leased : LeasedLibraryChange) (issue : Option LibraryChangeFailure)
    (mutation : Option CatalogDeltaMutation) (revalidation : List RevalidationTarget) : PreparedChange :=
  ⟨completionOf leased issue, mutation.toList, [], revalidation⟩

section

variable (env : PreparationEnv) (leased : LeasedLibraryChange)

/-- The branch of `prepare_path_change` for an unchanged path. -/
def concludeUnchanged (decided : DecidedPath) (removals : List String) : Except LibraryChangeFailure PreparedChange :=
  if identityBackfill decided.currentFile decided.selectedPrior ||
      decided.selectedPrior.any (requiresMetadataRecheck · leased.intent) then
    match decided.currentFile, decided.selectedPrior with
    | none, _ => .error ⟨"incremental_current_file_missing", "Identity backfill requires current file evidence"⟩
    | some _, none => .error ⟨"incremental_identity_backfill_prior_missing",
        "Identity backfill requires the prior catalog location"⟩
    | some file, some prior =>
      match buildLocation env leased file decided.decision (some prior) with
      | .error (.retry issue) => .error issue
      | .error (.terminal issue) => .ok (terminalMediaChange env leased file (some prior) issue true removals)
      | .ok built => .ok (reconciledChange leased built.issue (some
          { changeId := leased.id
            outcome := decided.decision.outcome
            evidenceDisposition := decided.decision.evidenceDisposition
            removeLocationIds := removals
            upsertLocation := some { built.location with locationId := prior.locationId }
            retainedPreviewExpectation := some (retainedPreviewExpectation prior) }) decided.revalidation)
  else
    let removed : CatalogDeltaMutation := ⟨leased.id, .removed, .removeFromCurrentProjection, removals, none, none⟩
    .ok (reconciledChange leased none (if removals.isEmpty then none else some removed) decided.revalidation)

/-- The branch of `prepare_path_change` that writes a location. -/
def concludeUpsert (decided : DecidedPath) (removals : List String) : Except LibraryChangeFailure PreparedChange :=
  match decided.currentFile with
  | none => .error ⟨"incremental_current_file_missing", "A catalog upsert requires current file evidence"⟩
  | some file =>
    match buildLocation env leased file decided.decision decided.selectedPrior with
    | .error (.retry issue) => .error issue
    | .error (.terminal issue) => .ok (terminalMediaChange env leased file decided.selectedPrior issue true removals)
    | .ok built => .ok (reconciledChange leased built.issue (some
        { changeId := leased.id
          outcome := decided.decision.outcome
          evidenceDisposition := decided.decision.evidenceDisposition
          removeLocationIds := removals
          upsertLocation := some built.location
          retainedPreviewExpectation :=
            if decided.decision.evidenceDisposition = .retainCompatible then
              decided.selectedPrior.map retainedPreviewExpectation
            else none }) decided.revalidation)

variable (context : PathChangeContext)

/-- What follows from a decision. -/
def concludeDecision
    (pathPrior : Option AssetLocationView) (decided : DecidedPath) : Except LibraryChangeFailure PreparedChange :=
  let decision := decided.decision
  match decision.outcome with
  | .retryableFailure => .error ⟨decision.issueCode.getD "incremental_reconciliation_retry",
      "Incremental reconciliation requires newer trustworthy evidence"⟩
  | .terminalIssue => .ok (reconciledChange leased (some ⟨decision.issueCode.getD "incremental_reconciliation_issue",
      "Incremental reconciliation preserved the last trustworthy catalog"⟩) none decided.revalidation)
  | .skipped => .ok (reconciledChange leased none none decided.revalidation)
  | .unchanged => concludeUnchanged env leased decided context.removals
  | .removed =>
    let prior := decided.selectedPrior <|> pathPrior
    let removals := (prior.map (·.locationId)).elim context.removals (pushUnique context.removals)
    .ok (reconciledChange leased none
      (some ⟨leased.id, decision.outcome, decision.evidenceDisposition, removals, none, none⟩) decided.revalidation)
  | .added | .modified | .renamedOrMoved | .replaced =>
    concludeUpsert env leased decided (priorRemovals context pathPrior)

/-- The branch of `prepare_path_change` for a file that is there. -/
def preparePresentFile
    (pathPrior : Option AssetLocationView) (lineage : List LibraryChangeCatchUpEvidence) (file : DiscoveredFile) :
    Except LibraryChangeFailure PreparedChange := do
  let identityPrior ← loadIdentityPrior env file lineage
  let selected := selectPrior pathPrior identityPrior context.candidatePrior file
  if (context.candidatePrior.bind (·.fileIdentity)).isSome && file.fileIdentity.isNone then
    throw ⟨"incremental_current_identity_unavailable",
      "A paired rename cannot publish while current file identity is unavailable"⟩
  concludeDecision env leased context pathPrior
    { decision := presentDecision env leased.intent file selected
      currentFile := some file
      selectedPrior := selected
      revalidation := [.present context.relativePath (expectedState file)] }

/-- What `prepare_path_change` does with an observation. -/
def prepareObserved (pathPrior : Option AssetLocationView) (lineage : List LibraryChangeCatchUpEvidence) :
    InspectedPath → Except LibraryChangeFailure PreparedChange
  | .terminalMedia file issue reportIssue => do
    let identityPrior ← loadIdentityPrior env file lineage
    let selected := selectPrior pathPrior identityPrior context.candidatePrior file
    return terminalMediaChange env leased file selected issue reportIssue (priorRemovals context pathPrior)
  | .file file => preparePresentFile env leased context pathPrior lineage file
  | .catalogAbsent =>
    concludeDecision env leased context pathPrior
      { decision := reconcileMissingPath (pathPrior.map locationEvidence) context.relativePath
        currentFile := none
        selectedPrior := pathPrior
        revalidation := [.catalogAbsent context.relativePath] }
  | .preservedIssue issue | .retry issue => .error issue

/-- `prepare_path_change` -/
def preparePathChange : Except LibraryChangeFailure PreparedChange := do
  let lineage ← leasedCatchUpLineage leased
  let pathPrior ←
    (loadLocationByRelativePath env.catalog leased.intent.rootId context.relativePath).mapError scanFailure
  match inventoryShortcut env leased pathPrior context with
  | some change => return change
  | none =>
    prepareObserved env leased context pathPrior lineage (context.observed.getD (inspectPath env.source context.relativePath))

end

/-! ## The change of a pair of paths -/

/-- `eq_ignore_ascii_case`, after the separators are made equal. -/
def equalIgnoringAsciiCase (left right : String) : Bool :=
  let fold := fun path : String => path.toList.map fun c => (if c = '\\' then '/' else c).toLower
  fold left == fold right

/-- `windows_case_alias` -/
def windowsCaseAlias (isWindows : Bool) (left right : String) : Bool :=
  isWindows && equalIgnoringAsciiCase left right && left != right

/-- The identity of the file at an observed path. -/
def InspectedPath.identity : InspectedPath → Option FileIdentityEvidence
  | .file found | .terminalMedia found _ _ => found.fileIdentity
  | _ => none

/-- Whether nothing is there; an observation that failed says nothing. -/
def InspectedPath.isAbsent : InspectedPath → Except LibraryChangeFailure Bool
  | .catalogAbsent => .ok true
  | .file _ | .terminalMedia _ _ _ => .ok false
  | .preservedIssue issue | .retry issue => .error issue

/-- A mutation that writes a location removes this one too. -/
def CatalogDeltaMutation.alsoRemoving (mutation : CatalogDeltaMutation) (prior : AssetLocationView) :
    CatalogDeltaMutation :=
  if mutation.upsertLocation.isSome then
    { mutation with removeLocationIds := pushUnique mutation.removeLocationIds prior.locationId }
  else mutation

/-- The last part of `prepare_rename_change`: the two halves become one change. -/
def joinHalves (previousIsAbsent isAlias : Bool) (previousIdentity : Option FileIdentityEvidence)
    (previousPrior : Option AssetLocationView) (previous current : PreparedChange) : PreparedChange :=
  let currentIdentity := (current.mutations.findSome? (·.upsertLocation)).bind (·.fileIdentity)
  let writes := current.mutations.any (·.upsertLocation.isSome)
  let samePhysicalFile := isAlias && previousIdentity.isSome && previousIdentity == currentIdentity
  let previousMutations := if previousIsAbsent && writes || samePhysicalFile then [] else previous.mutations
  let currentMutations :=
    if samePhysicalFile then
      previousPrior.elim current.mutations fun prior => current.mutations.map (·.alsoRemoving prior)
    else current.mutations
  { completion := { previous.completion with issue := previous.completion.issue <|> current.completion.issue }
    mutations := previousMutations ++ currentMutations
    terminalMediaEvidence := current.terminalMediaEvidence
    revalidation := previous.revalidation ++ current.revalidation }

section

variable (env : PreparationEnv) (leased : LeasedLibraryChange)

/-- `prepare_rename_change` -/
def prepareRenameChange : Except LibraryChangeFailure PreparedChange := do
  let intent := leased.intent
  let some previousPath := intent.previousRelativePath
    | throw ⟨"incremental_rename_previous_path_missing", "A paired rename requires its previous relative path"⟩
  let previousPrior ← (loadLocationByRelativePath env.catalog intent.rootId previousPath).mapError scanFailure
  let previousObserved := inspectPath env.source previousPath
  let previousIsAbsent ← previousObserved.isAbsent
  let previous ← preparePathChange env leased ⟨previousPath, some previousObserved, none, false, []⟩
  let current ← preparePathChange env leased ⟨intent.relativePath, none, previousPrior, previousIsAbsent, []⟩
  return joinHalves previousIsAbsent (windowsCaseAlias env.isWindows previousPath intent.relativePath)
    previousObserved.identity previousPrior previous current

/-! ## The whole change -/

/-- What `prepare_change` dispatches to. -/
def preparePaths : Except LibraryChangeFailure PreparedChange :=
  let intent := leased.intent
  if intent.kind = .freshnessUnknown ∨ intent.scope ≠ .path then
    .error ⟨"incremental_scope_requires_reconciliation",
      "Subtree and root freshness work remains pending for authoritative reconciliation"⟩
  else if intent.kind = .reconcile ∧ intent.previousRelativePath = none then
    preparePathChange env leased ⟨intent.relativePath, none, none, false, []⟩
  else prepareRenameChange env leased

end

section

variable (recheck : MediaAdmissionRecheck) (evidence : List TerminalMediaEvidenceUpdate) (mutation : CatalogDeltaMutation)

/-- `confirmed_non_image` in `media_admission_recheck::apply` -/
def confirmedNonImage (location : AssetLocationView) : Bool :=
  let ownsFailedLocation := location.locationId == recheck.locationId ||
    mutation.removeLocationIds.contains recheck.locationId && location.fileIdentity.isSome &&
      location.fileIdentity == recheck.fileIdentity
  recheck.requiresInspection && ownsFailedLocation && mutation.outcome == .terminalIssue &&
    evidence.any fun update => update.changeId == mutation.changeId && update.evidence.relativePath == location.relativePath &&
      (update.evidence.issue.code == "image_format_unsupported" || update.evidence.issue.code == "media_type_unsupported")

/-- A mutation after the recheck, and whether it turned into a removal. -/
def recheckMutation : CatalogDeltaMutation × Bool :=
  match mutation.upsertLocation with
  | none => (mutation, false)
  | some location =>
    if location.width > 0 && location.height > 0 then
      if location.fileIdentity.isSome && location.fileIdentity == recheck.fileIdentity then
        ({ mutation with upsertLocation := some { location with assetId := recheck.assetId } }, false)
      else (mutation, false)
    else if confirmedNonImage recheck evidence mutation location then
      ({ mutation with
          outcome := .removed
          evidenceDisposition := .removeFromCurrentProjection
          removeLocationIds := pushUnique mutation.removeLocationIds location.locationId
          upsertLocation := none
          retainedPreviewExpectation := none }, true)
    else (mutation, false)

end

section

variable (env : PreparationEnv) (leased : LeasedLibraryChange)

/-- `media_admission_recheck::apply` -/
def applyAdmissionRecheck (prepared : PreparedChange) : PreparedChange :=
  let intent := leased.intent
  let recheck := env.recheck intent.rootId intent.relativePath <|> intent.previousRelativePath.bind (env.recheck intent.rootId)
  match recheck with
  | none => prepared
  | some recheck =>
    let rechecked := prepared.mutations.map (recheckMutation recheck prepared.terminalMediaEvidence)
    { prepared with
      completion := { prepared.completion with
        issue := if rechecked.any (·.2) then none else prepared.completion.issue }
      mutations := rechecked.map (·.1) }

/-- `prepare_change` -/
def prepareChange : Except LibraryChangeFailure PreparedChange :=
  (preparePaths env leased).map (applyAdmissionRecheck env leased)

end

end Ame
