import Ame.Lemmas.Delta
import Ame.Lemmas.Prepare

/-!
# The halves of a path change

A change names one path, or two of them, and each is prepared by itself: the half of the current path and the half of the
previous one. A half is described by what was observed at its path, by the root's own location there and by the location that
the file there was compared with.
-/

namespace Ame

open List Result Iter Separated Option

section

variable (env : PreparationEnv) (leased : LeasedLibraryChange) (path : String)

/-- The root's own location at a path. -/
def ownLocation : Option AssetLocationView :=
  loadIncrementalLocation env.catalog fun location =>
    location.rootId == leased.intent.rootId && location.relativePath == path

/-- The location that the previous path offers to the current one. -/
def candidateFor : Option AssetLocationView :=
  if path = leased.intent.relativePath then leased.intent.previousRelativePath.bind (ownLocation env leased) else none

/-- The location that the file at a path is compared with. -/
def comparedLocation (file : DiscoveredFile) : Option AssetLocationView :=
  selectPrior (ownLocation env leased path) (loadIdentityPrior env file leased.catchUpLineage).toOption.join
    (candidateFor env leased path) file

/-- What the file at a path is called. -/
def presentOutcome (file : DiscoveredFile) :
    IncrementalReconciliationOutcome :=
  (presentDecision env leased.intent file (comparedLocation env leased path file)).outcome

/-- What a preparation observes at a path: nothing, if the metadata inventory spares it the visit. -/
def observation : Option InspectedPath :=
  match inventoryShortcut env leased (ownLocation env leased path) ⟨path, none, none, false, []⟩ with
  | some _ => none
  | none => some (inspectPath env.source path)

/-- A file that is there is published, unless it is unchanged or cannot be judged. -/
def publishesFile (file : DiscoveredFile) : Bool :=
  match presentOutcome env leased path file with
  | .added | .modified | .renamedOrMoved | .replaced => true
  | .unchanged => identityBackfill (some file) (comparedLocation env leased path file) ||
      (comparedLocation env leased path file).any (requiresMetadataRecheck · leased.intent)
  | _ => false

/-- The locations that a half removes where it writes. -/
def halfRemovals (mayRemove : Bool) : List String :=
  priorRemovals ⟨path, none, candidateFor env leased path, mayRemove, []⟩ (ownLocation env leased path)

end

variable {env : PreparationEnv} {leased lc : LeasedLibraryChange} {path other : String} {mayRemove : Bool}
  {half : PreparedChange} {file : DiscoveredFile}

/-! ## Identifiers and locations -/

/-- An identifier belongs to one path. -/
theorem StableIds.IdOf.unique {ids : StableIds} {id : String} (h : ids.IdOf path id) (h' : ids.IdOf other id) :
    path = other := by
  obtain ⟨root, hr, rfl⟩ := h
  obtain ⟨root', hr', heq⟩ := h'
  have hv := congrArg String.toList (ids.injective _ heq)
  have hn : "\x00".toList = ['\x00'] := rfl
  simp only [String.toList_append, hn, append_assoc, singleton_append] at hv
  have hi := append_sep_inj (by simpa [contains] using hr) (by simpa [contains] using hr') hv
  exact String.toList_inj.mp hi.2

/-- The root's own location is all that the catalog has at the path. -/
theorem locationsAt_eq_toList (env : PreparationEnv) (lc : LeasedLibraryChange) (path : String) :
    env.catalog.toCatalogRows.locationsAt lc.intent.rootId path = (ownLocation env lc path).toList := by
  unfold ownLocation loadIncrementalLocation
  change env.catalog.toCatalogRows.locationsAt lc.intent.rootId path =
    (minByKey (·.locationId) (env.catalog.toCatalogRows.locationsAt lc.intent.rootId path)).toList
  have hk : ∀ l ∈ env.catalog.toCatalogRows.locationsAt lc.intent.rootId path,
      (l.rootId, l.relativePath) = (lc.intent.rootId, path) := by
    intro l hl
    simpa [CatalogRows.locationsAt] using (mem_filter.mp hl).2
  have hn : ((env.catalog.toCatalogRows.locationsAt lc.intent.rootId path).map fun l => (l.rootId, l.relativePath)).Nodup :=
    env.catalog.distinctPaths.sublist (filter_sublist.map _)
  generalize env.catalog.toCatalogRows.locationsAt lc.intent.rootId path = found at hk hn ⊢
  rcases found with _ | ⟨a, _ | ⟨b, rest⟩⟩
  · rfl
  · rfl
  · rw [map_cons, map_cons, hk a (by simp), hk b (by simp)] at hn
    simp at hn

section

variable {own : AssetLocationView} (h : ownLocation env lc path = some own)

include h

/-- The root's own location is in the catalog. -/
theorem ownLocation_mem : own ∈ env.catalog.locations ∧ own.relativePath = path := by
  have hm : own ∈ env.catalog.toCatalogRows.locationsAt lc.intent.rootId path := by
    rw [locationsAt_eq_toList, h]
    simp
  simp only [CatalogRows.locationsAt, mem_filter, Bool.and_eq_true, beq_iff_eq] at hm
  exact ⟨hm.1, hm.2.2⟩

/-- It is one of the root. -/
theorem ownLocation_root : own.rootId = lc.intent.rootId := by
  have hm := (mem_filter.mp (minByKey_mem h)).2
  rw [Bool.and_eq_true, beq_iff_eq] at hm
  exact hm.1

/-- Its identifier is one of the path. -/
theorem ownLocation_idOf : env.ids.IdOf path own.locationId := by
  obtain ⟨hm, hp⟩ := ownLocation_mem h
  exact hp ▸ env.catalog.stable own hm

end

/-- A load that succeeds returns the root's own location. -/
theorem loadLocation_own {own : Option AssetLocationView}
    (h : (loadLocationByRelativePath env.catalog lc.intent.rootId path).mapError scanFailure = .ok own) :
    own = ownLocation env lc path ∧ contains lc.intent.rootId '\x00' = false := by
  unfold loadLocationByRelativePath at h
  split at h
  · cases h
  · rename_i hr
    split at h
    · cases h
    · cases h
      simp only [Bool.or_eq_true, not_or, Bool.not_eq_true] at hr
      exact ⟨rfl, hr.2⟩

/-! ## The form of a half -/

section

variable (env : PreparationEnv) (leased : LeasedLibraryChange) (path : String)

/-- The decision for the file at a path. -/
def decisionAt (file : DiscoveredFile) : IncrementalReconciliationDecision :=
  presentDecision env leased.intent file (comparedLocation env leased path file)

/-- The issue of a decision that keeps the catalog as it is. -/
def decisionIssue (decision : IncrementalReconciliationDecision) : LibraryChangeFailure :=
  ⟨decision.issueCode.getD "incremental_reconciliation_issue",
    "Incremental reconciliation preserved the last trustworthy catalog"⟩

/-- The mutation that writes a location for the file at a path. -/
def publishedMutation (file : DiscoveredFile) (removals : List String) (location : AssetLocationView) :
    CatalogDeltaMutation where
  changeId := leased.id
  outcome := (decisionAt env leased path file).outcome
  evidenceDisposition := (decisionAt env leased path file).evidenceDisposition
  removeLocationIds := removals
  upsertLocation := some location
  retainedPreviewExpectation :=
    if (decisionAt env leased path file).evidenceDisposition = .retainCompatible then
      (comparedLocation env leased path file).map retainedPreviewExpectation
    else none

/-- What the preparation of one path gives, by what was observed there: nothing, if the inventory spared it the visit. -/
inductive HalfForm (mayRemove : Bool) : Option InspectedPath → PreparedChange → Prop where
  | inventory {half : PreparedChange} (own : AssetLocationView) (entry : MetadataInventoryEntry)
      (hown : ownLocation env leased path = some own)
      (hhalf : metadataInventoryDirtyPathChange leased own entry [] = some half) : HalfForm mayRemove none half
  | absentIssue (targets : List RevalidationTarget) : HalfForm mayRemove (some .catalogAbsent)
      (reconciledChange leased (some (decisionIssue
        (reconcileMissingPath ((ownLocation env leased path).map locationEvidence) path))) none targets)
  | absent (targets : List RevalidationTarget) (hown : ownLocation env leased path = none) :
      HalfForm mayRemove (some .catalogAbsent) (reconciledChange leased none none targets)
  | removed (own : AssetLocationView) (targets : List RevalidationTarget) (hown : ownLocation env leased path = some own) :
      HalfForm mayRemove (some .catalogAbsent) (reconciledChange leased none
        (some ⟨leased.id, .removed, .removeFromCurrentProjection, [own.locationId], none, none⟩) targets)
  | fileIssue (file : DiscoveredFile) (targets : List RevalidationTarget)
      (houtcome : presentOutcome env leased path file = .terminalIssue) : HalfForm mayRemove (some (.file file))
        (reconciledChange leased (some (decisionIssue (decisionAt env leased path file))) none targets)
  | kept (file : DiscoveredFile) (targets : List RevalidationTarget)
      (houtcome : presentOutcome env leased path file = .unchanged) (hkept : publishesFile env leased path file = false) :
      HalfForm mayRemove (some (.file file)) (reconciledChange leased none none targets)
  | unreadable (file : DiscoveredFile) (issue : LibraryChangeFailure) (removals : List String)
      (hpublishes : publishesFile env leased path file = true)
      (hbuild : buildLocation env leased file (decisionAt env leased path file) (comparedLocation env leased path file) =
        .error (.terminal issue)) (hremovals : removals = [] ∨ removals = halfRemovals env leased path mayRemove) :
      HalfForm mayRemove (some (.file file))
        (terminalMediaChange env leased file (comparedLocation env leased path file) issue true removals)
  /-- An unchanged file keeps the identifier of the location it was compared with. -/
  | written (file : DiscoveredFile) (built : BuiltLocation) (id : String) (removals : List String)
      (targets : List RevalidationTarget) (hpublishes : publishesFile env leased path file = true)
      (hbuild : buildLocation env leased file (decisionAt env leased path file) (comparedLocation env leased path file) =
        .ok built)
      (hplace : presentOutcome env leased path file = .unchanged ∧ removals = [] ∧
          (∃ prior, comparedLocation env leased path file = some prior ∧ prior.locationId = id) ∨
        presentOutcome env leased path file ≠ .unchanged ∧ removals = halfRemovals env leased path mayRemove ∧
          id = built.location.locationId) : HalfForm mayRemove (some (.file file))
        (reconciledChange leased built.issue
          (some (publishedMutation env leased path file removals { built.location with locationId := id })) targets)
  | terminal (file : DiscoveredFile) (issue : LibraryChangeFailure) (report : Bool) :
      HalfForm mayRemove (some (.terminalMedia file issue report))
        (terminalMediaChange env leased file (comparedLocation env leased path file) issue report
          (halfRemovals env leased path mayRemove))

end

section

variable {ctx : PathChangeContext} {identityPrior : Option AssetLocationView} {decided : DecidedPath}

/-- The location that is selected is the one the file is compared with. -/
theorem selectPrior_eq (hc : ctx.candidatePrior = candidateFor env lc path)
    (h : loadIdentityPrior env file lc.catchUpLineage = .ok identityPrior) :
    selectPrior (ownLocation env lc path) identityPrior ctx.candidatePrior file = comparedLocation env lc path file := by
  simp only [comparedLocation, h, hc, Except.toOption, join_some]

/-- The removals of a half, from its context. -/
theorem priorRemovals_eq (hc : ctx.candidatePrior = candidateFor env lc path) (hr : ctx.removals = []) :
    priorRemovals ctx (ownLocation env lc path) = halfRemovals env lc path ctx.mayRemoveCandidatePrior := by
  simp only [priorRemovals, halfRemovals, hc, hr]

/-- An upsert publishes the file. -/
theorem concludeUpsert_form {targets : List RevalidationTarget} (hp : publishesFile env lc path file = true)
    (ho : presentOutcome env lc path file ≠ .unchanged)
    (h : concludeUpsert env lc ⟨decisionAt env lc path file, some file, comparedLocation env lc path file, targets⟩
      (halfRemovals env lc path mayRemove) = .ok half) : HalfForm env lc path mayRemove (some (.file file)) half := by
  simp only [concludeUpsert] at h
  split at h
  · cases h
  · rename_i issue hb
    cases h
    exact .unreadable file issue _ hp hb (.inr rfl)
  · rename_i built hb
    cases h
    exact .written file built _ _ targets hp hb (.inr ⟨ho, rfl, rfl⟩)

/-- An unchanged file is published again only to add its identity or to recheck its metadata. -/
theorem concludeUnchanged_form {targets : List RevalidationTarget} (ho : presentOutcome env lc path file = .unchanged)
    (h : concludeUnchanged env lc ⟨decisionAt env lc path file, some file, comparedLocation env lc path file, targets⟩ [] =
      .ok half) : HalfForm env lc path mayRemove (some (.file file)) half := by
  unfold concludeUnchanged at h
  split at h
  · rename_i hw
    have hp : publishesFile env lc path file = true := by simpa only [publishesFile, ho] using hw
    split at h
    · cases h
    · cases h
    · rename_i file' prior hf hs
      cases hf
      dsimp only at hs h
      rw [← hs] at h
      split at h
      · cases h
      · rename_i issue hb
        cases h
        exact .unreadable file issue [] hp hb (.inl rfl)
      · rename_i built hb
        cases h
        have hd : (decisionAt env lc path file).evidenceDisposition = .retainCompatible := by
          have hfit := presentDecision_fits env lc.intent file (comparedLocation env lc path file)
          rw [show (presentDecision env lc.intent file _).outcome = .unchanged from ho] at hfit
          exact hfit.1
        have hform : HalfForm env lc path mayRemove (some (.file file)) _ :=
          .written file built prior.locationId [] targets hp hb (.inl ⟨ho, rfl, prior, hs, rfl⟩)
        simpa [publishedMutation, hd, hs] using hform
  · rename_i hk
    cases h
    exact .kept file targets ho (by simpa [publishesFile, ho] using hk)

/-- What was observed at a path gives its half its form. -/
theorem prepareObserved_form (hc : ctx.candidatePrior = candidateFor env lc path) (hr : ctx.removals = [])
    (hp : ctx.relativePath = path) {observed : InspectedPath}
    (h : prepareObserved env lc ctx (ownLocation env lc path) lc.catchUpLineage observed = .ok half) :
    HalfForm env lc path ctx.mayRemoveCandidatePrior (some observed) half := by
  cases observed with
  | file file =>
    obtain ⟨identityPrior, hid, h⟩ := bind_ok h
    split at h
    · cases h
    rw [selectPrior_eq hc hid] at h
    have hn := presentDecision_outcome env lc.intent file (comparedLocation env lc path file)
    simp only [concludeDecision] at h
    split at h
    · cases h
    · cases h
      exact .fileIssue file _ ‹_›
    · exact absurd ‹_› hn.2
    · rw [hr] at h
      exact concludeUnchanged_form ‹_› h
    · exact absurd ‹_› hn.1
    all_goals
      rename_i ho
      rw [priorRemovals_eq hc hr] at h
      exact concludeUpsert_form (by simp only [publishesFile, presentOutcome, ho]) (by simp [presentOutcome, ho]) h
  | terminalMedia file issue report =>
    obtain ⟨identityPrior, hid, h⟩ := bind_ok h
    cases h
    rw [selectPrior_eq hc hid, priorRemovals_eq hc hr]
    exact .terminal file issue report
  | catalogAbsent =>
    simp only [prepareObserved, concludeDecision, hr, hp] at h
    have hmi : ∀ {d : IncrementalReconciliationDecision},
        reconcileMissingPath ((ownLocation env lc path).map locationEvidence) path = d → d.outcome = .terminalIssue ∨
          d.outcome = .unchanged ∧ ownLocation env lc path = none ∨
          ∃ own, ownLocation env lc path = some own ∧ d.outcome = .removed ∧
            d.evidenceDisposition = .removeFromCurrentProjection := by
      unfold reconcileMissingPath preservedDecision
      cases ownLocation env lc path
      all_goals
        repeat' split
        all_goals simp_all
    rcases hmi rfl with ho | ⟨ho, hown⟩ | ⟨own, hown, ho, hd⟩ <;> simp only [ho] at h
    · cases h
      exact .absentIssue _
    · simp only [concludeUnchanged, hown, identityBackfill, any_none, Bool.or_self] at h
      cases h
      exact .absent _ hown
    · cases h
      rw [hd, hown]
      exact .removed own _ hown
  | preservedIssue issue => cases h
  | retry issue => cases h

/-- The preparation of one path has a form. -/
theorem preparePathChange_form (hc : ctx.candidatePrior = candidateFor env lc ctx.relativePath) (hr : ctx.removals = [])
    (ho : ctx.observed.getD (inspectPath env.source ctx.relativePath) = inspectPath env.source ctx.relativePath)
    (hs : inventoryShortcut env lc (ownLocation env lc ctx.relativePath) ctx =
      inventoryShortcut env lc (ownLocation env lc ctx.relativePath) ⟨ctx.relativePath, none, none, false, []⟩)
    (h : preparePathChange env lc ctx = .ok half) :
    HalfForm env lc ctx.relativePath ctx.mayRemoveCandidatePrior (observation env lc ctx.relativePath) half ∧
      contains lc.intent.rootId '\x00' = false := by
  obtain ⟨lineage, hl, h⟩ := bind_ok h
  obtain ⟨own, how, h⟩ := bind_ok h
  obtain ⟨rfl, hro⟩ := loadLocation_own how
  obtain rfl := leasedCatchUpLineage_eq hl
  refine ⟨?_, hro⟩
  unfold observation
  rw [hs] at h
  cases hch : inventoryShortcut env lc (ownLocation env lc ctx.relativePath) ⟨ctx.relativePath, none, none, false, []⟩ with
  | some change =>
    rw [hch] at h
    cases h
    unfold inventoryShortcut at hch
    dsimp only at hch
    split at hch
    · obtain ⟨prior, hp, hch⟩ := bind_eq_some_iff.mp hch
      obtain ⟨entry, -, hch⟩ := bind_eq_some_iff.mp hch
      exact .inventory prior entry (filter_eq_some_iff.mp hp).1 hch
    · cases hch
  | none =>
    rw [hch] at h
    dsimp only at h
    rw [ho] at h
    exact prepareObserved_form hc hr rfl h

/-- For two paths the inventory is not asked. -/
theorem inventoryShortcut_pair (hp : lc.intent.previousRelativePath.isSome) (own : Option AssetLocationView)
    (ctx : PathChangeContext) : inventoryShortcut env lc own ctx = none := by
  cases h : inventoryShortcut env lc own ctx with
  | none => rfl
  | some change => simp [inventoryShortcut_single h] at hp

/-- A rename is prepared by its two halves. -/
def RenameForm (env : PreparationEnv) (leased : LeasedLibraryChange) (prepared : PreparedChange) : Prop :=
  ∃ previousPath isAbsent previous current, leased.intent.previousRelativePath = some previousPath ∧
    previousPath ≠ leased.intent.relativePath ∧ contains leased.intent.rootId '\x00' = false ∧
    HalfForm env leased previousPath false (some (inspectPath env.source previousPath)) previous ∧
    HalfForm env leased leased.intent.relativePath isAbsent (some (inspectPath env.source leased.intent.relativePath)) current ∧
    (inspectPath env.source previousPath).isAbsent = .ok isAbsent ∧
    prepared = joinHalves isAbsent (windowsCaseAlias env.isWindows previousPath leased.intent.relativePath)
      (inspectPath env.source previousPath).identity (ownLocation env leased previousPath) previous current

/-- A rename has the forms of its two halves. -/
theorem prepareRenameChange_form (hd : lc.intent.previousRelativePath ≠ some lc.intent.relativePath)
    (h : prepareRenameChange env lc = .ok half) : RenameForm env lc half := by
  unfold prepareRenameChange at h
  dsimp only at h
  split at h
  swap
  · cases h
  rename_i prevPath hp
  obtain ⟨own, ho, h⟩ := bind_ok h
  obtain ⟨gone, ha, h⟩ := bind_ok h
  obtain ⟨prev, hpr, h⟩ := bind_ok h
  obtain ⟨cur, hc, h⟩ := bind_ok h
  cases h
  obtain ⟨rfl, -⟩ := loadLocation_own ho
  have hs : ∀ own ctx, inventoryShortcut env lc own ctx = none := inventoryShortcut_pair (by simp [hp])
  have hne : prevPath ≠ lc.intent.relativePath := fun heq => hd (heq ▸ hp)
  obtain ⟨hpf, hr⟩ := preparePathChange_form (by simp [candidateFor, hne]) rfl rfl (by simp only [hs]) hpr
  obtain ⟨hcf, -⟩ := preparePathChange_form (by simp [candidateFor, hp]) rfl rfl (by simp only [hs]) hc
  simp only [observation, hs] at hpf hcf
  exact ⟨prevPath, gone, prev, cur, hp, hne, hr, hpf, hcf, ha, rfl⟩

/-- A change has the form of its one half, or those of its two. -/
theorem preparePaths_form (hd : lc.intent.scope = .path → lc.intent.previousRelativePath ≠ some lc.intent.relativePath)
    (h : preparePaths env lc = .ok half) :
    lc.intent.previousRelativePath = none ∧ contains lc.intent.rootId '\x00' = false ∧
        HalfForm env lc lc.intent.relativePath false (observation env lc lc.intent.relativePath) half ∨
      RenameForm env lc half := by
  unfold preparePaths at h
  dsimp only at h
  split at h
  · cases h
  · rename_i hp
    push Not at hp
    split at h
    · rename_i hs
      obtain ⟨hf, hr⟩ := preparePathChange_form (by simp [candidateFor, hs.2]) rfl rfl rfl h
      exact .inl ⟨hs.2, hr, hf⟩
    · exact .inr (prepareRenameChange_form (hd hp.2) h)

/-- What is observed is what is there. -/
theorem observation_eq {observed : InspectedPath} (h : observation env lc path = some observed) :
    inspectPath env.source path = observed := by
  unfold observation at h
  split at h
  · cases h
  · exact Option.some.inj h

end

/-! ## The effect of a half -/

/-- What a half does to the catalog, by what was observed at its path. -/
inductive HalfEffect (env : PreparationEnv) (leased : LeasedLibraryChange) (path : String) (mayRemove : Bool)
    (half : PreparedChange) : Prop where
  | absent (hobserved : inspectPath env.source path = .catalogAbsent)
      (heffect : ownLocation env leased path = none ∧ half.mutations = [] ∨
        ∃ own mutation, ownLocation env leased path = some own ∧ half.mutations = [mutation] ∧
          mutation.upsertLocation = none ∧ mutation.removeLocationIds = [own.locationId])
  | present (file : DiscoveredFile) (hobserved : inspectPath env.source path = .file file)
      (heffect : PresentEffect env leased (halfRemovals env leased path mayRemove) file
        (comparedLocation env leased path file) half)
  | terminal (file : DiscoveredFile) (issue : LibraryChangeFailure) (report : Bool)
      (hobserved : inspectPath env.source path = .terminalMedia file issue report)
      (heffect : comparedLocation env leased path file = none ∧ halfRemovals env leased path mayRemove = [] ∧
          half.mutations = [] ∨
        ((comparedLocation env leased path file).isSome ∨ halfRemovals env leased path mayRemove ≠ []) ∧
          WritesFile half file (env.ids.stableLocationId leased.intent.rootId file.relativePath)
            (halfRemovals env leased path mayRemove))

/-- The file that was observed at a path was found there. -/
theorem found_of_file (h : inspectPath env.source path = .file file) : (env.source.visit path).found = some file := by
  unfold inspectPath at h
  split at h
  · rename_i hv
    cases h
    rw [hv]
    rfl
  all_goals try split at h
  all_goals try split at h
  all_goals cases h

theorem found_of_terminalMedia {issue : LibraryChangeFailure} {report : Bool}
    (h : inspectPath env.source path = .terminalMedia file issue report) : (env.source.visit path).found = some file := by
  unfold inspectPath at h
  split at h
  · cases h
  · rename_i hv
    cases h
    rw [hv]
    rfl
  all_goals try split at h
  all_goals try split at h
  all_goals cases h

/-- The effect of a half that was prepared without an issue. -/
theorem HalfForm.effect (h : HalfForm env lc path mayRemove (some (inspectPath env.source path)) half)
    (hi : half.completion.issue = none) : HalfEffect env lc path mayRemove half := by
  generalize hobs : some (inspectPath env.source path) = observed at h
  cases h with
  | inventory => cases hobs
  | absentIssue => cases hi
  | fileIssue => cases hi
  | unreadable => cases hi
  | absent _ hown => exact .absent (Option.some.inj hobs) (.inl ⟨hown, rfl⟩)
  | removed own _ hown => exact .absent (Option.some.inj hobs) (.inr ⟨own, _, hown, rfl, rfl, rfl⟩)
  | kept file _ ho hk =>
    simp only [publishesFile, ho, Bool.or_eq_false_iff] at hk
    exact .present file (Option.some.inj hobs) (.kept ho hk.1 hk.2 rfl)
  | written file built id rems _ hp hb hpl =>
    refine .present file (Option.some.inj hobs) ?_
    obtain ⟨hpa, hst, hid⟩ := buildLocation_spec hb
    rcases hpl with ⟨ho, rfl, prior, hs, rfl⟩ | ⟨ho, rfl, rfl⟩
    · simp only [publishesFile, ho, hs, any_some, Bool.or_eq_true] at hp
      exact .rewritten prior ho hs (hs.symm ▸ hp) ⟨_, _, rfl, rfl, hpa, hst, rfl, rfl⟩
    · exact .written ho ⟨_, _, rfl, rfl, hpa, hst, hid, rfl⟩
  | terminal file issue report =>
    exact .terminal file issue report (Option.some.inj hobs) (terminalMediaChange_spec issue report _)

/-- The removals of a half that writes are the own location's and, if it is gone, the candidate's. -/
theorem mem_halfRemovals {id : String} : id ∈ halfRemovals env lc path mayRemove ↔
    (∃ own ∈ ownLocation env lc path, own.locationId = id) ∨
      mayRemove = true ∧ ∃ cand ∈ candidateFor env lc path, cand.locationId = id := by
  have hp : ∀ (l : List String) (x : String), id ∈ pushUnique l x ↔ id ∈ l ∨ x = id := by
    intro l x
    unfold pushUnique
    split
    · exact ⟨.inl, fun h => h.elim (fun h => h) fun h => h ▸ by simpa using ‹l.contains x = true›⟩
    · simp [eq_comm]
  unfold halfRemovals priorRemovals
  cases ownLocation env lc path <;> cases candidateFor env lc path <;> cases mayRemove <;> simp [hp]

/-- The own location and the candidate are the last choices of the comparison. -/
theorem comparedLocation_isSome (h : halfRemovals env lc path mayRemove ≠ []) : (comparedLocation env lc path file).isSome := by
  rw [isSome_iff_ne_none]
  intro hn
  simp only [comparedLocation, selectPrior, orElse_eq_orElse, orElse_eq_or, or_eq_none_iff] at hn
  obtain ⟨-, -, -, hown, hcand⟩ := hn
  obtain ⟨id, hid⟩ := exists_mem_of_ne_nil _ h
  rcases mem_halfRemovals.mp hid with ⟨own, ho, -⟩ | ⟨-, cand, hc, -⟩
  · simp [hown] at ho
  · simp [hcand] at hc

/-- Whatever a half writes is at its path, with the state of the file that was found there. -/
theorem HalfEffect.written (h : HalfEffect env lc path mayRemove half) {mutation : CatalogDeltaMutation}
    (hme : mutation ∈ half.mutations) {w : AssetLocationView} (hw : mutation.upsertLocation = some w) :
    ∃ file, (env.source.visit path).found = some file ∧ w.relativePath = path ∧ w.state = file.state := by
  have ofWrites : ∀ {file : DiscoveredFile} {id : String} {removals : List String}, WritesFile half file id removals →
      (env.source.visit path).found = some file →
      ∃ file, (env.source.visit path).found = some file ∧ w.relativePath = path ∧ w.state = file.state := by
    rintro file id removals ⟨m, w', hm, hw', hp, hs, -, -⟩ hf
    rw [hm, mem_singleton] at hme
    subst hme
    obtain rfl : w' = w := Option.some.inj (hw' ▸ hw)
    exact ⟨file, hf, hp.trans (env.source.found_path path file hf), hs⟩
  cases h with
  | absent ho he =>
    rcases he with ⟨-, hm⟩ | ⟨own, m, -, hm, hn, -⟩
    · simp [hm] at hme
    · rw [hm, mem_singleton] at hme
      subst hme
      simp [hn] at hw
  | present file ho he =>
    cases he with
    | kept _ _ _ hm => simp [hm] at hme
    | rewritten prior _ _ _ hwr => exact ofWrites hwr (found_of_file ho)
    | written _ hwr => exact ofWrites hwr (found_of_file ho)
  | terminal file issue report ho he =>
    rcases he with ⟨-, -, hm⟩ | ⟨-, hwr⟩
    · simp [hm] at hme
    · exact ofWrites hwr (found_of_terminalMedia ho)

/-- A half writes nothing at another path. -/
theorem HalfEffect.avoids (h : HalfEffect env lc path mayRemove half) (hne : other ≠ path) :
    ∀ m ∈ half.mutations, m.Avoids other := by
  intro m hm w hw
  obtain ⟨file, -, hp, -⟩ := h.written hm hw
  rw [hp]
  exact hne.symm

/-- An unchanged file whose location has no identity was compared with the root's own location. -/
theorem backfill_own (hf : (env.source.visit path).found = some file)
    (hd : lc.intent.previousRelativePath ≠ some lc.intent.relativePath)
    (h : identityBackfill (some file) (comparedLocation env lc path file) = true) :
    ∃ own, ownLocation env lc path = some own ∧ comparedLocation env lc path file = some own := by
  cases hco : comparedLocation env lc path file with
  | none => simp [identityBackfill, hco] at h
  | some prior =>
    simp only [identityBackfill, hco, any_some, Bool.and_eq_true, beq_iff_eq, isNone_iff_eq_none] at h
    obtain ⟨hs, hn, hpa⟩ := h
    rcases selectPrior_cases hco with ⟨-, hid⟩ | ho | ⟨-, hc⟩
    · rw [← hid, hn] at hs
      cases hs
    · exact ⟨prior, ho, rfl⟩
    · -- the candidate is at the previous path, which is another one
      unfold candidateFor at hc
      split at hc
      · rename_i hcu
        obtain ⟨prev, hp, ho⟩ := bind_eq_some_iff.mp hc
        have hpp := (ownLocation_mem ho).2
        rw [hpa, env.source.found_path path file hf, hcu] at hpp
        exact absurd (hpp ▸ hp) hd
      · cases hc

/-! ## Mutations of another path -/

/-- A mutation of another path: its identifiers belong there, and what it writes is a file that was found there. -/
structure CatalogDeltaMutation.ForeignTo (mutation : CatalogDeltaMutation) (env : PreparationEnv) (path : String) : Prop where
  removals : ∀ id ∈ mutation.removeLocationIds, ¬env.ids.IdOf path id
  writes : ∀ w ∈ mutation.upsertLocation, ¬env.ids.IdOf path w.locationId ∧ w.relativePath ≠ path ∧
    ∃ other file, (env.source.visit other).found = some file ∧ w.state = file.state

/-- A half is foreign to every other path, unless it removes the location that the other path offered. -/
theorem HalfEffect.foreign (h : HalfEffect env lc path mayRemove half) (hro : contains lc.intent.rootId '\x00' = false)
    (hp : lc.intent.previousRelativePath.isSome) (hd : lc.intent.previousRelativePath ≠ some lc.intent.relativePath)
    (hk : mayRemove = false ∨ ∀ m ∈ half.mutations, m.upsertLocation = none) (hne : other ≠ path) :
    ∀ m ∈ half.mutations, m.ForeignTo env other := by
  have notOther : ∀ {id : String}, env.ids.IdOf path id → ¬env.ids.IdOf other id := fun hid hid' => hne (hid'.unique hid)
  have hown : ∀ id ∈ halfRemovals env lc path false, env.ids.IdOf path id := by
    intro id hid
    rcases mem_halfRemovals.mp hid with ⟨own, hown, rfl⟩ | ⟨hfa, -⟩
    · exact ownLocation_idOf hown
    · cases hfa
  have ofWrites : ∀ {file : DiscoveredFile} {id : String} {rems : List String}, WritesFile half file id rems →
      (env.source.visit path).found = some file → env.ids.IdOf path id → (∀ id ∈ rems, env.ids.IdOf path id) →
      ∀ m ∈ half.mutations, m.ForeignTo env other := by
    rintro file id rems ⟨m, w, hm, hw, hpa, hst, rfl, rfl⟩ hf hid hre m' hm'
    rw [hm, mem_singleton] at hm'
    subst hm'
    refine ⟨fun id hme => notOther (hre id hme), fun w' hw' => ?_⟩
    obtain rfl : w = w' := Option.some.inj (hw ▸ hw')
    refine ⟨notOther hid, ?_, path, file, hf, hst⟩
    rw [hpa, env.source.found_path path file hf]
    exact hne.symm
  have writesNothing : ∀ {file : DiscoveredFile} {id : String} {rems : List String}, WritesFile half file id rems →
      mayRemove = false := by
    rintro file id rems ⟨m, w, hm, hw, -⟩
    rcases hk with hk | hk
    · exact hk
    · simp [hk m (by simp [hm])] at hw
  cases h with
  | absent ho he =>
    rcases he with ⟨-, hm⟩ | ⟨own, m, how, hm, hn, hi⟩
    · simp [hm]
    · intro m' hm'
      rw [hm, mem_singleton] at hm'
      subst hm'
      refine ⟨fun id hid => ?_, fun w hw => by simp [hn] at hw⟩
      rw [hi, mem_singleton] at hid
      exact hid ▸ notOther (ownLocation_idOf how)
  | present file ho he =>
    have hf := found_of_file ho
    cases he with
    | kept _ _ _ hm => simp [hm]
    | rewritten prior _ hs hwh hwr =>
      have hb : identityBackfill (some file) (comparedLocation env lc path file) = true := by
        refine hwh.resolve_right fun hr => ?_
        simp only [requiresMetadataRecheck, Bool.and_eq_true, isNone_iff_eq_none] at hr
        simp [hr.2] at hp
      obtain ⟨own, how, hc⟩ := backfill_own hf hd hb
      obtain rfl : prior = own := Option.some.inj (hs ▸ hc)
      exact ofWrites hwr hf (ownLocation_idOf how) (by simp)
    | written _ hwr =>
      obtain rfl := writesNothing hwr
      exact ofWrites hwr hf ⟨_, hro, by rw [env.source.found_path path file hf]⟩ hown
  | terminal file issue report ho he =>
    have hf := found_of_terminalMedia ho
    rcases he with ⟨-, -, hm⟩ | ⟨-, hwr⟩
    · simp [hm]
    · obtain rfl := writesNothing hwr
      exact ofWrites hwr hf ⟨_, hro, by rw [env.source.found_path path file hf]⟩ hown

/-- The root has one location at the path, under an identifier of the path and with the state. -/
structure CatalogRows.Settled (rows : CatalogRows) (env : PreparationEnv) (rootId path : String) (fileState : FileState) :
    Prop where
  holds : rows.Holds rootId path fileState
  ids : ∀ l ∈ rows.locationsAt rootId path, env.ids.IdOf path l.locationId

/-- Foreign mutations leave a path settled. -/
theorem Settled.run {rootId : String} {st st' : DeltaState} {muts : List CatalogDeltaMutation}
    (h : muts.foldlM (applyMutation rootId) st = .ok st') (hfo : ∀ m ∈ muts, m.ForeignTo env path)
    (hfou : (env.source.visit path).found = some file) (hs : st.rows.Settled env rootId path file.state) :
    st'.rows.Settled env rootId path file.state := by
  induction muts generalizing st with
  | nil =>
    cases h
    exact hs
  | cons m ms ih =>
    obtain ⟨middle, hm, hms⟩ := bind_ok h
    have hf := hfo m mem_cons_self
    have ha : m.Avoids path := fun w hw => (hf.writes w hw).2.1
    refine ih hms (fun m' hm' => hfo m' (mem_cons_of_mem _ hm')) ⟨?_, ?_⟩
    · refine Holds.of_spares hm hs.holds ⟨ha, fun l hl => ?_, fun w hw hso hid => ?_⟩
      · have hid := hs.ids l hl
        simp only [CatalogDeltaMutation.deletes, Bool.and_eq_false_iff, Bool.or_eq_false_iff]
        refine .inr ⟨?_, ?_⟩
        · simpa using fun hme => hf.removals _ hme hid
        · cases hw : m.upsertLocation with
          | none => rfl
          | some w =>
            have hne : w.locationId ≠ l.locationId := fun heq => (hf.writes w hw).1 (heq ▸ hid)
            simpa using hne
      · obtain ⟨-, -, other, found, ho, hst⟩ := hf.writes w hw
        have hwi : w.fileIdentity = found.fileIdentity := congrArg FileState.fileIdentity hst
        rw [hst]
        exact env.source.same_identity other path found file ho hfou (hwi ▸ hso) (hwi.symm.trans hid)
    · intro l hl
      have hr : [m].foldlM (applyMutation rootId) st = .ok middle := by simpa using hm
      obtain ⟨l0, hl0, hid, -⟩ := origin_of_avoids hr (by simpa using ha) l hl
      exact hid ▸ hs.ids l0 hl0

end Ame
