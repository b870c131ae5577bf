import Ame.Incremental.Pass
import Ame.Lemmas.Stored
import Ame.Theorems.QueueRuns
import Mathlib

/-!
# The delta of a pass and the checks of the catalog

The delta that a pass assembles from its prepared changes passes the checks of the catalog, unless two of the changes find media
at the same path that can never be read, or the text of such a failure is too long to be stored, or a path at which something is
stored is blank. All of this can happen: the queue keeps the changes of two journal windows apart although they name the same
path, the inspector passes on the texts of its decoders, and a name of spaces is a valid path to the queue.
-/

namespace Ame

open List Result

variable {lc : LeasedLibraryChange} {batch : CatalogDeltaBatch} {path rootId : String}

/-! ## The lease -/

section

variable {q : ChangeQueue} {gen : LibraryRootGeneration} {limit : Nat} {due : List LibraryChangeId} {gn : LibraryChangeId → Nat}

theorem mem_leasePathChanges {lc : LeasedLibraryChange} (h : lc ∈ leasePathChanges q rootId gen limit due gn) :
    ∃ r ∈ q.rows, r.leasesPath rootId gen = true ∧ lc = r.leasedWith (gn r.id) := by
  obtain ⟨r, hr, rfl⟩ := mem_map.mp h
  obtain ⟨id, -, hf⟩ := mem_filterMap.mp (mem_of_mem_take hr)
  have hk := find?_some hf
  rw [Bool.and_eq_true] at hk
  exact ⟨r, mem_of_find?_eq_some hf, hk.2, rfl⟩

/-- A lease keeps to its limit. -/
theorem leasePathChanges_length : (leasePathChanges q rootId gen limit due gn).length ≤ limit := by
  rw [leasePathChanges, length_map]
  exact length_take_le _ _

/-- A lease takes a change once. -/
theorem leasePathChanges_nodup : ((leasePathChanges q rootId gen limit due gn).map (·.id)).Nodup := by
  rw [leasePathChanges, map_map]
  have hi : ∀ ids : List LibraryChangeId,
      ((ids.filterMap fun id => q.rows.find? fun r => r.id == id && r.leasesPath rootId gen).map (·.id)).Sublist
        ids := by
    intro ids
    induction ids with
    | nil => simp
    | cons id ids hr =>
      cases hf : q.rows.find? fun r => r.id == id && r.leasesPath rootId gen with
      | none =>
        simp only [filterMap_cons, hf]
        exact hr.cons id
      | some r =>
        have hk := find?_some hf
        rw [Bool.and_eq_true, beq_iff_eq] at hk
        simp only [filterMap_cons, hf, map_cons, hk.1]
        exact hr.cons_cons id
  exact ((hi due.dedup).nodup due.nodup_dedup).sublist ((take_sublist _ _).map _)

end

/-! ## The checks, one by one -/

/-- What the check of a completion asks. -/
theorem validateCompletion_ok_iff {completion : LibraryChangeCompletion} : validateCompletion false completion = .ok () ↔
      completion.leaseGeneration ≠ 0 ∧ ∀ issue, completion.issue = some issue → CleanIssue issue := by
  unfold validateCompletion
  by_cases hz : completion.leaseGeneration = 0
  · rw [if_pos (by rw [hz]; rfl)]
    exact ⟨fun h => (by cases h), fun h => absurd hz h.1⟩
  · rw [if_neg (by simpa using hz)]
    cases hi : completion.issue with
    | none => exact ⟨fun _ => ⟨hz, by rintro _ ⟨⟩⟩, fun _ => rfl⟩
    | some issue =>
      rw [Option.any_some]
      by_cases hd : (blankOrNul issue.code || blankOrNul issue.message) = true
      · rw [if_pos hd]
        refine ⟨fun h => (by cases h), fun h => ?_⟩
        obtain ⟨hc, hm⟩ := h.2 issue rfl
        rw [hc, hm] at hd
        cases hd
      · rw [if_neg hd]
        rw [Bool.not_eq_true, Bool.or_eq_false_iff] at hd
        exact ⟨fun _ => ⟨hz, by rintro _ ⟨⟩; exact hd⟩, fun _ => rfl⟩

/-- A sound mutation is refused only because of the path it writes. -/
theorem SoundMutation.validate_iff {mutation : CatalogDeltaMutation} (h : SoundMutation lc 4 mutation)
    (hid : lc.id ∈ batch.completions.map (·.changeId)) (hro : lc.intent.rootId = batch.rootId) :
    validateMutation batch mutation = .ok () ↔
      ∀ location, mutation.upsertLocation = some location → trimIsEmpty location.relativePath = false := by
  have hco : (batch.completions.map (·.changeId)).contains mutation.changeId = true := by
    rw [h.changeId]
    exact contains_iff_mem.mpr hid
  have hr : invalidRemovals mutation = false := by
    rw [invalidRemovals, Bool.or_eq_false_iff, decide_eq_false_iff_not, any_eq_false]
    refine ⟨Nat.not_lt.mpr h.removalCount, ?_⟩
    intro id hm
    rw [h.removals id hm]
    exact Bool.false_ne_true
  have hn : (mutation.removeLocationIds.isEmpty && mutation.upsertLocation.isNone) = false := by
    have hc := h.contract
    unfold validEvidenceContract at hc
    split at hc <;> simp_all
  unfold validateMutation
  rw [hco, h.contract, h.preview, hr, hn]
  cases hl : mutation.upsertLocation with
  | none => exact ⟨fun _ => by rintro _ ⟨⟩, fun _ => rfl⟩
  | some location =>
    have hb : invalidLocation batch.rootId location = trimIsEmpty location.relativePath := by
      have hid' := h.locationId location hl
      simp only [CleanLocation, blankOrNul, Bool.or_eq_false_iff] at hid'
      rw [invalidLocation, h.rootId location hl, hro, hid'.1]
      simp
    rw [Option.any_some, hb]
    cases he : trimIsEmpty location.relativePath with
    | true => exact ⟨fun hok => (by cases hok), fun ha => absurd (ha location rfl) (by rw [he]; exact Bool.noConfusion)⟩
    | false => exact ⟨fun _ => by rintro _ ⟨⟩; exact he, fun _ => rfl⟩

/-- Sound evidence of a valid path is refused only because the path is blank or the texts of its issue are too long. -/
theorem SoundEvidence.validate_iff {update : TerminalMediaEvidenceUpdate} (h : SoundEvidence lc path update)
    (hp : validNormalizedPath path = true) (hid : lc.id ∈ batch.completions.map (·.changeId)) :
    validateTerminalMediaEvidence batch false update = .ok () ↔
      BoundedIssue update.evidence.issue ∧ trimIsEmpty update.evidence.relativePath = false := by
  have hco : (batch.completions.map (·.changeId)).contains update.changeId = true := by
    rw [h.changeId]
    exact contains_iff_mem.mpr hid
  have hc : contains update.evidence.relativePath '\x00' = false ∧ contains update.evidence.relativePath '\\' = false := by
    rw [h.relativePath]
    simp only [validNormalizedPath, Bool.and_eq_true, Bool.not_eq_true', Bool.or_eq_false_iff] at hp
    exact hp.1.1.2.1
  have hi : invalidTerminalMediaEvidence update.evidence = false ↔
      BoundedIssue update.evidence.issue ∧ trimIsEmpty update.evidence.relativePath = false := by
    rw [invalidTerminalMediaEvidence, hc.1, hc.2, h.engineId, h.identity, beq_eq_false_iff_ne.mpr h.engineVersion]
    simp [BoundedIssue, and_comm, and_assoc]
  rw [← hi, validateTerminalMediaEvidence, hco]
  cases invalidTerminalMediaEvidence update.evidence with
  | true => exact ⟨fun hok => (by cases hok), fun hno => (by cases hno)⟩
  | false => exact ⟨fun _ => rfl, fun _ => rfl⟩

/-! ## The batch -/

/-- The ready changes of a pass: some of those that were leased, each prepared in an environment of its own. -/
structure ReadyChanges (env : LibraryChangeId → PreparationEnv) (leased : List LeasedLibraryChange)
    (ready : List PreparedLease) : Prop where
  sublist : (ready.map (·.leased)).Sublist leased
  clean : ∀ change ∈ ready, (env change.leased.id).Clean
  prepared : ∀ change ∈ ready, prepareChange (env change.leased.id) change.leased = .ok change.change

/-- What the lease call promises of each change it returns. -/
structure LeasedPath (rootId : String) (leased : LeasedLibraryChange) : Prop where
  rootId : leased.intent.rootId = rootId
  path : validNormalizedPath leased.intent.relativePath = true
  distinct : leased.intent.previousRelativePath ≠ some leased.intent.relativePath
  generation : leased.leaseGeneration ≠ 0

/-- Leases of a reachable queue keep the promise. -/
theorem leasePathChanges_spec {q : ChangeQueue} (hq : ReachableQueue q) {gen : LibraryRootGeneration}
    {limit : Nat} {due : List LibraryChangeId} {generation : LibraryChangeId → Nat}
    (h : lc ∈ leasePathChanges q rootId gen limit due generation) : LeasedPath rootId lc := by
  obtain ⟨r, hr, hl, rfl⟩ := mem_leasePathChanges h
  simp only [QueueRow.leasesPath, Bool.and_eq_true, beq_iff_eq, bne_iff_ne] at hl
  obtain ⟨⟨⟨⟨-, hro⟩, -⟩, hs⟩, -⟩ := hl
  have hsh := hq.shapedQueue r hr
  exact ⟨hro, hsh.paths (by rw [hs]; decide) r.intent.relativePath mem_cons_self, hsh.distinct, Nat.succ_ne_zero _⟩

section

variable {env : LibraryChangeId → PreparationEnv} {lc : List LeasedLibraryChange} {ready : List PreparedLease}
  {ctx : PassContext} {rev : Nat}

section

variable (h : ReadyChanges env lc ready)

include h

theorem ReadyChanges.mem_leased {change : PreparedLease} (hm : change ∈ ready) : change.leased ∈ lc :=
  h.sublist.subset (mem_map_of_mem hm)

variable (hl : ∀ change ∈ lc, LeasedPath rootId change)

include hl

/-- Every ready change is sound. -/
theorem ReadyChanges.sound {change : PreparedLease} (hm : change ∈ ready) :
    SoundChange change.leased change.leased.intent.relativePath 4 2 change.change :=
  prepareChange_sound (h.clean change hm) (hl _ (h.mem_leased hm)).distinct (h.prepared change hm)

/-- A batch completes what was leased. -/
theorem ReadyChanges.completion_ids : (deltaBatch ctx rev ready).completions.map (·.changeId) = ready.map (·.leased.id) := by
  rw [deltaBatch, map_map]
  exact map_congr_left fun change hm => (h.sound hl hm).changeId

/-- There is evidence for the changes that find media at their current path that can never be read. -/
theorem ReadyChanges.evidence_paths (hs : ∀ change ∈ ready, StoresChange (env change.leased.id) change.leased change.change) :
    (deltaBatch ctx rev ready).terminalMediaEvidence.map (·.evidence.relativePath) =
      (ready.filter fun change => (terminalIssue (env change.leased.id) change.leased).isSome).map
        (·.leased.intent.relativePath) := by
  have hp : ∀ change ∈ ready, ∀ update ∈ change.change.terminalMediaEvidence,
      update.evidence.relativePath = change.leased.intent.relativePath :=
    fun change hm update hu => ((h.sound hl hm).evidence update hu).relativePath
  clear h hl
  change (ready.flatMap (·.change.terminalMediaEvidence)).map (·.evidence.relativePath) = _
  induction ready with
  | nil => rfl
  | cons change ready ih =>
    have hr := ih (fun o ho => hs o (mem_cons_of_mem _ ho)) fun o ho => hp o (mem_cons_of_mem _ ho)
    have hi := (hs change mem_cons_self).issues
    have hu := hp change mem_cons_self
    rw [flatMap_cons, map_append, hr]
    cases ht : terminalIssue (env change.leased.id) change.leased with
    | none =>
      rw [ht, Option.toList_none, map_eq_nil_iff] at hi
      simp [hi, ht]
    | some issue =>
      rw [ht, Option.toList_some, map_eq_singleton_iff] at hi
      obtain ⟨update, he, -⟩ := hi
      rw [he] at hu ⊢
      simp [ht, hu update mem_cons_self]

/-- At most two mutations and one piece of evidence a change keep a batch of leases within the limits. -/
theorem ReadyChanges.counts (hle : lc.length ≤ maxLeaseBatch) (ctx : PassContext) (rev : Nat) :
    (deltaBatch ctx rev ready).completions.length ≤ maxDeltaCompletions ∧
      (deltaBatch ctx rev ready).mutations.length ≤ maxDeltaMutations ∧
      (deltaBatch ctx rev ready).terminalMediaEvidence.length ≤ maxDeltaMutations := by
  have hr : ready.length ≤ 128 := by
    have hsu := h.sublist.length_le
    rw [length_map] at hsu
    exact hsu.trans hle
  have hs : ∀ {β : Type} (f : PreparedLease → List β) (n : Nat), (∀ change ∈ ready, (f change).length ≤ n) →
      (ready.flatMap f).length ≤ ready.length * n := by
    intro β f n hn
    rw [length_flatMap]
    have hs := sum_le_card_nsmul (ready.map fun change => (f change).length) n (by simpa using hn)
    rwa [length_map] at hs
  have hm := hs (·.change.mutations) 2 fun change hme => (h.sound hl hme).mutationCount
  have he := hs (·.change.terminalMediaEvidence) 1 fun change hme => (h.sound hl hme).evidenceCount
  refine ⟨?_, ?_, ?_⟩
  · rw [deltaBatch, length_map]
    exact hr
  · exact hm.trans (Nat.mul_le_mul_right 2 hr)
  · exact he.trans ((Nat.mul_le_mul_right 1 hr).trans (by decide))

end

end

/-- The parts of the validation. -/
theorem validateDeltaBatch_ok_iff (batch : CatalogDeltaBatch) :
    validateDeltaBatch batch = .ok () ↔ validateCatalogRootId batch.rootId = .ok () ∧ batch.completions ≠ [] ∧
      batch.completions.length ≤ maxDeltaCompletions ∧ batch.mutations.length ≤ maxDeltaMutations ∧
      batch.terminalMediaEvidence.length ≤ maxDeltaMutations ∧
      ((∀ completion ∈ batch.completions, validateCompletion false completion = .ok ()) ∧
        (batch.completions.map (·.changeId)).Nodup) ∧
      (∀ mutation ∈ batch.mutations, validateMutation batch mutation = .ok ()) ∧
      (∀ update ∈ batch.terminalMediaEvidence, validateTerminalMediaEvidence batch false update = .ok ()) ∧
      (batch.terminalMediaEvidence.map (·.evidence.relativePath)).Nodup := by
  have hc : visitDistinct (·.changeId) validateCompletion [] batch.completions = .ok () ↔
      (∀ completion ∈ batch.completions, validateCompletion false completion = .ok ()) ∧
        (batch.completions.map (·.changeId)).Nodup := by
    rw [visitDistinct_ok_iff]
    · simp
    · intro completion hok
      rw [validateCompletion, Bool.or_true] at hok
      cases hok
  have he : visitDistinct (·.evidence.relativePath) (validateTerminalMediaEvidence batch) []
        batch.terminalMediaEvidence = .ok () ↔
      (∀ update ∈ batch.terminalMediaEvidence, validateTerminalMediaEvidence batch false update = .ok ()) ∧
        (batch.terminalMediaEvidence.map (·.evidence.relativePath)).Nodup := by
    rw [visitDistinct_ok_iff]
    · simp
    · intro update hok
      rw [validateTerminalMediaEvidence, Bool.or_true] at hok
      cases hok
  unfold validateDeltaBatch
  simp only [bind_unit_ok, ite_throw_bind_ok, hc, he, forM_ok_iff, Bool.or_eq_true,
    List.isEmpty_iff, decide_eq_true_eq, not_or, Nat.not_lt, ne_eq, and_assoc]

theorem validateRequest_root {policy : LibraryChangeQueuePolicy}
    (h : validateRequest rootId policy = .ok ()) : validateCatalogRootId rootId = .ok () := by
  unfold validateRequest at h
  split at h
  · cases h
  · rename_i hr
    rw [validateCatalogRootId, if_neg hr]

/-- What the paths of a ready change lead to can be stored: a media failure whose texts are bounded, and nothing at a blank
path. -/
structure Storable (env : PreparationEnv) (leased : LeasedLibraryChange) : Prop where
  issue : ∀ issue ∈ terminalIssue env leased, BoundedIssue issue ∧ trimIsEmpty leased.intent.relativePath = false
  paths : ∀ path ∈ affectedPaths leased.intent, StoresAt env leased path → trimIsEmpty path = false

/-- The mutations and the evidence of a change pass the checks exactly when what its paths lead to can be stored. -/
theorem StoresChange.valid_iff {env : PreparationEnv} {prep : PreparedChange} (h : StoresChange env lc prep)
    (hs : SoundChange lc lc.intent.relativePath 4 2 prep) (hl : LeasedPath batch.rootId lc)
    (hid : lc.id ∈ batch.completions.map (·.changeId)) :
    ((∀ mutation ∈ prep.mutations, validateMutation batch mutation = .ok ()) ∧
      ∀ update ∈ prep.terminalMediaEvidence, validateTerminalMediaEvidence batch false update = .ok ()) ↔
      Storable env lc := by
  have hm : (∀ mutation ∈ prep.mutations, validateMutation batch mutation = .ok ()) ↔
      ∀ path ∈ prep.writtenPaths, trimIsEmpty path = false := by
    simp only [PreparedChange.writtenPaths, mem_filterMap, Option.map_eq_some_iff]
    constructor
    · rintro hv _ ⟨mutation, hmu, w, hw, rfl⟩
      exact ((hs.mutations mutation hmu).validate_iff hid hl.rootId).mp (hv mutation hmu) w hw
    · intro hv mutation hmu
      exact ((hs.mutations mutation hmu).validate_iff hid hl.rootId).mpr fun w hw => hv _ ⟨mutation, hmu, w, hw, rfl⟩
  have hu : (∀ update ∈ prep.terminalMediaEvidence, validateTerminalMediaEvidence batch false update = .ok ()) ↔
      ∀ issue ∈ terminalIssue env lc, BoundedIssue issue ∧ trimIsEmpty lc.intent.relativePath = false := by
    have hi : ∀ issue, issue ∈ terminalIssue env lc ↔ issue ∈ prep.terminalMediaEvidence.map (·.evidence.issue) := by
      intro issue
      rw [h.issues, Option.mem_toList, Option.mem_def]
    have hv := fun update hu => (hs.evidence update hu).validate_iff hl.path hid
    simp only [hi, mem_map]
    constructor
    · rintro ho _ ⟨update, hu, rfl⟩
      exact (hs.evidence update hu).relativePath ▸ (hv update hu).mp (ho update hu)
    · intro ho update hu
      exact (hv update hu).mpr ((hs.evidence update hu).relativePath.symm ▸ ho _ ⟨update, hu, rfl⟩)
  rw [hm, hu]
  constructor
  · rintro ⟨hw, hi⟩
    refine ⟨hi, fun path hp hst => ?_⟩
    -- a blank path would be among the written ones, or else there would be evidence of it
    cases hb : trimIsEmpty path with
    | false => rfl
    | true =>
      rcases h.stored path hp hst hb with hmem | hmem
      · exact hb.symm.trans (hw path hmem)
      · obtain ⟨update, hup, rfl⟩ := mem_map.mp hmem
        obtain ⟨issue, hti⟩ : ∃ issue, issue ∈ terminalIssue env lc :=
          ⟨update.evidence.issue, Option.mem_toList.mp (h.issues ▸ mem_map_of_mem hup)⟩
        exact hb.symm.trans ((hs.evidence update hup).relativePath ▸ (hi issue hti).2)
  · rintro ⟨hi, hp⟩
    exact ⟨fun path hw => hp path (h.written path hw).1 (h.written path hw).2, hi⟩

/-- The delta of the ready changes of a lease passes the checks exactly when no two of the changes that find media which can
never be read are about the same path, and what each of them leads to can be stored. -/
theorem delta_batch_valid_iff {q : ChangeQueue} (hq : ReachableQueue q) (context : PassContext)
    (policy : LibraryChangeQueuePolicy) (hrequest : validateRequest context.rootId policy = .ok ())
    (limit : Nat) (hlimit : limit ≤ maxLeaseBatch) (due : List LibraryChangeId) (generation : LibraryChangeId → Nat)
    (env : LibraryChangeId → PreparationEnv) (ready : List PreparedLease) (hnonempty : ready ≠ [])
    (hready : ReadyChanges env (leasePathChanges q context.rootId context.rootGeneration limit due generation) ready)
    (revision : Nat) :
    validateDeltaBatch (deltaBatch context revision ready) = .ok () ↔
      ((ready.filter fun change => (terminalIssue (env change.leased.id) change.leased).isSome).map
          (·.leased.intent.relativePath)).Nodup ∧
        ∀ change ∈ ready, Storable (env change.leased.id) change.leased := by
  have hl : ∀ change ∈ leasePathChanges q context.rootId context.rootGeneration limit due generation,
      LeasedPath context.rootId change := fun change hm => leasePathChanges_spec hq hm
  have hle := fun change (hme : change ∈ ready) => hl _ (hready.mem_leased hme)
  have hst : ∀ change ∈ ready, StoresChange (env change.leased.id) change.leased change.change := fun change hme =>
    prepareChange_stores (hle change hme).distinct (hready.prepared change hme)
  have hva := fun change hme => @StoresChange.valid_iff _ (deltaBatch context revision ready) _ _ (hst change hme)
    (hready.sound hl hme)
    (hle change hme) (hready.completion_ids hl ▸ mem_map_of_mem hme)
  obtain ⟨hco, hmut, he⟩ :=
    hready.counts hl (leasePathChanges_length.trans hlimit) context revision
  rw [validateDeltaBatch_ok_iff, hready.evidence_paths hl hst]
  constructor
  · rintro ⟨-, -, -, -, -, -, hmuts, hups, hn⟩
    refine ⟨hn, fun change hme => (hva change hme).mp ⟨fun mutation hm => ?_, fun update hu => ?_⟩⟩
    · exact hmuts mutation (mem_flatMap.mpr ⟨change, hme, hm⟩)
    · exact hups update (mem_flatMap.mpr ⟨change, hme, hu⟩)
  · rintro ⟨hn, hb⟩
    refine ⟨validateRequest_root hrequest, ?_, hco, hmut, he, ⟨?_, ?_⟩, ?_, ?_, hn⟩
    · intro hno
      exact hnonempty (map_eq_nil_iff.mp hno)
    · intro completion hme
      obtain ⟨change, hc, rfl⟩ := mem_map.mp hme
      have hs := hready.sound hl hc
      refine validateCompletion_ok_iff.mpr ⟨?_, hs.issue⟩
      rw [hs.leaseGeneration]
      exact (hle change hc).generation
    · rw [hready.completion_ids hl]
      have hsu := hready.sublist.map (·.id)
      rw [map_map] at hsu
      exact leasePathChanges_nodup.sublist hsu
    · intro mutation hme
      obtain ⟨change, hc, hm⟩ := mem_flatMap.mp hme
      exact ((hva change hc).mpr (hb change hc)).1 mutation hm
    · intro update hme
      obtain ⟨change, hc, hu⟩ := mem_flatMap.mp hme
      exact ((hva change hc).mpr (hb change hc)).2 update hu

/-! ## Changes of two journal windows -/

/-- A file that is no image. -/
def textFile (path : String) : DiscoveredFile := ⟨"/photos/" ++ path, path, 4, none, 0, none, none, []⟩

theorem handoff_identity_of_none (_ : LibraryChangeCatchUpEvidence) (identity : FileIdentityEvidence)
    (location : AssetLocationView) (h : (none : Option AssetLocationView) = some location) :
    location.fileIdentity = some identity := by
  cases h

/-- A root in which every path leads to a file that is no image, with an empty catalog. -/
def textFiles : PreparationEnv where
  ids := .coded
  source := {
    visit := fun path =>
      .terminalMedia (textFile path) ⟨none, "media_type_unsupported", "The file is not a supported image"⟩ false
    inventoryEntry := fun _ => none
    inspect := fun _ => .error ⟨.retryable, ⟨none, "media_read_failed", "The file cannot be read"⟩⟩
    inspectionEngineId := "ame-image-inspection"
    inspectionEngineVersion := 2
    metadataEngineId := "ame-image-metadata"
    metadataEngineVersion := "1"
    found_path := by
      rintro path file ⟨⟩
      rfl
    same_identity := by
      rintro path path' file file' ⟨⟩ - ⟨⟩ }
  catalog := ⟨⟨[], 1⟩, nodup_nil, nodup_nil, by simp⟩
  handoff := fun _ _ => none
  handoff_identity := handoff_identity_of_none
  recheck := fun _ _ => none
  isWindows := false

theorem textFiles_clean : textFiles.Clean where
  engineId := by decide
  engineVersion := by decide
  found := by
    rintro path file ⟨⟩
    exact ⟨rfl, by simp [textFile]⟩
  terminalVisit := by
    rintro path file issue reportIssue ⟨⟩
    exact ⟨by decide, by decide⟩
  terminalInspection := by
    rintro file issue ⟨⟩
  inspectionIssues := by
    rintro file inspection ⟨⟩
  handoffs := by
    rintro evid ident loc ⟨⟩

/-- A change that a journal window reports. -/
def journalIntent (path : String) (sequence : Nat) : LibraryChangeIntent :=
  { sampleIntent .reconcile .path path none sequence with origin := .startupCatchUp }

/-- The journal window with a watermark. -/
def journalWindow (watermark : String) : LibraryChangeCatchUpEvidence := ⟨persistentJournalCatchUpSource, watermark⟩

/-- What `textFiles` prepares a change to. -/
def preparedText (leased : LeasedLibraryChange) : PreparedLease :=
  ⟨leased, terminalMediaChange textFiles leased (textFile leased.intent.relativePath) none
    ⟨"media_type_unsupported", "The file is not a supported image"⟩ false [], rfl⟩

/-- A queue with a change of each of two journal windows. -/
def twoWindows (path : String) : ChangeQueue where
  rows := [⟨1, journalIntent "notes.txt" 1, .pending, some (journalWindow "1"), [journalWindow "1"], none, none, false⟩,
    ⟨2, journalIntent path 2, .pending, some (journalWindow "2"), [journalWindow "2"], none, none, false⟩]
  nextId := 3
  below := by simp
  distinct := by simp

/-- The enqueues that lead to `twoWindows`. -/
def reportTwice (path : String) : List QueueAction :=
  [.enqueue (journalIntent "notes.txt" 1) { sampleContext with evidence := some (journalWindow "1") },
    .enqueue (journalIntent path 2) { sampleContext with evidence := some (journalWindow "2") }]

/-- A pass over the root of the samples. -/
def samplePass (leased : List LeasedLibraryChange) : PassContext :=
  ⟨"root", .initial, "/photos", false, ⟨"inode", "1"⟩, leased⟩

/-- The lease of both changes. -/
def leaseBoth (path : String) : List LeasedLibraryChange :=
  leasePathChanges (twoWindows path) "root" .initial 64 [1, 2] fun _ => 0

theorem preparedText_ready (h : ∀ lc ∈ leaseBoth path, prepareChange textFiles lc = .ok (preparedText lc).change) :
    ReadyChanges (fun _ => textFiles) (leaseBoth path) ((leaseBoth path).map preparedText) := by
  refine ⟨?_, fun _ _ => textFiles_clean, ?_⟩
  · rw [map_map]
    exact (map_id _).symm ▸ List.Sublist.refl _
  · intro change hm
    obtain ⟨lc, hl, rfl⟩ := mem_map.mp hm
    exact h lc hl

/-- Two files that are no images, reported by two windows: the delta is valid. -/
theorem delta_batch_valid_iff_two_files :
    validateDeltaBatch (deltaBatch (samplePass (leaseBoth "list.txt")) 7 ((leaseBoth "list.txt").map preparedText)) =
      .ok () := by
  have hr : ReachableQueue (twoWindows "list.txt") := ReachableQueue.empty.foldlM (reportTwice "list.txt") (by decide)
  have hre : ReadyChanges _ (leaseBoth "list.txt") _ := preparedText_ready (by decide +kernel)
  have hst : ∀ lc ∈ leaseBoth "list.txt",
      terminalIssue textFiles lc = some ⟨"media_type_unsupported", "The file is not a supported image"⟩ ∧
        ∀ path ∈ affectedPaths lc.intent, trimIsEmpty path = false := by decide +kernel
  refine (delta_batch_valid_iff hr (samplePass _) ⟨100⟩ (by decide) 64 (by decide) [1, 2] (fun _ => 0) _ _ (by decide)
    hre 7).mpr ⟨by decide +kernel, fun change hm => ?_⟩
  obtain ⟨lc, hl, rfl⟩ := mem_map.mp hm
  obtain ⟨hi, hp⟩ := hst lc hl
  refine ⟨fun issue ht => ?_, fun path hpa _ => hp path hpa⟩
  obtain rfl := Option.some.inj (hi.symm.trans ht)
  exact ⟨⟨by decide, by decide⟩, hp _ mem_cons_self⟩

/-- One file that is no image, reported by two windows: the delta of the two changes is refused. -/
theorem delta_batch_refused_two_windows : ReachableQueue (twoWindows "notes.txt") ∧
      ReadyChanges (fun _ => textFiles) (leasePathChanges (twoWindows "notes.txt") "root" .initial 64 [1, 2] fun _ => 0)
        ((leaseBoth "notes.txt").map preparedText) ∧
      validateDeltaBatch (deltaBatch (samplePass (leaseBoth "notes.txt")) 7 ((leaseBoth "notes.txt").map preparedText)) =
        .error ⟨"catalog_terminal_media_evidence_invalid",
          "Terminal media evidence must be bounded and belong to one completed lease"⟩ :=
  ⟨ReachableQueue.empty.foldlM (reportTwice "notes.txt") (by decide), preparedText_ready (by decide +kernel), by decide +kernel⟩

end Ame
