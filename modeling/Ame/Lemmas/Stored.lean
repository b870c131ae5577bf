import Ame.Lemmas.Halves
import Ame.Lemmas.Prepared

/-!
# What a preparation stores

Where a prepared change writes a location, and which media it reports as unreadable, follows from what was observed at its paths,
from the locations that the catalog has and from the answer of the inspector.
-/

namespace Ame

open List Result Option

/-! ## What is to be stored -/

section

variable (env : PreparationEnv) (leased : LeasedLibraryChange) (path : String) (file : DiscoveredFile)

/-- A published file is inspected, unless the evidence of the location it is compared with is retained. -/
def isInspected : Bool :=
  publishesFile env leased path file &&
    (retainedLocation env (decisionAt env leased path file) (comparedLocation env leased path file)).isNone

/-- Why the media observed at a path can never be read: the visit said so, or the inspector does. -/
def terminalIssueAt : InspectedPath → Option LibraryChangeFailure
  | .terminalMedia _ issue _ => some issue
  | .file file => if isInspected env leased path file then terminalFailure env.source file else none
  | _ => none

/-- A location is written for what was observed at a path: for a published file, or, if its media can never be read, only
where there is a location to compare it with. -/
def writesAt : InspectedPath → Bool
  | .file file => publishesFile env leased path file &&
      ((terminalIssueAt env leased path (.file file)).isNone || (comparedLocation env leased path file).isSome)
  | .terminalMedia file _ _ => (comparedLocation env leased path file).isSome
  | _ => false

/-- Why the media at the current path of a change can never be read. -/
def terminalIssue : Option LibraryChangeFailure :=
  (observation env leased leased.intent.relativePath).bind (terminalIssueAt env leased leased.intent.relativePath)

/-- A change stores a location at a path, also where the inventory spares it the visit. -/
def StoresAt : Prop := (observation env leased path).all (writesAt env leased path) = true

end

/-- The paths of the locations that a change writes. -/
def PreparedChange.writtenPaths (change : PreparedChange) : List String :=
  change.mutations.filterMap fun mutation => mutation.upsertLocation.map (·.relativePath)

variable {env : PreparationEnv} {lc : LeasedLibraryChange} {path other : String} {half prep : PreparedChange}
  {file : DiscoveredFile} {ctx : PathChangeContext} {issue : LibraryChangeFailure} {decided : DecidedPath}

/-! ## One half -/

/-- A half stores what was observed at its path, and nothing else. -/
structure StoresHalf (env : PreparationEnv) (leased : LeasedLibraryChange) (path : String) (observed : Option InspectedPath)
    (half : PreparedChange) : Prop where
  issues : half.terminalMediaEvidence.map (·.evidence.issue) = (observed.bind (terminalIssueAt env leased path)).toList
  paths : half.writtenPaths = if observed.all (writesAt env leased path) then [path] else []

/-- A change that writes a file writes at its path. -/
theorem WritesFile.writtenPaths {id : String} {rems : List String} (h : WritesFile half file id rems) :
    half.writtenPaths = [file.relativePath] := by
  obtain ⟨mutation, w, hm, hw, hp, -⟩ := h
  simp [PreparedChange.writtenPaths, hm, hw, hp]

/-- Unreadable media is written where there is a location to compare it with. -/
theorem terminalMediaChange_writtenPaths {prior : Option AssetLocationView} {report : Bool} {rems : List String}
    (h : rems ≠ [] → prior.isSome) : (terminalMediaChange env lc file prior issue report rems).writtenPaths =
      if prior.isSome then [file.relativePath] else [] := by
  have hs : _ ∨ _ ∧ WritesFile (terminalMediaChange env lc file prior issue report rems) _ _ _ :=
    terminalMediaChange_spec issue report rems
  obtain ⟨rfl, -, hm⟩ | ⟨hs, hw⟩ := hs
  · simp [PreparedChange.writtenPaths, hm]
  · rw [hw.writtenPaths, if_pos (hs.elim id h)]

/-- The half of a path stores what was observed there. -/
theorem HalfForm.stores {mayRemove : Bool} {observed : Option InspectedPath} (h : HalfForm env lc path mayRemove observed half)
    (ho : ∀ o, observed = some o → inspectPath env.source path = o) : StoresHalf env lc path observed half := by
  have hat : ∀ file, observed = some (.file file) → file.relativePath = path := fun file hf =>
    env.source.found_path path file (found_of_file (ho _ hf))
  cases h with
  | inventory own entry hown hhalf =>
    unfold metadataInventoryDirtyPathChange at hhalf
    split at hhalf
    · cases hhalf
    · obtain ⟨fileSize, -, rfl⟩ := map_eq_some_iff.mp hhalf
      exact ⟨rfl, by simp [PreparedChange.writtenPaths, (ownLocation_mem hown).2]⟩
  | absentIssue => exact ⟨rfl, rfl⟩
  | absent => exact ⟨rfl, rfl⟩
  | removed => exact ⟨rfl, rfl⟩
  | fileIssue file _ hout =>
    have hp : publishesFile env lc path file = false := by simp only [publishesFile, hout]
    exact ⟨by simp [reconciledChange, terminalIssueAt, isInspected, hp], by simp [writesAt, hp]; rfl⟩
  | kept file _ _ hp => exact ⟨by simp [reconciledChange, terminalIssueAt, isInspected, hp], by simp [writesAt, hp]; rfl⟩
  | unreadable file issue rems hp hb hre =>
    obtain ⟨hn, hi⟩ := buildLocation_terminal hb
    have ht : terminalIssueAt env lc path (.file file) = some issue := by simp [terminalIssueAt, isInspected, hp, hn, hi]
    refine ⟨by simp [terminalMediaChange, ht], ?_⟩
    rw [terminalMediaChange_writtenPaths fun hne => comparedLocation_isSome (hre.resolve_left hne ▸ hne), hat file rfl]
    simp [writesAt, hp, ht]
  | written file built id rems _ hp hb =>
    have ht : terminalIssueAt env lc path (.file file) = none := by
      refine eq_none_iff_forall_ne_some.mpr fun issue ht => ?_
      obtain ⟨hi, ht⟩ := ite_none_right_eq_some.mp ht
      simp only [isInspected, hp, Bool.true_and, isNone_iff_eq_none] at hi
      obtain ⟨facts, hm, -⟩ := bind_ok hb
      cases hm.symm.trans (mediaFacts_terminal.mpr ⟨hi, ht⟩)
    refine ⟨by simp [reconciledChange, ht], ?_⟩
    simp [PreparedChange.writtenPaths, reconciledChange, publishedMutation, writesAt, hp, ht, (buildLocation_spec hb).1,
      hat file rfl]
  | terminal file issue report =>
    refine ⟨rfl, ?_⟩
    rw [terminalMediaChange_writtenPaths comparedLocation_isSome,
      env.source.found_path path file (found_of_terminalMedia (ho _ rfl))]
    rfl

/-! ## The whole change -/

/-- A change stores what its paths ask for. A blank path is not given up for another one. -/
structure StoresChange (env : PreparationEnv) (leased : LeasedLibraryChange) (prepared : PreparedChange) : Prop where
  issues : prepared.terminalMediaEvidence.map (·.evidence.issue) = (terminalIssue env leased).toList
  written : ∀ path ∈ prepared.writtenPaths, path ∈ affectedPaths leased.intent ∧ StoresAt env leased path
  stored : ∀ path ∈ affectedPaths leased.intent, StoresAt env leased path → trimIsEmpty path = true →
    path ∈ prepared.writtenPaths ∨ path ∈ prepared.terminalMediaEvidence.map (·.evidence.relativePath)

/-- A half writes at its path or nowhere. -/
theorem StoresHalf.mem_writtenPaths (h : StoresHalf env lc path (observation env lc path) half) :
    other ∈ half.writtenPaths ↔ other = path ∧ StoresAt env lc path := by
  rw [h.paths]
  unfold StoresAt
  split <;> simp_all

/-- White space has no case. -/
theorem toLower_whitespace {c : Char} (h : isWhitespace c = true ∨ isWhitespace c.toLower = true) : c.toLower = c := by
  by_cases hu : c.val ≥ 'A'.val ∧ c.val ≤ 'Z'.val
  · exfalso
    rw [Char.toLower, dif_pos hu] at h
    simp only [isWhitespace, Char.toNat, ge_iff_le, UInt32.le_iff_toNat_le, UInt32.toNat_add, UInt32.toNat_sub] at h hu
    simp at h hu
    omega
  · exact dif_neg hu

/-- A blank path is not another spelling of a path. -/
theorem windowsCaseAlias_blank (isWindows : Bool) (h : trimIsEmpty path = true) :
    windowsCaseAlias isWindows path other = false := by
  have hfix : ∀ c : Char, isWhitespace c = true ∨ isWhitespace (if c = '\\' then '/' else c).toLower = true →
      (if c = '\\' then '/' else c).toLower = c := by
    intro c hc
    by_cases hs : c = '\\'
    · subst hs
      revert hc
      decide
    · rw [if_neg hs] at hc ⊢
      exact toLower_whitespace hc
  have hp := map_congr_left fun c hc => hfix c (.inl (all_eq_true.mp h c hc))
  unfold windowsCaseAlias equalIgnoringAsciiCase
  dsimp only
  rw [hp, List.map_id']
  cases hb : path.toList == other.toList.map fun c => (if c = '\\' then '/' else c).toLower with
  | false => simp
  | true =>
    -- every character of the other path folds to white space, so it is that white space
    rw [beq_iff_eq] at hb
    have ho := map_congr_left fun c (hc : c ∈ other.toList) =>
      hfix c (.inr (all_eq_true.mp h _ (hb ▸ mem_map_of_mem hc)))
    rw [List.map_id'] at ho
    simp [String.toList_inj.mp (hb.trans ho)]

/-- The written paths of a rename are those of its halves, where the previous one is not given up. -/
theorem joinHalves_writtenPaths (gone isAlias : Bool) (identity : Option FileIdentityEvidence)
    (prior : Option AssetLocationView) (prev cur : PreparedChange) :
    ∃ kept, (joinHalves gone isAlias identity prior prev cur).writtenPaths = kept ++ cur.writtenPaths ∧
      (kept = prev.writtenPaths ∨ kept = [] ∧ (gone = true ∨ isAlias = true)) := by
  have halso : ∀ (mutation : CatalogDeltaMutation) (own : AssetLocationView),
      (mutation.alsoRemoving own).upsertLocation = mutation.upsertLocation := by
    intro mutation own
    unfold CatalogDeltaMutation.alsoRemoving
    split <;> rfl
  refine ⟨_, filterMap_append.trans (congrArg _ ?_), ?_⟩
  · split
    · cases prior with
      | none => rfl
      | some own => simp [PreparedChange.writtenPaths, filterMap_map, halso]
    · rfl
  · split
    · rename_i hg
      refine .inr ⟨rfl, ?_⟩
      simp only [Bool.or_eq_true, Bool.and_eq_true] at hg
      exact hg.imp And.left (And.left ∘ And.left)
    · exact .inl rfl

/-- A rename stores what its two paths ask for. -/
theorem RenameForm.stores (h : RenameForm env lc prep) : StoresChange env lc prep := by
  obtain ⟨prevPath, gone, prev, cur, hp, -, -, hpf, hcf, ha, rfl⟩ := h
  have hobs : ∀ path, observation env lc path = some (inspectPath env.source path) := by
    intro path
    rw [observation, inventoryShortcut_pair (by simp [hp])]
  have hprev := hpf.stores (by rintro _ ⟨⟩; rfl)
  have hcur := hcf.stores (by rintro _ ⟨⟩; rfl)
  rw [← hobs] at hprev hcur
  obtain ⟨kept, hk, hkept⟩ := joinHalves_writtenPaths gone (windowsCaseAlias env.isWindows prevPath lc.intent.relativePath)
    (inspectPath env.source prevPath).identity (ownLocation env lc prevPath) prev cur
  refine ⟨hcur.issues, fun path hm => ?_, fun path hm hs hb => .inl ?_⟩
  · rw [hk, mem_append] at hm
    rcases hm with hm | hm
    · rcases hkept with rfl | ⟨rfl, -⟩
      · obtain ⟨rfl, hs⟩ := hprev.mem_writtenPaths.mp hm
        exact ⟨by simp [hp], hs⟩
      · cases hm
    · obtain ⟨rfl, hs⟩ := hcur.mem_writtenPaths.mp hm
      exact ⟨by simp, hs⟩
  · rw [hk, mem_append]
    rcases mem_affectedPaths.mp hm with rfl | hprevious
    · exact .inr (hcur.mem_writtenPaths.mpr ⟨rfl, hs⟩)
    · obtain rfl : prevPath = path := Option.some.inj (hp.symm.trans hprevious)
      rcases hkept with rfl | ⟨-, rfl | ha'⟩
      · exact .inl (hprev.mem_writtenPaths.mpr ⟨rfl, hs⟩)
      · -- a path that is stored is not gone
        rw [StoresAt, hobs] at hs
        cases ho : inspectPath env.source prevPath <;> rw [ho] at hs ha <;> cases ha
        cases hs
      · rw [windowsCaseAlias_blank _ hb] at ha'
        cases ha'

/-- The recheck keeps the path that a mutation writes, unless it is no image, of which there is evidence. -/
theorem recheckMutation_path (recheck : MediaAdmissionRecheck) (evid : List TerminalMediaEvidenceUpdate)
    (mutation : CatalogDeltaMutation) :
    (recheckMutation recheck evid mutation).1.upsertLocation.map (·.relativePath) =
        mutation.upsertLocation.map (·.relativePath) ∨
      (recheckMutation recheck evid mutation).1.upsertLocation = none ∧
        ∀ w ∈ mutation.upsertLocation, w.relativePath ∈ evid.map (·.evidence.relativePath) := by
  unfold recheckMutation
  split
  · exact .inl rfl
  · rename_i w hw
    split
    · split
      · exact .inl (by simp [hw])
      · exact .inl rfl
    · split
      · rename_i hn
        refine .inr ⟨rfl, fun w' hw' => ?_⟩
        obtain rfl : w = w' := Option.some.inj (hw.symm.trans hw')
        simp only [confirmedNonImage, Bool.and_eq_true, List.any_eq_true, beq_iff_eq] at hn
        obtain ⟨-, update, hu, ⟨-, hp⟩, -⟩ := hn
        exact mem_map.mpr ⟨update, hu, hp⟩
      · exact .inl rfl

/-- The recheck of a change keeps what is stored. -/
theorem StoresChange.recheck (h : StoresChange env lc prep) : StoresChange env lc (applyAdmissionRecheck env lc prep) := by
  unfold applyAdmissionRecheck
  dsimp only
  split
  · exact h
  · rename_i recheck hr
    refine ⟨h.issues, fun path hm => h.written path ?_, fun path hm hs hb => ?_⟩
    · simp only [PreparedChange.writtenPaths, mem_filterMap, List.mem_map, exists_exists_and_eq_and] at hm ⊢
      obtain ⟨mutation, hmu, hp⟩ := hm
      rcases recheckMutation_path recheck prep.terminalMediaEvidence mutation with he | ⟨he, -⟩
      · exact ⟨mutation, hmu, he ▸ hp⟩
      · simp [he] at hp
    · rcases h.stored path hm hs hb with hw | he
      · obtain ⟨mutation, hmu, hp⟩ := mem_filterMap.mp hw
        rcases recheckMutation_path recheck prep.terminalMediaEvidence mutation with he | ⟨-, he⟩
        · refine .inl (mem_filterMap.mpr ⟨_, mem_map_of_mem (mem_map_of_mem hmu), he.trans hp⟩)
        · obtain ⟨w, hup, rfl⟩ := map_eq_some_iff.mp hp
          exact .inr (he w hup)
      · exact .inr he

/-- A prepared change stores what its paths ask for. -/
theorem prepareChange_stores (hd : lc.intent.previousRelativePath ≠ some lc.intent.relativePath)
    (h : prepareChange env lc = .ok prep) : StoresChange env lc prep := by
  unfold prepareChange at h
  cases hp : preparePaths env lc with
  | error issue => rw [hp] at h; cases h
  | ok paths =>
    rw [hp] at h
    cases h
    refine StoresChange.recheck ?_
    rcases preparePaths_form (fun _ => hd) hp with ⟨hn, -, hs⟩ | hr
    · have hh := hs.stores fun o ho => observation_eq ho
      refine ⟨hh.issues, fun path hm => ?_, fun path hm hst _ => .inl ?_⟩
      · obtain ⟨rfl, hst⟩ := hh.mem_writtenPaths.mp hm
        exact ⟨by simp, hst⟩
      · simp only [mem_affectedPaths, hn, reduceCtorEq, or_false] at hm
        exact hh.mem_writtenPaths.mpr ⟨hm, hm ▸ hst⟩
    · exact hr.stores

end Ame
