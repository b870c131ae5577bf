import Ame.Lemmas.Halves

/-!
# The catalog after a path change

A change of one or two paths is prepared against a file system that stands still, and its mutations are applied. Then the
catalog should agree with what was observed: no location of the root where nothing is, and exactly one, with the state of the
file, where a readable file is.

It does not always. A file may be called unchanged because another root has a location for it at the same path; then the root's
own location is left as it was. The removal at the previous path is given up for any write at the current one, also for one
that only adds an identity and removes nothing. And a rename that only changes the case of a name leaves no location under the
old spelling, under which the file is still found.
-/

namespace Ame

open List Result Option CatalogDeltaMutation

variable {env : PreparationEnv} {leased lc : LeasedLibraryChange} {prepared prep : PreparedChange} {last : DeltaState}

/-! ## Agreement -/

section

variable (env : PreparationEnv) (leased : LeasedLibraryChange)

/-- The catalog agrees with an observation of a path. -/
def AgreesWith (rows : CatalogRows) (path : String) : InspectedPath → Prop
  | .catalogAbsent => rows.locationsAt leased.intent.rootId path = []
  | .file file => (env.source.inspect file).isOk → rows.Holds leased.intent.rootId path file.state
  | _ => True

/-- The catalog agrees with what was observed at each path of the change. -/
def CatalogAgrees (rows : CatalogRows) : Prop :=
  ∀ path ∈ affectedPaths leased.intent, ∀ observed ∈ observation env leased path, AgreesWith env leased rows path observed

/-! ## Where it fails -/

/-- The file at a path is called unchanged against a location that is not the root's own there. Only a recheck of the metadata
makes up for it, where the root has no location of its own under another identifier. -/
def JudgedByAnother (path : String) : InspectedPath → Prop
  | .file file => (env.source.inspect file).isOk ∧ presentOutcome env leased path file = .unchanged ∧
      comparedLocation env leased path file ≠ ownLocation env leased path ∧
      ¬∃ prior ∈ comparedLocation env leased path file, requiresMetadataRecheck prior leased.intent ∧
        ∀ own ∈ ownLocation env leased path, own.locationId = prior.locationId
  | _ => False

/-- Nothing is at the previous path, where the root has a location, and at the current path the root's location only lacks its
identity. -/
def DropsRemoval (previous : String) : Prop :=
  inspectPath env.source previous = .catalogAbsent ∧ (ownLocation env leased previous).isSome ∧
    ∃ file, inspectPath env.source leased.intent.relativePath = .file file ∧
      presentOutcome env leased leased.intent.relativePath file = .unchanged ∧
      identityBackfill (some file) (comparedLocation env leased leased.intent.relativePath file) = true

/-- A location is written for what was observed at the current path, if the previous one is not gone. -/
def WritesCurrent : InspectedPath → Prop
  | .file file => presentOutcome env leased leased.intent.relativePath file ≠ .unchanged ∨
      identityBackfill (some file) (comparedLocation env leased leased.intent.relativePath file) = true
  | .terminalMedia file _ _ => (comparedLocation env leased leased.intent.relativePath file).isSome
  | _ => False

/-- The paths differ in case only, and the file at both is written under the new spelling. -/
def WritesCaseAlias (previous : String) : Prop :=
  windowsCaseAlias env.isWindows previous leased.intent.relativePath = true ∧
    ∃ file, inspectPath env.source previous = .file file ∧ (env.source.inspect file).isOk ∧ file.fileIdentity.isSome ∧
      (inspectPath env.source leased.intent.relativePath).identity = file.fileIdentity ∧
      WritesCurrent env leased (inspectPath env.source leased.intent.relativePath)

/-- The change is one of those after which the catalog does not agree. -/
def Misjudged : Prop :=
  (∃ path ∈ affectedPaths leased.intent, ∃ observed ∈ observation env leased path, JudgedByAnother env leased path observed) ∨
    ∃ previous ∈ leased.intent.previousRelativePath, DropsRemoval env leased previous ∨ WritesCaseAlias env leased previous

end

/-! ## One half -/

section Half

variable {path : String} {mayRemove : Bool} {half : PreparedChange}
  {before middle after : List CatalogDeltaMutation} {first second third last : DeltaState}
  {l own : AssetLocationView} {file : DiscoveredFile} {id : String}

/-- The mutation writes the same and removes at least the same. -/
def CatalogDeltaMutation.Extends (mutation wider : CatalogDeltaMutation) : Prop :=
  wider.upsertLocation = mutation.upsertLocation ∧ ∀ id ∈ mutation.removeLocationIds, id ∈ wider.removeLocationIds

/-- The mutations of a half are applied between mutations of the other path. -/
structure AppliedHalf (env : PreparationEnv) (leased : LeasedLibraryChange) (path : String) (half : PreparedChange)
    (before middle after : List CatalogDeltaMutation) (first second third last : DeltaState) : Prop where
  start : first.rows = env.catalog.toCatalogRows
  beforeRun : before.foldlM (applyMutation leased.intent.rootId) first = .ok second
  middleRun : middle.foldlM (applyMutation leased.intent.rootId) second = .ok third
  afterRun : after.foldlM (applyMutation leased.intent.rootId) third = .ok last
  middleExtends : List.Forall₂ CatalogDeltaMutation.Extends half.mutations middle
  foreign : ∀ m ∈ before ++ after, m.ForeignTo env path
  single : leased.intent.previousRelativePath = none → before = [] ∧ middle = half.mutations ∧ after = []

theorem CatalogDeltaMutation.ForeignTo.avoids {mutation : CatalogDeltaMutation} (h : mutation.ForeignTo env path) :
    mutation.Avoids path := fun w hw => (h.writes w hw).2.1

section

variable (h : AppliedHalf env lc path half before middle after first second third last)

include h

/-- Before the half, the path has the locations of the start under their identifiers. -/
theorem AppliedHalf.own_of_mem (hl : l ∈ second.rows.locationsAt lc.intent.rootId path) :
    ∃ own ∈ ownLocation env lc path, l.locationId = own.locationId ∧ l.fileIdentity = own.fileIdentity := by
  obtain ⟨own, ho, hid⟩ := origin_of_avoids h.beforeRun (fun m hm => (h.foreign m (mem_append_left _ hm)).avoids) l hl
  rw [h.start, locationsAt_eq_toList, mem_toList] at ho
  exact ⟨own, ho, hid⟩

/-- A half without mutations changes nothing. -/
theorem AppliedHalf.middle_nil (hn : half.mutations = []) : middle = [] ∧ third = second := by
  have hm : middle = [] := by
    have he := h.middleExtends
    rw [hn] at he
    exact List.forall₂_nil_left_iff.mp he
  refine ⟨hm, ?_⟩
  have hr := h.middleRun
  rw [hm] at hr
  exact (Except.ok.inj hr).symm

/-- A half with one mutation applies a wider one. -/
theorem AppliedHalf.middle_singleton {m : CatalogDeltaMutation} (ho : half.mutations = [m]) :
    ∃ wider, middle = [wider] ∧ m.Extends wider ∧ applyMutation lc.intent.rootId second wider = .ok third := by
  have he := h.middleExtends
  rw [ho] at he
  obtain ⟨wider, rest, hw, hr, rfl⟩ := List.forall₂_cons_left_iff.mp he
  obtain rfl := List.forall₂_nil_left_iff.mp hr
  exact ⟨wider, rfl, hw, by simpa using h.middleRun⟩

/-- What is at the path in the end was there after the half. -/
theorem AppliedHalf.origin_after (hl : l ∈ last.rows.locationsAt lc.intent.rootId path) :
    ∃ l' ∈ third.rows.locationsAt lc.intent.rootId path, l.locationId = l'.locationId ∧ l.fileIdentity = l'.fileIdentity :=
  origin_of_avoids h.afterRun (fun m hm => (h.foreign m (mem_append_right _ hm)).avoids) l hl

/-- Where nothing is, nothing is left. -/
theorem AppliedHalf.absent (he : ownLocation env lc path = none ∧ half.mutations = [] ∨
      ∃ own mutation, ownLocation env lc path = some own ∧ half.mutations = [mutation] ∧
        mutation.upsertLocation = none ∧ mutation.removeLocationIds = [own.locationId]) :
    last.rows.locationsAt lc.intent.rootId path = [] := by
  have ht : third.rows.locationsAt lc.intent.rootId path = [] := by
    rcases he with ⟨ho, hn⟩ | ⟨own, m, ho, hon, hu, hi⟩
    · rw [(h.middle_nil hn).2, eq_nil_iff_forall_not_mem]
      intro l hl
      obtain ⟨own, hm, -⟩ := h.own_of_mem hl
      simp [ho] at hm
    · obtain ⟨wider, -, hwi, hap⟩ := h.middle_singleton hon
      have ha : wider.Avoids path := fun w hw => by simp [hwi.1, hu] at hw
      refine locationsAt_eq_nil_of_deletes hap ha fun l hl => ?_
      obtain ⟨own', hm, hid, -⟩ := h.own_of_mem hl
      obtain rfl : own = own' := Option.some.inj (ho ▸ hm)
      have hr := hwi.2 own.locationId (by simp [hi])
      have hro := (mem_locationsAt.mp hl).2.1
      simp [deletes, hro, hid, hr]
  rw [eq_nil_iff_forall_not_mem]
  intro l hl
  obtain ⟨l', hl', -⟩ := h.origin_after hl
  simp [ht] at hl'

/-- Where the own location is deleted, the file that is written is all there is. -/
theorem AppliedHalf.written {rems : List String} (hwr : WritesFile half file id rems)
    (hf : (env.source.visit path).found = some file)
    (hd : ∀ own ∈ ownLocation env lc path, own.locationId = id ∨ own.locationId ∈ rems)
    (hid : env.ids.IdOf path id ∨ lc.intent.previousRelativePath = none) :
    last.rows.Holds lc.intent.rootId path file.state := by
  obtain ⟨m, w, ho, hw, hp, hst, rfl, rfl⟩ := hwr
  obtain ⟨wider, hmi, hwi, ha⟩ := h.middle_singleton ho
  have hw' : wider.upsertLocation = some w := hwi.1.trans hw
  have ht : third.rows.Holds lc.intent.rootId path file.state := by
    rw [← hst]
    refine holds_of_writes ha hw' (hp.trans (env.source.found_path path file hf)) fun l hl => ?_
    obtain ⟨own, hme, hli, -⟩ := h.own_of_mem hl
    have hro := (mem_locationsAt.mp hl).2.1
    rcases hd own hme with heq | hr
    · simp [deletes, hro, hli, heq, hw']
    · simp [deletes, hro, hli, hwi.2 _ hr]
  rcases hid with hid | hs
  · refine (Settled.run h.afterRun (fun m hm => h.foreign m (mem_append_right _ hm)) hf ⟨ht, ?_⟩).holds
    obtain ⟨update, gen, -, hrow⟩ := locationsAt_of_writes ha hw' (hp.trans (env.source.found_path path file hf))
    obtain ⟨l, hl, -⟩ := ht
    intro l' hl'
    have hla : { w with rootId := lc.intent.rootId, sourceGeneration := gen } ∈
        third.rows.locationsAt lc.intent.rootId path := by simp [hrow]
    rw [hl, mem_singleton] at hl' hla
    rw [hl', ← hla]
    exact hid
  · have hru := h.afterRun
    rw [(h.single hs).2.2] at hru
    cases hru
    exact ht

/-- Where a half changes nothing and the own location has the state of the file, it keeps it. -/
theorem AppliedHalf.kept (hf : (env.source.visit path).found = some file) (hn : half.mutations = [])
    (ho : ownLocation env lc path = some own) (hsta : own.state = file.state) :
    last.rows.Holds lc.intent.rootId path file.state := by
  have hst : first.rows.Settled env lc.intent.rootId path file.state := by
    have hr : first.rows.locationsAt lc.intent.rootId path = [own] := by
      rw [h.start, locationsAt_eq_toList, ho, toList_some]
    refine ⟨⟨own, hr, hsta⟩, fun l hl => ?_⟩
    rw [hr, mem_singleton] at hl
    exact hl ▸ ownLocation_idOf ho
  have hs := Settled.run h.beforeRun (fun m hm => h.foreign m (mem_append_left _ hm)) hf hst
  rw [← (h.middle_nil hn).2] at hs
  exact (Settled.run h.afterRun (fun m hm => h.foreign m (mem_append_right _ hm)) hf hs).holds

/-- Where a half changes nothing and the own location is of another file, the catalog does not have the file. -/
theorem AppliedHalf.not_holds
    (hn : half.mutations = []) (ho : ∀ own ∈ ownLocation env lc path, own.fileIdentity ≠ file.fileIdentity) :
    ¬last.rows.Holds lc.intent.rootId path file.state := by
  rintro ⟨l, hl, hs⟩
  obtain ⟨l', hl', -, hi⟩ := h.origin_after (l := l) (by rw [hl]; exact mem_singleton_self l)
  rw [(h.middle_nil hn).2] at hl'
  obtain ⟨own, hm, -, hi'⟩ := h.own_of_mem hl'
  apply ho own hm
  rw [← hi', ← hi]
  exact congrArg FileState.fileIdentity hs

/-- Where a recheck writes beside the own location, the root has two. -/
theorem AppliedHalf.not_holds_of_second (hsi : lc.intent.previousRelativePath = none) (hwr : WritesFile half file id [])
    (hf : (env.source.visit path).found = some file) (how : ownLocation env lc path = some own)
    (hne : own.locationId ≠ id) : ¬last.rows.Holds lc.intent.rootId path file.state := by
  obtain ⟨m, w, ho, hw, hp, -, rfl, hr⟩ := hwr
  obtain ⟨hb, hm, ha⟩ := h.single hsi
  have hs := h.beforeRun
  have hmr := h.middleRun
  have hla := h.afterRun
  rw [hb] at hs
  rw [hm, ho] at hmr
  rw [ha] at hla
  cases hs
  cases hla
  have hap : applyMutation lc.intent.rootId first m = .ok third := by simpa using hmr
  obtain ⟨update, gen, -, hro⟩ :=
    locationsAt_of_writes hap hw (hp.trans (env.source.found_path path file hf))
  rw [h.start, locationsAt_eq_toList, how] at hro
  rintro ⟨l, hl, -⟩
  have hk : m.deletes lc.intent.rootId own = false := by
    simp [deletes, hr, hw, hne.symm]
  simp [hro, hk] at hl

end

/-- A kept location that the file was compared with has the file's state. -/
theorem state_of_kept (hf : (env.source.visit path).found = some file) (how : ownLocation env lc path = some own)
    (ho : (presentDecision env lc.intent file (some own)).outcome = .unchanged)
    (hb : identityBackfill (some file) (some own) = false) : own.state = file.state := by
  obtain ⟨prior, hp, hs | ⟨hn, hso, -⟩⟩ := presentDecision_unchanged ho
  · exact (Option.some.inj hp).symm ▸ hs
  · obtain rfl := Option.some.inj hp
    have hpa := (ownLocation_mem how).2.trans (env.source.found_path path file hf).symm
    simp [identityBackfill, hso, hn, hpa] at hb

/-- The catalog agrees at the path of a half, unless the file was judged by another location. -/
theorem AppliedHalf.agrees_iff (h : AppliedHalf env lc path half before middle after first second third last)
    (he : HalfEffect env lc path mayRemove half) (hro : contains lc.intent.rootId '\x00' = false)
    (hd : lc.intent.previousRelativePath ≠ some lc.intent.relativePath) :
    AgreesWith env lc last.rows path (inspectPath env.source path) ↔
      ¬JudgedByAnother env lc path (inspectPath env.source path) := by
  cases he with
  | absent hob he => simpa [hob, AgreesWith, JudgedByAnother] using h.absent he
  | terminal file issue report hob he => simp [hob, AgreesWith, JudgedByAnother]
  | present file hob he =>
    have hf := found_of_file hob
    have hid : env.ids.IdOf path (env.ids.stableLocationId lc.intent.rootId file.relativePath) :=
      ⟨_, hro, by rw [env.source.found_path path file hf]⟩
    rw [hob]
    cases he with
    | kept ho hb hr hn =>
      by_cases hown : comparedLocation env lc path file = ownLocation env lc path
      · obtain ⟨own, hp, -⟩ := presentDecision_unchanged ho
        rw [hp] at ho hb
        have hh := h.kept hf hn (hown ▸ hp) (state_of_kept hf (hown ▸ hp) ho hb)
        exact iff_of_true (fun _ => hh) fun hj => hj.2.2.1 hown
      · have hno : ¬last.rows.Holds lc.intent.rootId path file.state := by
          refine h.not_holds hn fun own hm => ?_
          have how : ownLocation env lc path = some own := hm
          rw [comparedLocation, how] at hown
          exact selectPrior_ne hown
        refine ⟨fun ha hj => hno (ha hj.1), fun hj hok => ?_⟩
        refine absurd ⟨hok, ho, hown, ?_⟩ hj
        rintro ⟨prior, hp, hre, -⟩
        rw [show comparedLocation env lc path file = some prior from hp, any_some, hre] at hr
        cases hr
    | written ho hw =>
      have hh := h.written hw hf (fun own hm => .inr (mem_halfRemovals.mpr (.inl ⟨own, hm, rfl⟩))) (.inl hid)
      exact iff_of_true (fun _ => hh) fun hj => ho hj.2.1
    | rewritten prior ho hs hwh hw =>
      by_cases hb : identityBackfill (some file) (comparedLocation env lc path file) = true
      · obtain ⟨own, hown, hc⟩ := backfill_own hf hd hb
        obtain rfl : prior = own := Option.some.inj (hs ▸ hc)
        have hh := h.written hw hf (fun own hm => .inl (by rw [Option.some.inj (hown ▸ hm : some prior = some own)]))
          (.inl (ownLocation_idOf hown))
        exact iff_of_true (fun _ => hh) fun hj => hj.2.2.1 (hc.trans hown.symm)
      · have hr := hwh.resolve_left hb
        have hsi : lc.intent.previousRelativePath = none := by
          simp only [requiresMetadataRecheck, Bool.and_eq_true, isNone_iff_eq_none] at hr
          exact hr.2
        by_cases hi : ∀ own ∈ ownLocation env lc path, own.locationId = prior.locationId
        · have hh := h.written hw hf (fun own hm => .inl (hi own hm)) (.inr hsi)
          exact iff_of_true (fun _ => hh) fun hj => hj.2.2.2 ⟨prior, hs, hr, hi⟩
        · push Not at hi
          obtain ⟨own, hm, hne⟩ := hi
          have hno := h.not_holds_of_second hsi hw hf hm hne
          refine ⟨fun ha hj => hno (ha hj.1), fun hj hok => ?_⟩
          refine absurd ⟨hok, ho, ?_, ?_⟩ hj
          · rw [hs, show ownLocation env lc path = some own from hm]
            exact fun heq => hne (by rw [Option.some.inj heq])
          · rintro ⟨prior', hp', -, hal⟩
            obtain rfl : prior = prior' := Option.some.inj (hs ▸ hp')
            exact hne (hal own hm)

end Half

/-! ## Two halves -/

section Pair

variable {prevPath : String} {gone : Bool} {previous prev cur : PreparedChange}
  {half : PreparedChange} {file : DiscoveredFile} {path : String}

/-- Whether a half writes, and the identity of the file it writes. -/
theorem WritesFile.identity {id : String} {rems : List String}
    (h : WritesFile half file id rems) : half.mutations.any (·.upsertLocation.isSome) = true ∧
      (half.mutations.findSome? (·.upsertLocation)).bind (·.fileIdentity) = file.fileIdentity := by
  obtain ⟨m, w, hm, hw, -, hs, -⟩ := h
  have hi : w.fileIdentity = file.fileIdentity := congrArg FileState.fileIdentity hs
  simp [hm, hw, hi]

/-- What the current half writes is the file that was observed. -/
theorem HalfEffect.identity (h : HalfEffect env lc path gone half) : half.mutations.any (·.upsertLocation.isSome) = false ∧
        (half.mutations.findSome? (·.upsertLocation)).bind (·.fileIdentity) = none ∨
      half.mutations.any (·.upsertLocation.isSome) = true ∧
        (half.mutations.findSome? (·.upsertLocation)).bind (·.fileIdentity) = (inspectPath env.source path).identity := by
  cases h with
  | absent ho he =>
    rcases he with ⟨-, hm⟩ | ⟨own, m, -, hm, hn, -⟩
    · simp [hm]
    · simp [hm, hn]
  | present file ho he =>
    rw [ho]
    cases he with
    | kept _ _ _ hm => simp [hm]
    | rewritten prior _ _ _ hw => exact .inr hw.identity
    | written _ hw => exact .inr hw.identity
  | terminal file issue report ho he =>
    rw [ho]
    rcases he with ⟨-, -, hm⟩ | ⟨-, hw⟩
    · simp [hm]
    · exact .inr hw.identity

/-- When the previous path is not gone, the current half writes as `WritesCurrent` says. -/
theorem HalfEffect.writes_iff (h : HalfEffect env lc lc.intent.relativePath false cur)
    (hp : lc.intent.previousRelativePath.isSome) :
    cur.mutations.any (·.upsertLocation.isSome) = true ↔
      WritesCurrent env lc (inspectPath env.source lc.intent.relativePath) := by
  cases h with
  | absent ho he =>
    rw [ho]
    rcases he with ⟨-, hm⟩ | ⟨own, m, -, hm, hn, -⟩
    · simp [hm, WritesCurrent]
    · simp [hm, hn, WritesCurrent]
  | present file ho he =>
    rw [ho]
    cases he with
    | kept hou hb _ hm => simp [hm, WritesCurrent, presentOutcome, hou, hb]
    | rewritten prior _ _ hwh hw =>
      refine iff_of_true hw.identity.1 (.inr (hwh.resolve_right fun hr => ?_))
      simp only [requiresMetadataRecheck, Bool.and_eq_true, isNone_iff_eq_none] at hr
      simp [hr.2] at hp
    | written hou hw => exact iff_of_true hw.identity.1 (.inl hou)
  | terminal file issue report ho he =>
    rw [ho]
    rcases he with ⟨hn, -, hm⟩ | ⟨hs, hw⟩
    · simp [hm, WritesCurrent, hn]
    · refine iff_of_true hw.identity.1 ?_
      rcases hs with hs | hre
      · exact hs
      · exact comparedLocation_isSome hre

/-- The two halves of a rename. -/
structure Halves (env : PreparationEnv) (leased : LeasedLibraryChange) (previousPath : String) (isAbsent : Bool)
    (previous current : PreparedChange) : Prop where
  named : leased.intent.previousRelativePath = some previousPath
  distinct : leased.intent.previousRelativePath ≠ some leased.intent.relativePath
  root : contains leased.intent.rootId '\x00' = false
  previousEffect : HalfEffect env leased previousPath false previous
  currentEffect : HalfEffect env leased leased.intent.relativePath isAbsent current
  absence : (inspectPath env.source previousPath).isAbsent = .ok isAbsent

section

variable (h : Halves env lc prevPath gone previous cur)

include h

theorem Halves.pair : lc.intent.previousRelativePath.isSome := by simp [h.named]

theorem Halves.ne : prevPath ≠ lc.intent.relativePath := fun heq => h.distinct (heq ▸ h.named)

/-- The previous path is gone. -/
theorem Halves.absent_iff : gone = true ↔ inspectPath env.source prevPath = .catalogAbsent := by
  have ha := h.absence
  cases ho : inspectPath env.source prevPath <;> rw [ho] at ha <;> cases ha <;> simp

end

/-- A mutation that removes one more. -/
theorem extends_alsoRemoving (mutation : CatalogDeltaMutation) (prior : AssetLocationView) :
    mutation.Extends (mutation.alsoRemoving prior) := by
  unfold alsoRemoving
  split
  · refine ⟨rfl, fun id hid => ?_⟩
    unfold pushUnique
    split
    · exact hid
    · exact mem_append_left _ hid
  · exact ⟨rfl, fun _ h => h⟩

theorem extends_refl (muts : List CatalogDeltaMutation) : List.Forall₂ CatalogDeltaMutation.Extends muts muts :=
  List.forall₂_same.mpr fun _ _ => ⟨rfl, fun _ h => h⟩

/-- The two files are one under two spellings, and the new one is written. -/
def samePhysicalFile (env : PreparationEnv) (leased : LeasedLibraryChange) (previousPath : String) (current : PreparedChange) :
    Bool :=
  windowsCaseAlias env.isWindows previousPath leased.intent.relativePath &&
    (inspectPath env.source previousPath).identity.isSome &&
    (inspectPath env.source previousPath).identity == (current.mutations.findSome? (·.upsertLocation)).bind (·.fileIdentity)

/-- The mutations of the current half, widened for two spellings of one file. -/
def widened (own : Option AssetLocationView) (current : PreparedChange) : List CatalogDeltaMutation :=
  own.elim current.mutations fun prior => current.mutations.map (·.alsoRemoving prior)

theorem extends_widened (own : Option AssetLocationView) (cur : PreparedChange) :
    List.Forall₂ CatalogDeltaMutation.Extends cur.mutations (widened own cur) := by
  cases own with
  | none => exact extends_refl _
  | some prior =>
    rw [widened, elim_some, List.forall₂_map_right_iff]
    exact List.forall₂_same.mpr fun m _ => extends_alsoRemoving m prior

/-- The mutations of a joined change, in its three cases. -/
theorem joinHalves_mutations (h : Halves env lc prevPath gone prev cur) :
    let joined := (joinHalves gone (windowsCaseAlias env.isWindows prevPath lc.intent.relativePath)
      (inspectPath env.source prevPath).identity (ownLocation env lc prevPath) prev cur).mutations
    samePhysicalFile env lc prevPath cur = true ∧ gone = false ∧ joined = widened (ownLocation env lc prevPath) cur ∨
      samePhysicalFile env lc prevPath cur = false ∧
        ((gone && cur.mutations.any (·.upsertLocation.isSome)) = true ∧ joined = cur.mutations ∨
          (gone && cur.mutations.any (·.upsertLocation.isSome)) = false ∧ joined = prev.mutations ++ cur.mutations) := by
  intro joined
  cases hs : samePhysicalFile env lc prevPath cur with
  | true =>
    have hg : gone = false := by
      cases hb : gone with
      | false => rfl
      | true =>
        simp [samePhysicalFile, h.absent_iff.mp hb, InspectedPath.identity] at hs
    refine .inl ⟨rfl, hg, ?_⟩
    rw [samePhysicalFile] at hs
    simp only [joined, joinHalves, hs, Bool.or_true, if_true, nil_append, widened]
  | false =>
    rw [samePhysicalFile] at hs
    refine .inr ⟨rfl, ?_⟩
    cases hc : gone && cur.mutations.any (·.upsertLocation.isSome) with
    | true =>
      exact .inl ⟨rfl, by simp only [joined, joinHalves, hs, hc, Bool.or_false, if_true, nil_append,
        Bool.false_eq_true, if_false]⟩
    | false =>
      exact .inr ⟨rfl, by simp only [joined, joinHalves, hs, hc, Bool.or_false, Bool.false_eq_true, if_false]⟩

/-- The start of a publication. -/
def start (env : PreparationEnv) : DeltaState := ⟨env.catalog.toCatalogRows, []⟩

section

variable (h : Halves env lc prevPath gone previous cur)

include h

/-- The current path agrees, unless its file was judged by another location. -/
theorem Halves.current_agrees_iff (hr : (joinHalves gone (windowsCaseAlias env.isWindows prevPath lc.intent.relativePath)
      (inspectPath env.source prevPath).identity (ownLocation env lc prevPath) previous cur).mutations.foldlM
        (applyMutation lc.intent.rootId) (start env) = .ok last) :
    AgreesWith env lc last.rows lc.intent.relativePath (inspectPath env.source lc.intent.relativePath) ↔
      ¬JudgedByAnother env lc lc.intent.relativePath (inspectPath env.source lc.intent.relativePath) := by
  have hn : lc.intent.previousRelativePath ≠ none := by simp [h.named]
  have alone : ∀ {middle : List CatalogDeltaMutation}, List.Forall₂ CatalogDeltaMutation.Extends cur.mutations middle →
      middle.foldlM (applyMutation lc.intent.rootId) (start env) = .ok last →
      AppliedHalf env lc lc.intent.relativePath cur [] middle [] (start env) (start env) last last :=
    fun he hm => ⟨rfl, rfl, hm, rfl, he, by simp, fun hno => absurd hno hn⟩
  rcases joinHalves_mutations h with ⟨-, -, hj⟩ | ⟨-, ⟨-, hj⟩ | ⟨-, hj⟩⟩ <;> rw [hj] at hr
  · exact (alone (extends_widened _ _) hr).agrees_iff h.currentEffect h.root h.distinct
  · exact (alone (extends_refl _) hr).agrees_iff h.currentEffect h.root h.distinct
  · rw [foldlM_append] at hr
    obtain ⟨middle, hp, hc⟩ := bind_ok hr
    have hf := h.previousEffect.foreign h.root h.pair h.distinct (.inl rfl) h.ne.symm
    have ha : AppliedHalf env lc lc.intent.relativePath cur previous.mutations cur.mutations [] (start env) middle last last :=
      ⟨rfl, hp, hc, rfl, extends_refl _, by simpa using hf, fun hno => absurd hno hn⟩
    exact ha.agrees_iff h.currentEffect h.root h.distinct

/-- A removal is dropped only for a write of the current half, which then removes nothing. -/
theorem Halves.writes_of_dropsRemoval (hd : DropsRemoval env lc prevPath) :
    gone = true ∧ ∃ file own, ownLocation env lc lc.intent.relativePath = some own ∧ WritesFile cur file own.locationId [] := by
  obtain ⟨ha, -, file, hf, hou, hb⟩ := hd
  refine ⟨h.absent_iff.mpr ha, ?_⟩
  cases h.currentEffect with
  | absent ho _ => simp [hf] at ho
  | terminal _ _ _ ho _ => simp [hf] at ho
  | present file' ho he =>
    obtain rfl : file = file' := by simpa [hf] using ho
    cases he with
    | kept _ hn _ _ => simp [hb] at hn
    | written hn _ => exact absurd hou hn
    | rewritten prior _ hs _ hw =>
      obtain ⟨own, how, hc⟩ := backfill_own (found_of_file hf) h.distinct hb
      obtain rfl : prior = own := Option.some.inj (hs ▸ hc)
      exact ⟨file, prior, how, hw⟩

/-- A file that is written under a new spelling is recognised as the one under the old. -/
theorem Halves.same_of_alias (ha : WritesCaseAlias env lc prevPath) : samePhysicalFile env lc prevPath cur = true := by
  obtain ⟨hca, file, hf, -, hs, hi, hwr⟩ := ha
  have hpr : gone = false := by
    cases hb : gone with
    | false => rfl
    | true => simp [h.absent_iff.mp hb] at hf
  subst hpr
  have hw := (h.currentEffect.writes_iff h.pair).mpr hwr
  rcases h.currentEffect.identity with ⟨hn, -⟩ | ⟨-, hc⟩
  · simp [hw] at hn
  · have hp : (inspectPath env.source prevPath).identity = file.fileIdentity := by
      rw [hf]
      rfl
    simp [samePhysicalFile, hca, hp, hs, hc, hi]

end

/-- A file that is recognised under its old spelling, and read there, is written under the new one. -/
theorem Halves.alias_of_same (h : Halves env lc prevPath false prev cur) (hs : samePhysicalFile env lc prevPath cur = true)
    (hf : inspectPath env.source prevPath = .file file) (hok : (env.source.inspect file).isOk) :
    WritesCaseAlias env lc prevPath := by
  simp only [samePhysicalFile, hf, InspectedPath.identity, Bool.and_eq_true, beq_iff_eq] at hs
  obtain ⟨⟨hca, hso⟩, hi⟩ := hs
  rcases h.currentEffect.identity with ⟨-, hn⟩ | ⟨hw, hc⟩
  · simp [hi, hn] at hso
  · exact ⟨hca, file, hf, hok, hso, by rw [hi, hc], (h.currentEffect.writes_iff h.pair).mp hw⟩

/-- What a half writes, it writes in one mutation. -/
theorem HalfEffect.single_of_writes (h : HalfEffect env lc path gone half)
    (hw : half.mutations.any (·.upsertLocation.isSome) = true) : ∃ m, half.mutations = [m] ∧ m.upsertLocation.isSome := by
  have one : ∀ {m : CatalogDeltaMutation}, half.mutations = [m] → ∃ m, half.mutations = [m] ∧ m.upsertLocation.isSome :=
    fun hm => ⟨_, hm, by simpa [hm] using hw⟩
  cases h with
  | absent _ he =>
    rcases he with ⟨-, hm⟩ | ⟨own, m, -, hm, -⟩
    · simp [hm] at hw
    · exact one hm
  | present _ _ he =>
    cases he with
    | kept _ _ _ hm => simp [hm] at hw
    | rewritten _ _ _ _ hf => exact one hf.choose_spec.choose_spec.1
    | written _ hf => exact one hf.choose_spec.choose_spec.1
  | terminal _ _ _ _ he =>
    rcases he with ⟨-, -, hm⟩ | ⟨-, hf⟩
    · simp [hm] at hw
    · exact one hf.choose_spec.choose_spec.1

/-- The own location of a path is the only one there at the start. -/
theorem own_of_mem_start {l : AssetLocationView}
    (hl : l ∈ (start env).rows.locationsAt lc.intent.rootId path) : ownLocation env lc path = some l := by
  rwa [start, locationsAt_eq_toList, mem_toList] at hl

/-- Under two spellings of one file, nothing is left under the old one. -/
theorem Halves.same_previous (h : Halves env lc prevPath false prev cur) (hs : samePhysicalFile env lc prevPath cur = true)
    (hru : (widened (ownLocation env lc prevPath) cur).foldlM (applyMutation lc.intent.rootId) (start env) = .ok last) :
    last.rows.locationsAt lc.intent.rootId prevPath = [] := by
  have hwr : cur.mutations.any (·.upsertLocation.isSome) = true := by
    rcases h.currentEffect.identity with ⟨-, hn⟩ | ⟨hwr, -⟩
    · simp only [samePhysicalFile, hn, Bool.and_eq_true, beq_iff_eq] at hs
      simp [hs.2] at hs
    · exact hwr
  have ha := h.currentEffect.avoids h.ne
  obtain ⟨m, hm, hso⟩ := h.currentEffect.single_of_writes hwr
  cases ho : ownLocation env lc prevPath with
  | none =>
    rw [ho] at hru
    rw [eq_nil_iff_forall_not_mem]
    intro l hl
    obtain ⟨l', hl', -⟩ := origin_of_avoids hru ha l hl
    simp [own_of_mem_start hl'] at ho
  | some prior =>
    rw [ho, widened, hm] at hru
    have hap : applyMutation lc.intent.rootId (start env) (m.alsoRemoving prior) = .ok last := by simpa using hru
    have hu := (extends_alsoRemoving m prior).1
    refine locationsAt_eq_nil_of_deletes hap (fun w hw => ha m (by simp [hm]) w (hu ▸ hw)) fun l hl => ?_
    obtain rfl : prior = l := Option.some.inj (ho ▸ own_of_mem_start hl)
    have hr : prior.locationId ∈ (m.alsoRemoving prior).removeLocationIds := by
      simp only [alsoRemoving, hso, if_true, pushUnique]
      split <;> simp_all
    simp [deletes, (mem_locationsAt.mp hl).2.1, hr]

/-- Where the removal was given up for a write, it is missed only if the write removes nothing. -/
theorem Halves.cleared_previous (h : Halves env lc prevPath true prev cur)
    (hwr : cur.mutations.any (·.upsertLocation.isSome) = true)
    (hru : cur.mutations.foldlM (applyMutation lc.intent.rootId) (start env) = .ok last) :
    last.rows.locationsAt lc.intent.rootId prevPath = [] ↔ ¬DropsRemoval env lc prevPath := by
  have hab := h.absent_iff.mp rfl
  have hav := h.currentEffect.avoids h.ne
  obtain ⟨m, hm, hso⟩ := h.currentEffect.single_of_writes hwr
  have ha : applyMutation lc.intent.rootId (start env) m = .ok last := by simpa [hm] using hru
  have hma := hav m (by simp [hm])
  cases hown : ownLocation env lc prevPath with
  | none =>
    refine iff_of_true ?_ fun ⟨_, how, _⟩ => by simp [hown] at how
    refine locationsAt_eq_nil_of_deletes ha hma fun l hl => ?_
    simp [own_of_mem_start hl] at hown
  | some prior =>
    constructor
    · intro hni hd
      obtain ⟨-, file, own, hc, m', w, hm', hw, -, -, hid, hr⟩ := h.writes_of_dropsRemoval hd
      obtain rfl : m = m' := by simpa [hm] using hm'
      obtain ⟨update, -, hro⟩ := locationsAt_of_avoids ha hma
      have hne : own.locationId ≠ prior.locationId := fun heq =>
        h.ne ((ownLocation_idOf hown).unique (heq ▸ ownLocation_idOf hc))
      have hk : m.deletes lc.intent.rootId prior = false := by
        simp [deletes, hr, hw, hid, hne]
      have hs : (start env).rows.locationsAt lc.intent.rootId prevPath = [prior] := by
        rw [start, locationsAt_eq_toList, hown, toList_some]
      simp [hro, hs, hk] at hni
    · intro hd
      refine locationsAt_eq_nil_of_deletes ha hma fun l hl => ?_
      obtain rfl : prior = l := Option.some.inj (hown ▸ own_of_mem_start hl)
      have hr : prior.locationId ∈ halfRemovals env lc lc.intent.relativePath true :=
        mem_halfRemovals.mpr (.inr ⟨rfl, prior, by simp [candidateFor, h.named, hown], rfl⟩)
      have ofWrites : ∀ {file : DiscoveredFile} {id : String},
          WritesFile cur file id (halfRemovals env lc lc.intent.relativePath true) →
          m.deletes lc.intent.rootId prior = true := by
        rintro file id ⟨m', w, hm', -, -, -, -, hi⟩
        obtain rfl : m = m' := by simpa [hm] using hm'
        simp [deletes, (mem_locationsAt.mp hl).2.1, hi, hr]
      cases h.currentEffect with
      | absent _ he =>
        rcases he with ⟨-, hn⟩ | ⟨own, m', -, hm', hn, -⟩
        · simp [hn] at hm
        · simp [hm', hn] at hwr
      | terminal _ _ _ _ he =>
        rcases he with ⟨-, -, hn⟩ | ⟨-, hf⟩
        · simp [hn] at hm
        · exact ofWrites hf
      | present file ho he =>
        cases he with
        | kept _ _ _ hn => simp [hn] at hm
        | written _ hf => exact ofWrites hf
        | rewritten prior' hou _ hwh _ =>
          refine absurd ⟨hab, by simp [hown], file, ho, hou, hwh.resolve_right fun hre => ?_⟩ hd
          simp only [requiresMetadataRecheck, Bool.and_eq_true, isNone_iff_eq_none] at hre
          simp [h.named] at hre

/-- The previous path agrees, unless its file was judged by another location, its removal was dropped, or its file was written
under another spelling. -/
theorem Halves.previous_agrees_iff (h : Halves env lc prevPath gone prev cur)
    (hr : (joinHalves gone (windowsCaseAlias env.isWindows prevPath lc.intent.relativePath)
      (inspectPath env.source prevPath).identity (ownLocation env lc prevPath) prev cur).mutations.foldlM
        (applyMutation lc.intent.rootId) (start env) = .ok last) :
    AgreesWith env lc last.rows prevPath (inspectPath env.source prevPath) ↔
      ¬(JudgedByAnother env lc prevPath (inspectPath env.source prevPath) ∨
        DropsRemoval env lc prevPath ∨ WritesCaseAlias env lc prevPath) := by
  rcases joinHalves_mutations h with ⟨hs, hg, hj⟩ | ⟨hs, ⟨hc, hj⟩ | ⟨hc, hj⟩⟩ <;>
    rw [hj] at hr
  · -- one file under two spellings: the old one loses its location
    subst hg
    have hni := h.same_previous hs hr
    have hnd : ¬DropsRemoval env lc prevPath := fun hd => by
      simpa using (h.writes_of_dropsRemoval hd).1
    cases ho : inspectPath env.source prevPath with
    | catalogAbsent => simpa using h.absent_iff.mpr ho
    | file file =>
      by_cases hok : (env.source.inspect file).isOk = true
      · refine iff_of_false (fun hag => ?_) fun hn => hn (.inr (.inr (h.alias_of_same hs ho hok)))
        obtain ⟨l, hl, -⟩ := hag hok
        simp [hni] at hl
      · have hna : ¬WritesCaseAlias env lc prevPath := by
          rintro ⟨-, file', hf', hok', -⟩
          obtain rfl : file = file' := by simpa [ho] using hf'
          exact hok hok'
        simp [AgreesWith, JudgedByAnother, hok, hnd, hna]
    | _ => simp [AgreesWith, JudgedByAnother, hnd, WritesCaseAlias, ho]
  · -- the previous path is gone and the current half writes
    rw [Bool.and_eq_true] at hc
    obtain ⟨rfl, hw⟩ := hc
    have ha := h.absent_iff.mp rfl
    rw [ha]
    have hna : ¬WritesCaseAlias env lc prevPath := fun ⟨_, file, hfi, _⟩ => by simp [ha] at hfi
    simpa [AgreesWith, JudgedByAnother, hna] using h.cleared_previous hw hr
  · -- both halves are applied
    rw [foldlM_append] at hr
    obtain ⟨middle, hp, hcu⟩ := bind_ok hr
    have hk : gone = false ∨ ∀ m ∈ cur.mutations, m.upsertLocation = none := by
      rw [Bool.and_eq_false_iff] at hc
      exact hc.imp_right fun hn m hm => by simpa using any_eq_false.mp hn m hm
    have hf := h.currentEffect.foreign h.root h.pair h.distinct hk h.ne
    have hap : AppliedHalf env lc prevPath prev [] prev.mutations cur.mutations (start env) (start env) middle last :=
      ⟨rfl, rfl, hp, hcu, extends_refl _, by simpa using hf, fun hn => by simp [h.named] at hn⟩
    have hna : ¬WritesCaseAlias env lc prevPath := fun hal => by simp [h.same_of_alias hal] at hs
    have hnd : ¬DropsRemoval env lc prevPath := fun hd => by
      obtain ⟨rfl, file, own, -, hw⟩ := h.writes_of_dropsRemoval hd
      simp [hw.identity.1] at hc
    rw [hap.agrees_iff h.previousEffect h.root h.distinct]
    simp [hna, hnd]

end Pair

/-! ## The change -/

/-- After a change of one path. -/
theorem single_agrees_iff (hsi : lc.intent.previousRelativePath = none) (hr : contains lc.intent.rootId '\x00' = false)
    (hf : HalfForm env lc lc.intent.relativePath false (observation env lc lc.intent.relativePath) prep)
    (hi : prep.completion.issue = none)
    (hru : prep.mutations.foldlM (applyMutation lc.intent.rootId) (start env) = .ok last) :
    CatalogAgrees env lc last.rows ↔ ¬Misjudged env lc := by
  simp only [CatalogAgrees, Misjudged, affectedPaths, hsi, toList_none, mem_singleton, forall_eq,
    exists_eq_left, not_mem_none, false_and, exists_const, or_false]
  cases ho : observation env lc lc.intent.relativePath with
  | none => simp
  | some observed =>
    obtain rfl := observation_eq ho
    rw [ho] at hf
    have ha : AppliedHalf env lc lc.intent.relativePath prep [] prep.mutations [] (start env) (start env) last last :=
      ⟨rfl, rfl, hru, rfl, extends_refl _, by simp, fun _ => ⟨rfl, rfl, rfl⟩⟩
    simpa using ha.agrees_iff (hf.effect hi) hr (by simp [hsi])

/-- After a change of two paths. -/
theorem RenameForm.agrees_iff (hp : RenameForm env lc prep) (hi : prep.completion.issue = none)
    (hru : prep.mutations.foldlM (applyMutation lc.intent.rootId) (start env) = .ok last) :
    CatalogAgrees env lc last.rows ↔ ¬Misjudged env lc := by
  obtain ⟨prevPath, gone, prev, cur, hn, hne, hr, hpr, hc, ha, rfl⟩ := hp
  simp only [joinHalves, orElse_eq_orElse, orElse_eq_or, or_eq_none_iff] at hi
  have h : Halves env lc prevPath gone prev cur := ⟨hn, by simpa [hn] using hne, hr, hpr.effect hi.1, hc.effect hi.2, ha⟩
  have ho : ∀ path, observation env lc path = some (inspectPath env.source path) := by
    intro path
    rw [observation, inventoryShortcut_pair h.pair]
  have hci := h.current_agrees_iff hru
  have hpi := h.previous_agrees_iff hru
  simp only [CatalogAgrees, Misjudged, affectedPaths, hn, toList_some, mem_cons, not_mem_nil, or_false,
    forall_eq_or_imp, forall_eq, exists_eq_or_imp, exists_eq_left, ho, mem_def, Option.some.injEq,
    forall_eq', exists_eq_left']
  tauto

/-- The paths of a valid change of two paths differ. -/
theorem distinct_of_shapeIsValid {intent : LibraryChangeIntent} (h : shapeIsValid intent = true)
    (hs : intent.scope = .path) : intent.previousRelativePath ≠ some intent.relativePath := by
  intro hsa
  unfold shapeIsValid at h
  cases hk : intent.kind <;> simp [hk, hs, hsa] at h

/-- After a valid change was prepared without an issue and its mutations were applied, the catalog agrees with the file system
exactly if the change is not misjudged. -/
theorem catalog_agrees_iff (env : PreparationEnv) (leased : LeasedLibraryChange) (hvalid : shapeIsValid leased.intent = true)
    {prepared : PreparedChange} (hprepared : preparePaths env leased = .ok prepared)
    (hissue : prepared.completion.issue = none) {rows : CatalogRows}
    (happlied : applyMutations env.catalog.toCatalogRows leased.intent.rootId prepared.mutations = .ok rows) :
    CatalogAgrees env leased rows ↔ ¬Misjudged env leased := by
  obtain ⟨last, hr, rfl⟩ : ∃ last, prepared.mutations.foldlM (applyMutation leased.intent.rootId) (start env) = .ok last ∧
      last.rows = rows := by
    unfold applyMutations at happlied
    cases hr : prepared.mutations.foldlM (applyMutation leased.intent.rootId) (start env) with
    | error e =>
      rw [start] at hr
      simp [hr, Except.map] at happlied
    | ok last =>
      rw [start] at hr
      rw [hr] at happlied
      exact ⟨last, rfl, Except.ok.inj happlied⟩
  rcases preparePaths_form (distinct_of_shapeIsValid hvalid) hprepared with ⟨hs, hro, hf⟩ | hf
  · exact single_agrees_iff hs hro hf hissue hr
  · exact hf.agrees_iff hissue hr

/-! ## A photo with two links -/

/-- The photo: one file with two links, in two roots. -/
def linkedPhoto : DiscoveredFile where
  absolutePath := "b/photo.jpg"
  relativePath := "photo.jpg"
  fileSize := 1
  createdUnixMs := none
  modifiedUnixMs := 0
  fileIdentity := some ⟨"file-id", "1"⟩
  sourceRevision := some ⟨"windows-file-change-time-100ns-v1", "0000000000000001"⟩
  issues := []

/-- A location of the photo. -/
def linkedLocation (rootId path : String) : AssetLocationView where
  assetId := "asset"
  locationId := StableIds.coded.stableLocationId rootId path
  rootId := rootId
  absolutePath := rootId ++ "/" ++ path
  relativePath := path
  previewPath := ""
  fileSize := 1
  createdUnixMs := none
  modifiedUnixMs := 0
  fileIdentity := some ⟨"file-id", "1"⟩
  sourceRevision := some ⟨"windows-file-change-time-100ns-v1", "0000000000000001"⟩
  sourceGeneration := 1
  width := 1
  height := 1
  previewStatus := .pending
  previewIssueCode := none
  previewIssueMessage := none
  metadataEngineId := "metadata"
  metadataEngineVersion := "1"
  camera := {}
  captureTime := none

/-- Only the photo is found. -/
def linkedVisit (path : String) : FileVisitOutcome :=
  if path = "photo.jpg" then .file linkedPhoto else .issue ⟨none, "file_missing", "missing"⟩

theorem linkedVisit_found {path : String} {file : DiscoveredFile} (h : (linkedVisit path).found = some file) :
    path = "photo.jpg" ∧ file = linkedPhoto := by
  unfold linkedVisit at h
  split at h
  · exact ⟨‹_›, (Option.some.inj h).symm⟩
  · cases h

/-- The photo can be read. -/
def linkedSource : PublicationSource where
  visit := linkedVisit
  inventoryEntry _ := none
  inspect _ := .ok ⟨1, 1, "metadata", "1", {}, none, []⟩
  inspectionEngineId := "inspection"
  inspectionEngineVersion := 1
  metadataEngineId := "metadata"
  metadataEngineVersion := "1"
  found_path path file h := by
    obtain ⟨rfl, rfl⟩ := linkedVisit_found h
    rfl
  same_identity path path' file file' h h' _ _ := by rw [(linkedVisit_found h).2, (linkedVisit_found h').2]

/-- The photo is known as `photo.jpg` of root `a` and under its old name in root `b`. -/
def linkedEnv : PreparationEnv where
  ids := .coded
  source := linkedSource
  catalog :=
    { locations := [linkedLocation "a" "photo.jpg", linkedLocation "b" "old.jpg"]
      nextSourceGeneration := 2
      distinctIds := by decide
      distinctPaths := by decide
      stable := by
        intro location hlocation
        rcases mem_cons.mp hlocation with rfl | hlocation
        · exact ⟨"a", by decide, rfl⟩
        · obtain rfl := mem_singleton.mp hlocation
          exact ⟨"b", by decide, rfl⟩ }
  handoff _ _ := none
  handoff_identity _ _ _ h := by cases h
  recheck _ _ := none
  isWindows := true

/-- A change of the photo in root `b`. -/
def linkedChange (kind : LibraryChangeIntentKind) (previous : Option String) : LeasedLibraryChange where
  id := 1
  intent :=
    { rootId := "b", rootGeneration := .initial, kind := kind, scope := .path, relativePath := "photo.jpg"
      previousRelativePath := previous, origin := .liveNotification, firstObservedUnixMs := 0
      mostRecentObservedUnixMs := 0, firstSequence := 1, mostRecentSequence := 1, coalescedObservationCount := 1 }
  catchUpSource := none
  catchUpWatermark := none
  catchUpLineage := []
  leaseGeneration := 1

/-- The mutations of a change, applied to the catalog it was prepared with; nothing, if it has an issue. -/
def publishedRows (env : PreparationEnv) (leased : LeasedLibraryChange) : Option CatalogRows := do
  let prepared ← (preparePaths env leased).toOption
  if prepared.completion.issue = none then
    (applyMutations env.catalog.toCatalogRows leased.intent.rootId prepared.mutations).toOption
  else none

theorem publishedRows_spec {rows : CatalogRows}
    (h : publishedRows env lc = some rows) : ∃ prep, preparePaths env lc = .ok prep ∧ prep.completion.issue = none ∧
      applyMutations env.catalog.toCatalogRows lc.intent.rootId prep.mutations = .ok rows := by
  obtain ⟨prep, hpr, h⟩ := bind_eq_some_iff.mp h
  split at h
  · rename_i hi
    refine ⟨prep, ?_, hi, ?_⟩
    · cases hp : preparePaths env lc <;> simp_all [Except.toOption]
    · cases ha : applyMutations env.catalog.toCatalogRows lc.intent.rootId prep.mutations <;>
        simp_all [Except.toOption]
  · cases h

/-- The photo is renamed in root `b`. Root `a` has a link of it under the new name, the file is called unchanged by that
location, and root `b` is left without one. -/
theorem renamed_link_lost : shapeIsValid (linkedChange .renameCandidate (some "old.jpg")).intent = true ∧
    ∃ prepared rows, preparePaths linkedEnv (linkedChange .renameCandidate (some "old.jpg")) = .ok prepared ∧
      prepared.completion.issue = none ∧
      applyMutations linkedEnv.catalog.toCatalogRows "b" prepared.mutations = .ok rows ∧
      ¬CatalogAgrees linkedEnv (linkedChange .renameCandidate (some "old.jpg")) rows := by
  have hr : (publishedRows linkedEnv (linkedChange .renameCandidate (some "old.jpg"))).map
      (·.locationsAt "b" "photo.jpg") = some [] := by decide +kernel
  obtain ⟨rows, hp, hn⟩ := map_eq_some_iff.mp hr
  obtain ⟨prepared, hpr, hi, ha⟩ := publishedRows_spec hp
  refine ⟨by decide +kernel, prepared, rows, hpr, hi, ha, fun hag => ?_⟩
  have ho : observation linkedEnv (linkedChange .renameCandidate (some "old.jpg")) "photo.jpg" =
      some (.file linkedPhoto) := by decide +kernel
  obtain ⟨l, hl, -⟩ := hag "photo.jpg" (by decide) (.file linkedPhoto) ho rfl
  have he : rows.locationsAt "b" "photo.jpg" = [l] := hl
  simp [hn] at he

/-- A live change of the photo in root `b` is prepared without an issue and published, and the catalog agrees. -/
theorem catalog_agrees_live : ∃ prepared rows, preparePaths linkedEnv (linkedChange .reconcile none) = .ok prepared ∧
    prepared.completion.issue = none ∧ applyMutations linkedEnv.catalog.toCatalogRows "b" prepared.mutations = .ok rows ∧
    CatalogAgrees linkedEnv (linkedChange .reconcile none) rows := by
  have hs : (publishedRows linkedEnv (linkedChange .reconcile none)).isSome = true := by decide +kernel
  obtain ⟨rows, hp⟩ := isSome_iff_exists.mp hs
  obtain ⟨prepared, hpr, hi, ha⟩ := publishedRows_spec hp
  refine ⟨prepared, rows, hpr, hi, ha, (catalog_agrees_iff linkedEnv _ (by decide +kernel) hpr hi ha).mpr ?_⟩
  have ho : observation linkedEnv (linkedChange .reconcile none) "photo.jpg" = some (.file linkedPhoto) := by
    decide +kernel
  have hou : presentOutcome linkedEnv (linkedChange .reconcile none) "photo.jpg" linkedPhoto = .modified := by
    decide +kernel
  rintro (⟨path, hpa, observed, hm, hj⟩ | ⟨previous, hpre, -⟩)
  · obtain rfl : path = "photo.jpg" := mem_singleton.mp hpa
    obtain rfl : InspectedPath.file linkedPhoto = observed := Option.some.inj (ho ▸ hm)
    have hu := hj.2.1
    simp [hou] at hu
  · cases hpre

end Ame
