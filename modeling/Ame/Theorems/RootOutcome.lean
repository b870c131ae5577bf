import Ame.Journal.RootOutcome
import Ame.Lemmas.Wire
import Ame.Queue.Coverage

/-!
# What the intents of a root outcome denote

A directory that changed asks for its whole subtree. The translation gives an intent subtree scope only for candidates of kind
`Subtree`; a rename of a directory, or a `Path` candidate that is one, becomes an intent of its exact paths. So the subtree of a
directory candidate is denoted exactly when another candidate of the page reaches above it.
-/

namespace Ame

open PathRegion Result LibraryChangeIntent

/-! ## The translation -/

section

variable {digests : JournalDigests} {prev checkpoint : PersistentJournalCheckpoint} {out : SharedJournalRootOutcome}
  {requestedEndUsn observedUnixMs : Int} {batch : PersistentJournalEnrollmentBatch}

/-- The intents of an enrolled batch are those of the candidates, and the outcome covers a part of the journal. -/
theorem translateRootOutcome_enrolled
    (h : translateRootOutcome digests prev out requestedEndUsn observedUnixMs = .ok (some (.enrolled batch checkpoint))) :
    out.failure = none ∧ (∃ cov, out.coveredUntilUsn = some cov) ∧
      out.candidates.mapM (candidateToIntent prev observedUnixMs) = .ok batch.intents := by
  obtain ⟨boundary, _, h⟩ := bind_ok h
  split at h
  · cases h
  rename_i hf
  refine ⟨hf, ?_⟩
  split at h
  · cases h
  split at h
  · cases h
  rename_i cov hc
  refine ⟨⟨cov, hc⟩, ?_⟩
  split at h
  · split at h <;> cases h
  · obtain ⟨page, hp, h⟩ := bind_ok h
    obtain rfl : page = .enrolled batch checkpoint := by simpa [pure, Except.pure] using h
    cases he : enrollOutcome digests prev out cov requestedEndUsn observedUnixMs with
    | error e => simp [he, Except.mapError] at hp
    | ok page =>
      obtain rfl : page = .enrolled batch checkpoint := by simpa [he, Except.mapError] using hp
      obtain ⟨intents, hi, he⟩ := bind_ok he
      obtain ⟨_, _, he⟩ := bind_ok he
      obtain ⟨_, _, he⟩ := bind_ok he
      obtain ⟨_, _, he⟩ := bind_ok he
      obtain ⟨_, _, he⟩ := bind_ok he
      obtain ⟨_, _, he⟩ := bind_ok he
      have hp := Except.ok.inj he
      rw [PersistentJournalReadPage.enrolled.injEq] at hp
      rw [← hp.1]
      exact hi

/-- The candidates of a valid outcome without failure are valid. -/
theorem candidates_valid {maxRecs : Nat} (hv : out.validate requestedEndUsn maxRecs = .ok ())
    (hf : out.failure = none) : ∀ c ∈ out.candidates, c.validate = .ok () := by
  obtain ⟨-, -, ⟨cov, -, -, -, -, hca⟩ | ⟨-, hs, -⟩⟩ := SharedJournalRootOutcome.validate_ok.mp hv
  · intro c hc
    exact ((validateCandidates_ok.mp hca).1 c hc).1
  · rw [hf] at hs
    cases hs

/-- A valid candidate's previous scope is not the root. -/
theorem previousScope_ne_root {c : BrokerCandidate} (h : c.validate = .ok ()) : c.previousScope ≠ some .root := by
  intro hs
  exact ((BrokerCandidate.validate_ok.mp h).2.1 .root hs).2 rfl

/-- A valid candidate that is no rename has no previous scope. -/
theorem previousScope_of_valid {c : BrokerCandidate} (h : c.validate = .ok ()) (hk : c.kind ≠ .rename) :
    c.previousScope = none := by
  obtain ⟨-, -, -, -, hp, -⟩ := BrokerCandidate.validate_ok.mp h
  rw [beq_eq_false_iff_ne.mpr hk] at hp
  exact Option.not_isSome_iff_eq_none.mp (by simp [hp])

end

/-! ## What a candidate's intent denotes -/

section

variable {prev : PersistentJournalCheckpoint} {observedUnixMs : Int} {c : BrokerCandidate} {i : LibraryChangeIntent}

/-- The intent is of the root exactly for a candidate of the root. -/
theorem candidateToIntent_root_iff (h : candidateToIntent prev observedUnixMs c = .ok i) :
    i.scope = .root ↔ c.scope = .root := by
  unfold candidateToIntent at h
  split at h
  · cases h
  · rw [← Except.ok.inj h]
    cases hs : c.scope with
    | root => simp [candidateIntentScope, hs]
    | relativePath q => by_cases hk : c.kind = .subtree <;> simp [candidateIntentScope, hs, hk]

/-- A candidate's intent reaches above a path exactly if it is one of the root, or of a subtree the path lies in. -/
theorem candidateToIntent_reaches (h : candidateToIntent prev observedUnixMs c = .ok i) (hv : c.validate = .ok ())
    (path : String) : i.region.Reaches '/' path.toList ↔
      c.scope = .root ∨ c.kind = .subtree ∧ ∃ q, c.scope = .relativePath q ∧ isWithinSubtree path q = true := by
  unfold candidateToIntent at h
  split at h
  · cases h
  rw [← Except.ok.inj h]
  cases hs : c.scope with
  | root => simp [region, candidateIntentScope, hs, Region.Reaches]
  | relativePath q =>
    by_cases hk : c.kind = .subtree
    · have hp : c.previousScope = none := previousScope_of_valid hv (by simp [hk])
      simp [region, candidateIntentScope, candidatePreviousPath, hs, hk, hp, affectedPaths, Region.Reaches, isWithinSubtree_iff]
    · simp [region, candidateIntentScope, hs, hk, Region.Reaches]

end

/-! ## The subtrees of directories -/

/-- The paths at or below a scope. -/
def CandidateScope.Below : CandidateScope → String → Prop
  | .root, _ => True
  | .relativePath q, path => Within '/' path.toList q.toList

/-- The scopes a candidate names: its own and its previous one. -/
def BrokerCandidate.scopes (c : BrokerCandidate) : List CandidateScope := c.scope :: c.previousScope.toList

/-- The intents denote every path at or below each scope of each directory candidate. -/
def KeepsSubtrees (candidates : List BrokerCandidate) (intents : List LibraryChangeIntent) : Prop :=
  ∀ c ∈ candidates, c.isDirectory = true → ∀ s ∈ c.scopes, ∀ path, s.Below path → Denotes intents path

/-- Some candidate is of the root, or is a `Subtree` candidate of the path or of a directory above it. -/
def ReachedBySubtree (candidates : List BrokerCandidate) (path : String) : Prop :=
  ∃ d ∈ candidates, d.scope = .root ∨ d.kind = .subtree ∧ ∃ q, d.scope = .relativePath q ∧ isWithinSubtree path q = true

/-- A list of intents denotes all that lies within a path exactly if one of them reaches above it. -/
theorem denotes_below_iff (intents : List LibraryChangeIntent) (q : String) :
    (∀ path, (CandidateScope.relativePath q).Below path → Denotes intents path) ↔
      ∃ i ∈ intents, i.region.Reaches '/' q.toList := by
  have hl := within_subset_iff (show '/' ≠ 'a' by decide) (intents.map (·.region)) q.toList
  simp only [List.mem_map, exists_exists_and_eq_and] at hl
  rw [← hl]
  constructor
  · intro h x hx
    obtain ⟨i, hi, hd⟩ := h (String.ofList x) (by simpa [CandidateScope.Below] using hx)
    exact ⟨i, hi, by simpa [denote] using hd⟩
  · exact fun h path hp => h path.toList hp

/-- For a valid outcome, the enrolled batch keeps the subtrees of its directory candidates exactly if each relative scope of
such a candidate is reached by a candidate of the root or of a subtree. -/
theorem translate_keepsSubtrees_iff {digests : JournalDigests} {previous checkpoint : PersistentJournalCheckpoint}
    {outcome : SharedJournalRootOutcome} {requestedEndUsn observedUnixMs : Int} {maximumRecords : Nat}
    {batch : PersistentJournalEnrollmentBatch} (hvalid : outcome.validate requestedEndUsn maximumRecords = .ok ())
    (h : translateRootOutcome digests previous outcome requestedEndUsn observedUnixMs =
      .ok (some (.enrolled batch checkpoint))) :
    KeepsSubtrees outcome.candidates batch.intents ↔
      ∀ c ∈ outcome.candidates, c.isDirectory = true → ∀ q, .relativePath q ∈ c.scopes →
        ReachedBySubtree outcome.candidates q := by
  obtain ⟨hf, _, hin⟩ := translateRootOutcome_enrolled h
  have hca := candidates_valid hvalid hf
  have hr : ∀ q : String, (∃ i ∈ batch.intents, i.region.Reaches '/' q.toList) ↔ ReachedBySubtree outcome.candidates q := by
    intro q
    exact mapM_exists_iff hin fun c hc i hi => candidateToIntent_reaches hi (hca c hc) q
  constructor
  · intro hk c hc hd q hq
    rw [← hr, ← denotes_below_iff]
    exact hk c hc hd (.relativePath q) hq
  · intro hco c hc hd s hs path hp
    cases s with
    | root =>
      have hro : c.scope = .root := by
        rcases List.mem_cons.mp hs with hs | hs
        · exact hs.symm
        · exact absurd (Option.mem_toList.mp hs) (previousScope_ne_root (hca c hc))
      obtain ⟨i, hi, hsc⟩ := (mapM_exists_iff hin fun d _ i hi => candidateToIntent_root_iff hi).mpr ⟨c, hc, hro⟩
      exact ⟨i, hi, denote_of_root hsc path⟩
    | relativePath q =>
      have hq := (hr q).mpr (hco c hc hd q hs)
      exact (denotes_below_iff batch.intents q).mpr hq path hp

/-- Digests of the right form. -/
def sampleDigests : JournalDigests :=
  ⟨fun _ => String.ofList (List.replicate 64 '0'), fun _ => String.ofList (List.replicate 64 '0')⟩

/-- A checkpoint of a root. -/
def sampleCheckpoint : PersistentJournalCheckpoint :=
  { rootId := "root", rootGeneration := .initial, volume := ⟨"volume", 1⟩, rootFileReference := .v2 (Vector.replicate 8 1)
    journalId := ⟨1, Nat.one_ne_zero⟩, nextUnreadUsn := ⟨0, by decide⟩, capturedExclusiveEnd := ⟨0, by decide⟩
    coveredCatalogRevision := 0, protocolVersion := 5, contractVersion := 1, continuity := .current, failure := none
    updatedUnixMs := 0 }

/-- A directory is renamed. -/
def renamedDirectory : BrokerCandidate :=
  ⟨.relativePath "new", some (.relativePath "old"), List.replicate 8 1, 1, .rename, true⟩

/-- The outcome of a page with one candidate. -/
def outcomeOf (candidate : BrokerCandidate) : SharedJournalRootOutcome :=
  ⟨⟨Vector.replicate 16 1, "root", 1, "volume"⟩, 0, some 2, true, [candidate], none⟩

/-- The intent that becomes of it: a rename of two exact paths. -/
def renamedDirectoryIntent : LibraryChangeIntent :=
  { rootId := "root", rootGeneration := .initial, kind := .renameCandidate, scope := .path, relativePath := "new"
    previousRelativePath := some "old", origin := .startupCatchUp, firstObservedUnixMs := 0, mostRecentObservedUnixMs := 0
    firstSequence := 1, mostRecentSequence := 1, coalescedObservationCount := 1 }

/-- The batch that is enrolled for one intent. -/
def batchOf (intent : LibraryChangeIntent) : PersistentJournalEnrollmentBatch where
  range :=
    { batchId := String.ofList (List.replicate 64 '0'), rootId := "root", rootGeneration := .initial, volume := ⟨"volume", 1⟩
      journalId := ⟨1, Nat.one_ne_zero⟩, requestedStartUsn := ⟨0, by decide⟩, requestedEndUsn := ⟨2, by decide⟩
      coveredUntilUsn := ⟨2, by decide⟩, isComplete := true, protocolVersion := 5, contractVersion := 1, state := .enrolled
      enrolledUnixMs := 0, checkpointedUnixMs := none }
  intents := [intent]
  crossRootLineage := []
  carriedCrossRootLineage := []
  pendingRenames := []
  consumedPendingRenameIds := []
  directoryChanges := []

/-- The checkpoint behind the page. -/
def nextCheckpoint : PersistentJournalCheckpoint :=
  { sampleCheckpoint with
    nextUnreadUsn := ⟨2, by decide⟩, capturedExclusiveEnd := ⟨2, by decide⟩, continuity := .catchingUp }

/-- A directory is new, with all that is in it. -/
def newDirectory : BrokerCandidate :=
  ⟨.relativePath "new", none, List.replicate 8 1, 1, .subtree, true⟩

/-- The subtree of the new directory is reached by its own candidate. -/
theorem translate_keepsSubtrees_iff_newDirectory : ∃ intent,
    translateRootOutcome sampleDigests sampleCheckpoint (outcomeOf newDirectory) 2 0 =
        .ok (some (.enrolled (batchOf intent) nextCheckpoint)) ∧
      KeepsSubtrees (outcomeOf newDirectory).candidates (batchOf intent).intents := by
  have h : translateRootOutcome sampleDigests sampleCheckpoint (outcomeOf newDirectory) 2 0 =
      .ok (some (.enrolled (batchOf { renamedDirectoryIntent with
        kind := .reconcile, scope := .subtree, previousRelativePath := none }) nextCheckpoint)) := by decide +kernel
  refine ⟨_, h, (translate_keepsSubtrees_iff
    (show (outcomeOf newDirectory).validate 2 1024 = .ok () by decide +kernel) h).mpr ?_⟩
  rintro c hc - q hq
  obtain rfl := List.mem_singleton.mp hc
  obtain rfl : q = "new" := by simpa [BrokerCandidate.scopes, newDirectory] using hq
  exact ⟨newDirectory, hc, .inr ⟨rfl, "new", rfl, by decide +kernel⟩⟩

/-- A directory is renamed: the outcome is valid, the batch is enrolled, and no intent of it denotes what is in the directory. -/
theorem translate_forgets_renamed_directory : (outcomeOf renamedDirectory).validate 2 1024 = .ok () ∧
      translateRootOutcome sampleDigests sampleCheckpoint (outcomeOf renamedDirectory) 2 0 =
        .ok (some (.enrolled (batchOf renamedDirectoryIntent) nextCheckpoint)) ∧
      ¬KeepsSubtrees (outcomeOf renamedDirectory).candidates (batchOf renamedDirectoryIntent).intents := by
  refine ⟨by decide +kernel, by decide +kernel, ?_⟩
  intro h
  obtain ⟨i, hi, hd⟩ := h renamedDirectory (by simp [outcomeOf]) rfl (.relativePath "new")
    (by simp [BrokerCandidate.scopes, renamedDirectory]) "new/x" (show Within '/' "new/x".toList "new".toList by decide)
  obtain rfl : i = renamedDirectoryIntent := List.mem_singleton.mp hi
  rw [denote_path_iff rfl] at hd
  revert hd
  decide

end Ame
