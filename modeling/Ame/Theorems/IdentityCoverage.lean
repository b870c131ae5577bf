import Ame.Journal.Identity
import Ame.Lib.Result
import Ame.Theorems.RootOutcome
import Mathlib

/-!
# Every record of changed files is covered

The intents of a batch are collected by key: a second record with a key only adds to the evidence of the intent that is there. So no
key is lost, and what the intents denote can be read off the keys of the records.
-/

namespace Ame.IdentityReader

open List PathRegion Result

/-! ## The collected intents -/

section

variable {checkpoint next : PersistentJournalCheckpoint} {observed usn : Int} {key : IntentKey} {keys : List IntentKey}
  {intents intents' : List (IntentKey × LibraryChangeIntent)} {prev : List IdentityJournalLocation}
  {cur : IdentityJournalResolution} {st st' : Translation} {rec : IdentityJournalRecord} {old live : List String}
  {p path : String}

/-- An intent has the scope and the paths of its key. -/
def IntentKey.Makes (key : IntentKey) (intent : LibraryChangeIntent) : Prop :=
  intent.scope = key.scope ∧ intent.relativePath = key.path ∧ intent.previousRelativePath = key.previous

/-- The intents are made by their keys, and each of the given keys is there. -/
structure Collects (intents : List (IntentKey × LibraryChangeIntent)) (keys : List IntentKey) : Prop where
  made : ∀ entry ∈ intents, entry.1.Makes entry.2
  present : ∀ key ∈ keys, key ∈ intents.map (·.1)

/-- The intents stay, up to their evidence, and the key joins them. -/
theorem Collects.addIntent (h : Collects intents keys) (ha : addIntent checkpoint observed usn intents key = .ok intents') :
    Collects intents' (keys ++ [key]) := by
  unfold IdentityReader.addIntent at ha
  split at ha
  · cases ha
  split at ha
  · -- the key is there: its intent keeps its scope and its paths
    next hme =>
    cases ha
    constructor
    · intro e he
      obtain ⟨before, hb, rfl⟩ := mem_map.mp he
      have hm := h.made before hb
      split
      · exact hm
      · exact hm
    · intro k hk
      rw [map_map]
      rcases mem_append.mp hk with hk | hk
      · exact h.present k hk
      · rw [mem_singleton.mp hk]
        exact hme
  · cases ha
    constructor
    · intro e he
      rcases (mem_orderedInsert _).mp he with rfl | he
      · exact ⟨rfl, rfl, rfl⟩
      · exact h.made e he
    · intro k hk
      rw [((perm_orderedInsert _ _ _).map _).mem_iff, map_cons, mem_cons]
      rcases mem_append.mp hk with hk | hk
      · exact .inr (h.present k hk)
      · exact .inl (mem_singleton.mp hk)

/-- A record adds its keys. -/
theorem Collects.translateRecord (h : Collects st.intents keys)
    (hr : translateRecord checkpoint observed prev cur st rec = .ok st') :
    Collects st'.intents (keys ++ recordKeys checkpoint prev cur rec) := by
  obtain ⟨intents, hf, hr⟩ := bind_ok hr
  have hc : Collects intents (keys ++ recordKeys checkpoint prev cur rec) :=
    foldlM_history (P := fun done intents => Collects intents (keys ++ done))
      (fun done key s t hs ht => by simpa using hs.addIntent ht) hf (by simpa using h)
  split at hr
  · cases hr
    exact hc
  · obtain ⟨change, _, hr⟩ := bind_ok hr
    cases hr
    exact hc

/-- The collected intents denote the paths of each key, everything below them if the key is one of a directory, and everything if
it is one of the root. -/
theorem Collects.denotes (h : Collects intents keys) (hk : key ∈ keys) (hp : p = key.path ∨ key.previous = some p)
    (hpa : path = p ∨ key.path = "" ∨ key.directory = true ∧ Within '/' path.toList p.toList) :
    Denotes (intents.map (·.2)) path := by
  obtain ⟨e, hen, rfl⟩ := mem_map.mp (h.present key hk)
  obtain ⟨hs, hr, hpr⟩ := h.made e hen
  refine ⟨e.2, mem_map_of_mem hen, ?_⟩
  have hn : p ∈ affectedPaths e.2 := by
    rw [mem_affectedPaths, hr, hpr]
    exact hp
  unfold IntentKey.scope at hs
  split at hs
  · exact denote_of_root hs path
  next hro =>
  have hne : e.1.path ≠ "" := by simpa using hro
  split at hs
  · refine (denote_subtree_iff hs path).mpr ⟨p, hn, ?_⟩
    rcases hpa with rfl | he | ⟨-, hw⟩
    · exact .inl rfl
    · exact absurd he hne
    · exact hw
  · next hf =>
    rcases hpa with rfl | he | ⟨hd, -⟩
    · exact (denote_path_iff hs path).mpr hn
    · exact absurd he hne
    · exact absurd hd hf

/-! ## The keys of a record -/

theorem mem_pathSet {l : List String} : p ∈ pathSet l ↔ p ∈ l := by
  rw [pathSet, mem_insertionSort, mem_dedup]

/-- Every path of a file has a key. -/
theorem exists_fileKey (hp : p ∈ old ++ live) : ∃ key ∈ fileKeys old live, p = key.path ∨ key.previous = some p := by
  unfold fileKeys
  cases hpa : pairedFile old live with
  | none => exact ⟨⟨false, p, none⟩, by simp [mem_pathSet, mem_append.mp hp], .inl rfl⟩
  | some pair =>
    -- a path that the loop leaves out is one of the pair
    by_cases hin : p = pair.1 ∨ p = pair.2
    · exact ⟨⟨false, pair.2, some pair.1⟩, by simp, hin.symm.imp id fun h => congrArg some h.symm⟩
    · exact ⟨⟨false, p, none⟩, by simp [mem_pathSet, mem_append.mp hp, not_or.mp hin], .inl rfl⟩

/-- So has every path of a directory. -/
theorem exists_directoryKey (hp : p ∈ old ++ live) (hne : p ≠ "") :
    ∃ key ∈ directoryKeys old live, key.directory = true ∧ (p = key.path ∨ key.previous = some p) := by
  unfold directoryKeys
  split
  · next before after hpa =>
    refine ⟨_, mem_singleton_self _, rfl, ?_⟩
    unfold pairedDirectory at hpa
    split at hpa
    · split at hpa <;> cases hpa
      rcases mem_append.mp hp with hp | hp
      · exact .inr (congrArg some (mem_singleton.mp hp).symm)
      · exact .inl (mem_singleton.mp hp)
    · cases hpa
  · exact ⟨⟨true, p, none⟩, by simp [mem_pathSet, mem_append.mp hp, hne], rfl, .inl rfl⟩

/-! ## The translation of a page -/

/-- Each record that was not read before is covered: the paths its file had and has, with all that is below if it is a directory, or,
if nothing can be known of the file, the subtrees of its parent. The checkpoint stands where the batch's range ends. -/
theorem translate_covers {digests : JournalDigests} {page : IdentityJournalPage} {requestedEnd : Int}
    {batch : PersistentJournalEnrollmentBatch}
    (h : translate checkpoint observed prev cur digests page requestedEnd = .ok (batch, next)) :
    (∀ rec ∈ page.records, checkpoint.nextUnreadUsn.value ≤ rec.usn →
      if deniedUnknown checkpoint prev cur rec then
        ∀ p ∈ paths checkpoint prev rec.parentReference true ++ paths checkpoint cur.locations rec.parentReference true,
          ∀ path, p = "" ∨ Within '/' path.toList p.toList → Denotes batch.intents path
      else
        ∀ p ∈ paths checkpoint prev rec.fileReference rec.isDirectory ++
            paths checkpoint cur.locations rec.fileReference rec.isDirectory, p ≠ "" →
          ∀ path, path = p ∨ rec.isDirectory = true ∧ Within '/' path.toList p.toList → Denotes batch.intents path) ∧
      next.nextUnreadUsn = batch.range.coveredUntilUsn := by
  obtain ⟨st, hfo, h⟩ := bind_ok h
  rw [ite_throw_bind_ok] at h
  obtain ⟨_, _, h⟩ := bind_ok h.2
  obtain ⟨_, _, h⟩ := bind_ok h
  obtain ⟨_, _, h⟩ := bind_ok h
  obtain ⟨_, _, h⟩ := bind_ok h
  cases h
  refine ⟨fun rec hr hu => ?_, rfl⟩
  have hc := foldlM_history
    (P := fun done (st : Translation) => Collects st.intents (done.flatMap (recordKeys checkpoint prev cur)))
    (fun done rec s t hs ht => by simpa using hs.translateRecord ht) hfo ⟨by simp, by simp⟩
  have hk : ∀ key ∈ recordKeys checkpoint prev cur rec,
      key ∈ (page.records.filter fun rec => checkpoint.nextUnreadUsn.value ≤ rec.usn).flatMap
        (recordKeys checkpoint prev cur) :=
    fun key hke => mem_flatMap.mpr ⟨rec, by simp [hr, hu], hke⟩
  split
  · next hd =>
    rw [recordKeys, if_pos hd] at hk
    intro p hp path hpa
    refine hc.denotes (hk ⟨true, p, none⟩ (by simpa [mem_pathSet] using hp)) (.inl rfl) ?_
    exact .inr (hpa.imp id fun hw => ⟨rfl, hw⟩)
  · next hd =>
    rw [recordKeys, if_neg hd] at hk
    intro p hp hne path hpa
    split at hk
    · obtain ⟨key, hke, hdi, hn⟩ := exists_directoryKey hp hne
      exact hc.denotes (hk key hke) hn (hpa.imp id fun hw => .inr ⟨hdi, hw.2⟩)
    · next hf =>
      obtain ⟨key, hke, hn⟩ := exists_fileKey hp
      exact hc.denotes (hk key hke) hn (hpa.imp id fun hw => absurd hw.1 hf)

end

/-- A file. -/
def renamedReference : JournalFileReference := .v2 (Vector.replicate 8 1)

/-- A location of the file. -/
def renamedAt (path : String) : IdentityJournalLocation := ⟨identityForReference 1 renamedReference, path, false⟩

/-- The page with a record of the file, which was renamed. -/
def renamedPage : IdentityJournalPage := ⟨2, [⟨renamedReference, .v2 (Vector.replicate 8 2), 1, false, false⟩]⟩

/-- The translation of that page. -/
def renamedTranslation : Except ScanError (PersistentJournalEnrollmentBatch × PersistentJournalCheckpoint) :=
  translate sampleCheckpoint 0 [renamedAt "old"] ⟨[renamedAt "new"], [], []⟩ sampleDigests renamedPage 2

/-- Both names of the file are denoted. -/
theorem translate_covers_renamed : ∃ batch next, renamedTranslation = .ok (batch, next) ∧
    Denotes batch.intents "old" ∧ Denotes batch.intents "new" := by
  have hok : renamedTranslation.isOk = true := by decide +kernel
  cases h : renamedTranslation with
  | error e =>
    rw [h] at hok
    cases hok
  | ok res =>
    have hc := (translate_covers h).1 _ (mem_singleton_self _) (by decide)
    exact ⟨res.1, res.2, rfl, hc "old" (by decide +kernel) (by decide) "old" (.inl rfl),
      hc "new" (by decide +kernel) (by decide) "new" (.inl rfl)⟩

end Ame.IdentityReader
