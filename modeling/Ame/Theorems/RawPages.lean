import Ame.Lemmas.Volume
import Ame.Lib.Keyset
import Ame.Usn.RawPage

/-!
# Pages of raw journal records neither skip nor repeat

A page that had to leave records out covers the journal only up to the first of them. Read one after the other, the pages are
together the records of the journal up to the last coverage.
-/

namespace Ame

open List Keyset Result

/-- What the journal may answer: the records from some coordinate on in their order, up to the coordinate of the next read. -/
def AnswersFrom (stored : List ParsedUsnRecord) (physicalRead : Int → Except BackendError (List UInt8)) : Prop :=
  ∀ startUsn output nextUsn batch, physicalRead startUsn = .ok output → parseJournalBuffer output = .ok (nextUsn, batch) →
    batch = stored.filter fun record => startUsn ≤ record.usn ∧ record.usn < nextUsn

/-- The records of a range of the journal. -/
def storedBetween (stored : List ParsedUsnRecord) (startUsn coveredUntilUsn : Int) : List ParsedUsnRecord :=
  stored.filter fun record => startUsn ≤ record.usn ∧ record.usn < coveredUntilUsn

/-- The loop retains the records in front of the one it names. -/
theorem retainRecords_eq {recordSize maxRecs maxBytes retainedBytes : Nat} {retained recs : List ParsedUsnRecord} :
    ∃ kept left, recs = kept ++ left ∧ retainRecords recordSize maxRecs maxBytes retained retainedBytes recs =
        (retained ++ kept, left.head?.map (·.usn)) := by
  induction recs generalizing retained retainedBytes with
  | nil => exact ⟨[], [], rfl, by rw [append_nil]; rfl⟩
  | cons rec rest ih =>
    rw [retainRecords]
    split
    · exact ⟨[], rec :: rest, rfl, by rw [append_nil]; rfl⟩
    · obtain ⟨kept, left, hs, heq⟩ := ih
      refine ⟨rec :: kept, left, congrArg _ hs, ?_⟩
      rw [heq, append_assoc, singleton_append]

theorem retainBoundedRawRecords_eq (recordSize : Nat) (batch : List ParsedUsnRecord) (endUsn : Int) (maxRecs maxBytes : Nat) :
    ∃ kept left, batch.filter (fun rec => rec.usn < endUsn) = kept ++ left ∧
      retainBoundedRawRecords recordSize [] 0 batch endUsn maxRecs maxBytes = (kept, left.head?.map (·.usn)) :=
  retainRecords_eq

/-- What is kept of an answer of the journal is all of the journal up to the coverage. -/
theorem kept_eq {stored batch kept left : List ParsedUsnRecord} {startUsn nextUsn endUsn : Int} (hs : Ascending (·.usn) stored)
    (hb : batch = storedBetween stored startUsn nextUsn)
    (hsp : batch.filter (fun rec => rec.usn < endUsn) = kept ++ left) :
    kept = storedBetween stored startUsn (min ((left.head?.map (·.usn)).getD nextUsn) endUsn) := by
  have hal : kept ++ left = storedBetween stored startUsn (min nextUsn endUsn) := by
    rw [← hsp, hb, storedBetween, filter_filter]
    refine filter_congr fun rec _ => ?_
    rw [← Bool.decide_and, decide_eq_decide]
    omega
  cases left with
  | nil => rwa [append_nil] at hal
  | cons first rest =>
    have hm : first ∈ storedBetween stored startUsn (min nextUsn endUsn) := hal ▸ mem_append_right _ mem_cons_self
    have hr := of_decide_eq_true (mem_filter.mp hm).2
    have ha : Ascending (·.usn) (kept ++ first :: rest) := hal ▸ hs.filter _
    have hf : min first.usn endUsn = first.usn := by omega
    calc kept = (kept ++ first :: rest).filter (fun rec => rec.usn < first.usn) := ha.filter_split.2.symm
      _ = storedBetween stored startUsn first.usn := by
        rw [hal, storedBetween, filter_filter]
        refine filter_congr fun rec _ => ?_
        rw [← Bool.decide_and, decide_eq_decide]
        omega
      _ = _ := by rw [head?_cons, Option.map_some, Option.getD_some, hf]

section

variable {stored : List ParsedUsnRecord} {recordSize : Nat} {startUsn endUsn : Int}

/-- A page holds the records from its start up to its coverage, and gets past its start unless it begins at the end. -/
theorem readSingle_exact (hs : Ascending (·.usn) stored) {maxRecs maxBytes : Nat}
    {physicalRead : Int → Except BackendError (List UInt8)} (hre : AnswersFrom stored physicalRead)
    {page : List ParsedUsnRecord × Int}
    (h : readSingleNativeJournalBufferWith recordSize startUsn endUsn maxRecs maxBytes physicalRead = .ok page) :
    page.1 = storedBetween stored startUsn page.2 ∧ startUsn ≤ page.2 ∧ (startUsn < endUsn → startUsn < page.2) := by
  unfold readSingleNativeJournalBufferWith at h
  split at h
  · next ivl hi =>
    obtain ⟨-, rfl⟩ := JournalReadInterval.new_eq_some.mp hi
    obtain ⟨output, ho, h⟩ := bind_ok h
    obtain ⟨⟨nextUsn, batch⟩, hpa, h⟩ := bind_ok h
    have hb := hre _ _ _ _ ho (mapError_ok.mp hpa)
    dsimp only at h
    obtain ⟨hp, h⟩ := ite_throw_bind_ok.mp h
    obtain rfl := Except.ok.inj h
    obtain ⟨kept, left, hsp, hr⟩ := retainBoundedRawRecords_eq recordSize batch endUsn
      (min maxRecs maxRawRecordsPerPage) (max maxBytes (maxSingleRawRecordEvidenceBytes recordSize))
    rw [hr] at hp ⊢
    rw [not_or, Bool.not_eq_false, JournalReadInterval.admitsCoverage_iff] at hp
    exact ⟨kept_eq hs hb hsp, hp.1.1.1, fun hlt => (hp.1.2.2 (ne_of_lt hlt)).1⟩
  · cases h

/-- Where the last page of a sequence ends. -/
def finalCoverage (startUsn : Int) (pages : List (List ParsedUsnRecord × Int)) : Int := (pages.map (·.2)).getLastD startUsn

/-- Pages read one after the other hold exactly the records of the journal up to the last coverage, and each of them gets past the
one before it until the end is reached. -/
theorem readRawPages_exact (hstored : Ascending (·.usn) stored) {reads : List RawPageRead}
    (hreads : ∀ read ∈ reads, AnswersFrom stored read.physicalRead) {pages : List (List ParsedUsnRecord × Int)}
    (h : readRawPages recordSize endUsn startUsn reads = .ok pages) :
    pages.flatMap (·.1) = storedBetween stored startUsn (finalCoverage startUsn pages) ∧
      (startUsn :: pages.map (·.2)).IsChain (fun before after => before < endUsn → before < after) := by
  suffices pages.flatMap (·.1) = storedBetween stored startUsn (finalCoverage startUsn pages) ∧
      (startUsn :: pages.map (·.2)).IsChain (fun before after => before < endUsn → before < after) ∧
      startUsn ≤ finalCoverage startUsn pages from ⟨this.1, this.2.1⟩
  induction reads generalizing startUsn pages with
  | nil =>
    obtain rfl := Except.ok.inj h
    refine ⟨(filter_eq_nil_iff.mpr fun rec _ => ?_).symm, .singleton _, le_refl _⟩
    simp [finalCoverage]
  | cons read reads ih =>
    obtain ⟨page, hp, h⟩ := bind_ok h
    obtain ⟨rest, hre, h⟩ := bind_ok h
    obtain rfl := Except.ok.inj h
    obtain ⟨hr, hle, hpa⟩ := readSingle_exact hstored (hreads read mem_cons_self) hp
    obtain ⟨hfl, hc, hf⟩ := ih (fun o ho => hreads o (mem_cons_of_mem _ ho)) hre
    have hs : finalCoverage startUsn (page :: rest) = finalCoverage page.2 rest := by
      unfold finalCoverage
      rw [map_cons, getLastD_cons]
    rw [hs, flatMap_cons, hfl, hr]
    exact ⟨hstored.filter_range hle hf, .cons_cons hpa hc, le_trans hle hf⟩

end

theorem eightBytes : (List.replicate 8 (7 : UInt8)).length = 8 ∨ (List.replicate 8 (7 : UInt8)).length = 16 := by decide

/-- A record of version 2 with the name `a`. -/
def recordAtUsn (usn : UInt8) : ParsedUsnRecord :=
  ⟨⟨List.replicate 8 7, eightBytes⟩, ⟨List.replicate 8 5, by decide⟩, usn.toNat, 0, 0, 0, "a"⟩

/-- Its bytes. -/
def bytesAtUsn (usn : UInt8) : List UInt8 :=
  [64, 0, 0, 0, 2, 0, 0, 0] ++ List.replicate 8 7 ++ List.replicate 8 5 ++ (usn :: List.replicate 31 0) ++
    [2, 0, 60, 0, 97, 0, 0, 0]

/-- A journal with the records 8 and 16, read from 0 or from 16. -/
def readTwoRecords (startUsn : Int) : Except BackendError (List UInt8) :=
  if startUsn = 0 then .ok (24 :: List.replicate 7 0 ++ bytesAtUsn 8 ++ bytesAtUsn 16)
  else if startUsn = 16 then .ok (24 :: List.replicate 7 0 ++ bytesAtUsn 16)
  else .error .unavailable

theorem readRawPages_exact_two_pages :
    readRawPages 96 24 0 [⟨1, 0, readTwoRecords⟩, ⟨1, 0, readTwoRecords⟩] = .ok [([recordAtUsn 8], 16), ([recordAtUsn 16], 24)] ∧
      [recordAtUsn 8, recordAtUsn 16] = storedBetween [recordAtUsn 8, recordAtUsn 16] 0 24 := by
  have hpa : readRawPages 96 24 0 [⟨1, 0, readTwoRecords⟩, ⟨1, 0, readTwoRecords⟩] =
      .ok [([recordAtUsn 8], 16), ([recordAtUsn 16], 24)] := by decide +kernel
  have ha : AnswersFrom [recordAtUsn 8, recordAtUsn 16] readTwoRecords := by
    intro startUsn output nextUsn batch hr hp
    unfold readTwoRecords at hr
    split at hr
    · next hs =>
      have hb : parseJournalBuffer (24 :: List.replicate 7 0 ++ bytesAtUsn 8 ++ bytesAtUsn 16) =
        .ok (24, [recordAtUsn 8, recordAtUsn 16]) := by decide +kernel
      rw [← Except.ok.inj hr, hb] at hp
      cases hp
      subst hs
      decide
    · split at hr
      · next hs =>
        have hse : parseJournalBuffer (24 :: List.replicate 7 0 ++ bytesAtUsn 16) = .ok (24, [recordAtUsn 16]) := by
          decide +kernel
        rw [← Except.ok.inj hr, hse] at hp
        cases hp
        subst hs
        decide
      · cases hr
  refine ⟨hpa, (readRawPages_exact (by unfold Ascending; decide) ?_ hpa).1⟩
  intro read hm
  simp only [mem_cons, not_mem_nil, or_false, or_self] at hm
  exact hm ▸ ha

end Ame
