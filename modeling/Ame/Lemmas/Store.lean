import Ame.Queue.Store
import Ame.Lib.Result

/-!
# What the statements of a transaction do to a row

Every branch of `enqueue_one` writes one change, the target, and supersedes others. `Effect` says so for a whole branch, row by
row and in both directions; it is put together from the statements in the order the branches run them.
-/

namespace Ame

open List Result ChangeQueue

variable {q q' q1 : ChangeQueue} {r r' : QueueRow} {f : QueueRow → QueueRow} {s t sources ids : List LibraryChangeId}
  {id tid : LibraryChangeId} {e : Option LibraryChangeCatchUpEvidence} {m : LibraryChangeIntent}

/-- Two rows of a queue with one identifier are one row. -/
theorem ChangeQueue.eq_of_id (hr : r ∈ q.rows) (hr' : r' ∈ q.rows) (h : r.id = r'.id) : r = r' :=
  inj_on_of_nodup_map q.distinct hr hr' h

/-- A row that lies in a list of rows of the queue by its identifier lies in it. -/
theorem ChangeQueue.mem_of_id_mem {l : List QueueRow} (hr : r ∈ q.rows)
    (hl : ∀ c ∈ l, c ∈ q.rows) (h : r.id ∈ l.map (·.id)) : r ∈ l := by
  obtain ⟨c, hc, hid⟩ := mem_map.mp h
  exact q.eq_of_id (hl c hc) hr hid ▸ hc

/-- A rewritten row. -/
theorem ChangeQueue.mem_modify : r' ∈ (q.modify f).rows ↔ ∃ r ∈ q.rows, { f r with id := r.id } = r' :=
  mem_map

/-- A row of the queue after an insert. -/
theorem ChangeQueue.mem_insert {row : QueueRow} :
    r' ∈ (q.insert row).rows ↔ r' ∈ q.rows ∨ r' = { row with id := q.nextId } := by
  simp [insert]

/-- The rows `f` rewrites without touching the identifier. -/
theorem ChangeQueue.modify_mem (hf : ∀ r, (f r).id = r.id) (hr : r ∈ q.rows) : f r ∈ (q.modify f).rows := by
  refine mem_modify.mpr ⟨r, hr, ?_⟩
  rw [← hf r]

/-! ## The statements -/

/-- `r'` is `r` up to its lineage and, for the identifiers in `sources`, its evidence. -/
def LineageStep (sources : List LibraryChangeId) (r r' : QueueRow) : Prop :=
  r'.id = r.id ∧ r'.intent = r.intent ∧ r'.status = r.status ∧ (r.id ∉ sources → r'.catchUpEvidence = r.catchUpEvidence)

/-- `q'` is `q` up to the lineage of its rows and, for the identifiers in `sources`, their evidence. -/
def LineageOnly (sources : List LibraryChangeId) (q q' : ChangeQueue) : Prop :=
  (∀ r ∈ q.rows, ∃ r' ∈ q'.rows, LineageStep sources r r') ∧ (∀ r' ∈ q'.rows, ∃ r ∈ q.rows, LineageStep sources r r')

theorem LineageOnly.refl (q : ChangeQueue) : LineageOnly [] q q :=
  ⟨fun r hr => ⟨r, hr, rfl, rfl, rfl, fun _ => rfl⟩, fun r hr => ⟨r, hr, rfl, rfl, rfl, fun _ => rfl⟩⟩

/-- Steps on one row compose. -/
theorem LineageStep.trans {r'' : QueueRow} (h : LineageStep s r r')
    (h' : LineageStep t r' r'') : LineageStep (s ++ t) r r'' := by
  obtain ⟨h1, h2, h3, h4⟩ := h
  obtain ⟨h1', h2', h3', h4'⟩ := h'
  refine ⟨h1'.trans h1, h2'.trans h2, h3'.trans h3, fun hn => ?_⟩
  rw [mem_append, not_or] at hn
  exact (h4' (h1 ▸ hn.2)).trans (h4 hn.1)

theorem LineageOnly.trans {q'' : ChangeQueue} (h : LineageOnly s q q')
    (h' : LineageOnly t q' q'') : LineageOnly (s ++ t) q q'' := by
  constructor
  · intro r hr
    obtain ⟨r', hr', hs⟩ := h.1 r hr
    obtain ⟨r'', hr'', hs'⟩ := h'.1 r' hr'
    exact ⟨r'', hr'', hs.trans hs'⟩
  · intro r'' hr''
    obtain ⟨r', hr', hs'⟩ := h'.2 r'' hr''
    obtain ⟨r, hr, hs⟩ := h.2 r' hr'
    exact ⟨r, hr, hs.trans hs'⟩

/-- A rewriting of rows that only touches lineage, and the evidence of `sources`. -/
theorem LineageOnly.of_modify (hf : ∀ r, LineageStep s r (f r)) : LineageOnly s q (q.modify f) := by
  constructor
  · intro r hr
    exact ⟨f r, modify_mem (fun r => (hf r).1) hr, hf r⟩
  · intro r' hr'
    obtain ⟨r, hr, rfl⟩ := mem_modify.mp hr'
    obtain ⟨_, h2, h3, h4⟩ := hf r
    exact ⟨r, hr, rfl, h2, h3, h4⟩

/-- Attaching evidence touches lineage only. -/
theorem attachOptional_lineageOnly (h : attachOptional q id e = .ok q') : LineageOnly [] q q' := by
  cases e with
  | none => exact Except.ok.inj h ▸ LineageOnly.refl q
  | some e =>
    obtain ⟨_, _, h⟩ := bind_ok h
    rw [← Except.ok.inj h]
    refine LineageOnly.of_modify fun r => ?_
    split <;> exact ⟨rfl, rfl, rfl, fun _ => rfl⟩

/-- One round of the transfer touches lineage, and the evidence of its source. -/
theorem transferOne_lineageOnly (target : LibraryChangeId) (q : ChangeQueue) (source : LibraryChangeId) :
    LineageOnly [source] q (transferOne target q source) := by
  unfold transferOne
  split
  · exact ⟨fun r hr => ⟨r, hr, rfl, rfl, rfl, fun _ => rfl⟩, fun r hr => ⟨r, hr, rfl, rfl, rfl, fun _ => rfl⟩⟩
  · refine LineageOnly.of_modify fun r => ?_
    split
    · exact ⟨rfl, rfl, rfl, fun _ => rfl⟩
    · split
      · rename_i h
        exact ⟨rfl, rfl, rfl, fun hn => absurd h (by simpa using hn)⟩
      · exact ⟨rfl, rfl, rfl, fun _ => rfl⟩

/-- The rounds of the transfer touch lineage, and the evidence of their sources. -/
theorem foldl_transferOne_lineageOnly (target : LibraryChangeId) (sources : List LibraryChangeId) (q : ChangeQueue) :
    LineageOnly sources q (sources.foldl (transferOne target) q) := by
  induction sources generalizing q with
  | nil => exact LineageOnly.refl q
  | cons s sources ih => exact (transferOne_lineageOnly target q s).trans (ih _)

/-- The transfer touches lineage, and the evidence of its sources. -/
theorem transferCatchUpLineage_lineageOnly {target : LibraryChangeId}
    (h : transferCatchUpLineage q sources target = .ok q') : LineageOnly sources q q' := by
  obtain ⟨_, _, h⟩ := bind_ok h
  exact Except.ok.inj h ▸ foldl_transferOne_lineageOnly target sources q

/-! ## The effect of a branch -/

/-- What happens to a row other than the target: it is superseded if it is one of `ids` and active, and keeps its intent, its
status and its evidence otherwise. -/
structure RowStep (ids : List LibraryChangeId) (r r' : QueueRow) : Prop where
  id : r'.id = r.id
  intent : r'.intent = r.intent
  status : r'.status = r.status ∨ r.id ∈ ids ∧ r'.status = .superseded
  gone : r.id ∈ ids → r'.status.isActive = false
  evidence : r.id ∉ ids → r'.catchUpEvidence = r.catchUpEvidence

/-- The effect of a branch: the target `tid` is pending with intent `m`, the active ones of `ids` are superseded, and every
other row is as it was. -/
structure Effect (q q' : ChangeQueue) (ids : List LibraryChangeId) (tid : LibraryChangeId) (m : LibraryChangeIntent) :
    Prop where
  target : ∃ r ∈ q'.rows, r.id = tid ∧ r.intent = m ∧ r.status = .pending
  forward : ∀ r ∈ q.rows, r.id ≠ tid → ∃ r' ∈ q'.rows, RowStep ids r r'
  backward : ∀ r' ∈ q'.rows, r'.id ≠ tid → ∃ r ∈ q.rows, RowStep ids r r'

/-- Before anything is superseded: only the target differs. -/
structure TargetOnly (q q' : ChangeQueue) (tid : LibraryChangeId) (m : LibraryChangeIntent) : Prop where
  target : ∃ r ∈ q'.rows, r.id = tid ∧ r.intent = m ∧ r.status = .pending
  forward : ∀ r ∈ q.rows, r.id ≠ tid → ∃ r' ∈ q'.rows, LineageStep [] r r'
  backward : ∀ r' ∈ q'.rows, r'.id ≠ tid → ∃ r ∈ q.rows, LineageStep [] r r'

/-- `update_change` of an unleased row writes that row. -/
theorem updateChange_targetOnly {target : QueueRow} (ht : target ∈ q.rows) (hu : isUnleased target.status = true)
    (hro : m.rootId = target.intent.rootId ∧ m.rootGeneration = target.intent.rootGeneration)
    (h : updateChange q target.id m e = .ok q') : TargetOnly q q' target.id m := by
  have hl := attachOptional_lineageOnly h
  have hid : ∀ r, (updatedRow target.id m e r).id = r.id := fun r => by unfold updatedRow; split <;> rfl
  have o : ∀ r, r.id ≠ target.id → updatedRow target.id m e r = r := fun r hr => by simp [updatedRow, hr]
  refine ⟨?_, ?_, ?_⟩
  · obtain ⟨r', hr', h1, h2, h3, _⟩ := hl.1 _ (modify_mem hid ht)
    refine ⟨r', hr', by rw [h1, hid], ?_, ?_⟩
    · rw [h2, updatedRow, if_pos ⟨rfl, hu⟩]
      simp [← hro.1, ← hro.2]
    · rw [h3, updatedRow, if_pos ⟨rfl, hu⟩]
  · intro r hr hne
    obtain ⟨r', hr', hs⟩ := hl.1 _ (modify_mem hid hr)
    exact ⟨r', hr', o r hne ▸ hs⟩
  · intro r' hr' hne
    obtain ⟨r1, hr1, hs⟩ := hl.2 r' hr'
    obtain ⟨r, hr, rfl⟩ := mem_modify.mp hr1
    have hrn : r.id ≠ target.id := fun heq => hne (hs.1.trans heq)
    rw [o r hrn] at hs
    exact ⟨r, hr, hs⟩

/-- `insert_change` adds one row. -/
theorem insertChange_targetOnly (h : insertChange q m e = .ok (q', id)) : id = q.nextId ∧ TargetOnly q q' id m := by
  obtain ⟨q1, h1, h⟩ := bind_ok h
  obtain ⟨rfl, rfl⟩ : q1 = q' ∧ q.nextId = id := by simpa [pure, Except.pure] using h
  have hl := attachOptional_lineageOnly h1
  refine ⟨rfl, ?_, ?_, ?_⟩
  · obtain ⟨r', hr', g1, g2, g3, _⟩ := hl.1 _ (mem_insert.mpr (Or.inr rfl))
    exact ⟨r', hr', g1, g2, g3⟩
  · intro r hr _
    exact hl.1 r (mem_insert.mpr (Or.inl hr))
  · intro r' hr' hne
    obtain ⟨r, hr, hs⟩ := hl.2 r' hr'
    rcases mem_insert.mp hr with hr | rfl
    · exact ⟨r, hr, hs⟩
    · exact absurd hs.1 hne

/-- What superseding does to a row other than the target. -/
theorem supersededRow_rowStep (hs : LineageStep sources r r') (hne : r.id ≠ tid) (hsu : ∀ x ∈ sources, x ≠ tid → x ∈ ids) :
    RowStep ids r (supersededRow ids tid r') := by
  obtain ⟨h1, h2, h3, h4⟩ := hs
  unfold supersededRow
  by_cases hin : r.id ∈ ids
  · have hc : (ids.contains r'.id && r'.id != tid) = true := by simp [h1, hin, hne]
    rw [hc]
    cases ha : r'.status.isActive with
    | true => exact ⟨h1, h2, Or.inr ⟨hin, rfl⟩, fun _ => rfl, fun hn => absurd hin hn⟩
    | false => exact ⟨h1, h2, Or.inl h3, fun _ => ha, fun hn => absurd hin hn⟩
  · have hc : ids.contains r'.id = false := by simp [h1, hin]
    rw [hc]
    exact ⟨h1, h2, Or.inl h3, fun h => absurd h hin, fun _ => h4 fun hx => hin (hsu _ hx hne)⟩

/-- Passing the lineage on and superseding completes the effect of a branch. -/
theorem TargetOnly.supersede {q2 : ChangeQueue}
    (h : TargetOnly q q1 tid m) (ht : transferCatchUpLineage q1 sources tid = .ok q2)
    (hsu : ∀ x ∈ sources, x ≠ tid → x ∈ ids) : Effect q (markSuperseded q2 ids tid).1 ids tid m := by
  have hl := transferCatchUpLineage_lineageOnly ht
  have hid : ∀ r, (supersededRow ids tid r).id = r.id := fun r => by unfold supersededRow; split <;> rfl
  refine ⟨?_, ?_, ?_⟩
  · obtain ⟨r, hr, hri, hrm, hrs⟩ := h.target
    obtain ⟨r', hr', h1, h2, h3, _⟩ := hl.1 r hr
    have hse : supersededRow ids tid r' = r' := by simp [supersededRow, h1, hri]
    refine ⟨r', hse ▸ modify_mem hid hr', h1.trans hri, h2.trans hrm, h3.trans hrs⟩
  · intro r hr hne
    obtain ⟨r1, hr1, hs1⟩ := h.forward r hr hne
    obtain ⟨r2, hr2, hs2⟩ := hl.1 r1 hr1
    exact ⟨_, modify_mem hid hr2, supersededRow_rowStep (hs1.trans hs2) hne (by simpa using hsu)⟩
  · intro r' hr' hne
    obtain ⟨r2, hr2, rfl⟩ := mem_modify.mp hr'
    obtain ⟨r1, hr1, hs2⟩ := hl.2 r2 hr2
    have hn : r1.id ≠ tid := fun heq => hne (hs2.1.trans heq)
    obtain ⟨r, hr, hs1⟩ := h.backward r1 hr1 hn
    have hne0 : r.id ≠ tid := fun heq => hn (hs1.1.trans heq)
    have hs := supersededRow_rowStep (hs1.trans hs2) hne0 (by simpa using hsu)
    exact ⟨r, hr, (hs1.trans hs2).1, hs.intent, hs.status, hs.gone, hs.evidence⟩

/-- Superseding more rows, none of which is the target. -/
theorem Effect.supersede (h : Effect q q1 ids tid m) (more : List LibraryChangeId) :
    Effect q (markSuperseded q1 more tid).1 (ids ++ more) tid m := by
  have hid : ∀ r, (supersededRow more tid r).id = r.id := fun r => by unfold supersededRow; split <;> rfl
  have step : ∀ {r r1 : QueueRow}, r.id ≠ tid → RowStep ids r r1 → RowStep (ids ++ more) r (supersededRow more tid r1) := by
    intro r r1 hne hs
    have hne1 : r1.id ≠ tid := hs.id ▸ hne
    have hs1 := supersededRow_rowStep (show LineageStep [] r1 r1 from ⟨rfl, rfl, rfl, fun _ => rfl⟩) hne1
      (show ∀ x ∈ [], x ≠ tid → x ∈ more by simp)
    refine ⟨hs1.id.trans hs.id, hs1.intent.trans hs.intent, ?_, ?_, ?_⟩
    · rcases hs1.status with h1 | ⟨h1, h2⟩
      · rcases hs.status with h0 | ⟨h0, h0'⟩
        · exact Or.inl (h1.trans h0)
        · exact Or.inr ⟨mem_append_left _ h0, h1.trans h0'⟩
      · exact Or.inr ⟨mem_append_right _ (hs.id ▸ h1), h2⟩
    · intro hin
      rcases mem_append.mp hin with hin | hin
      · rcases hs1.status with h1 | ⟨_, h2⟩
        · rw [h1]
          exact hs.gone hin
        · rw [h2]
          rfl
      · exact hs1.gone (hs.id.symm ▸ hin)
    · intro hn
      rw [mem_append, not_or] at hn
      exact (hs1.evidence (hs.id.symm ▸ hn.2)).trans (hs.evidence hn.1)
  refine ⟨?_, ?_, ?_⟩
  · obtain ⟨r, hr, hri, hrm, hrs⟩ := h.target
    have hse : supersededRow more tid r = r := by simp [supersededRow, hri]
    exact ⟨r, hse ▸ modify_mem hid hr, hri, hrm, hrs⟩
  · intro r hr hne
    obtain ⟨r1, hr1, hs⟩ := h.forward r hr hne
    exact ⟨_, modify_mem hid hr1, step hne hs⟩
  · intro r' hr' hne
    obtain ⟨r1, hr1, rfl⟩ := mem_modify.mp hr'
    obtain ⟨r, hr, hs⟩ := h.backward r1 hr1 hne
    have hst := step (fun heq => hne (hs.id.trans heq)) hs
    exact ⟨r, hr, hs.id, hst.intent, hst.status, hst.gone, hst.evidence⟩

end Ame
