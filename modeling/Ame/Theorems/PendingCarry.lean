import Ame.Broker.Usn
import Ame.Lib.History
import Ame.Theorems.BrokerPath

/-!
# A carried old name and the new names that use it up

The client keeps an old name of a rename until a page reports its new name, and rejects a page that reports it twice. The
pairing forgets the old names of its own page when it has paired them, but never a carry: a file that shows its new name in two
records of a page, as it does until it is closed, uses its carry up twice. The theorem says for which pages that happens.
-/

namespace Ame

open List Iter Result History

variable {ctx : SemanticRootContext} {st : RootReadState} {curRoots : List Nat} {uncertain : Bool} {events : List SemanticEvent}

/-- The carries that the events of a page use up. -/
def carriedIndices (events : List SemanticEvent) : List Nat :=
  events.filterMap fun event => event.handoff.bind (·.previousPendingIndex)

/-! ## What a page has seen before a record -/

/-- The old name of a file that waits for its new name after some records: its last rename record, if that is an old name. -/
def openOldName (history : List ResolvedRecord) (reference : FileReference) : Option ResolvedRecord :=
  (history.reverse.find? fun record => record.fileReference == reference && (record.isOldName || record.isNewName)).filter
    (·.isOldName)

/-- The paths that are compared with the roots at a record: its own, after that of the old name it is paired with. -/
def lookups (history : List ResolvedRecord) (record : ResolvedRecord) : List (List UInt16 × Int) :=
  if record.isOldName then []
  else if record.isNewName then
    (openOldName history record.fileReference).toList.map (fun old => (old.path, old.usn)) ++ [(record.path, record.usn)]
  else [(record.path, record.usn)]

section

variable (ordinalEquals : OrdinalEquals) (ctx : SemanticRootContext) (candidatesByRoot : RootCandidates)

/-- A root can be compared with a path, unless it starts to read after it. -/
def Comparable (path : List UInt16 × Int) (index : Nat) : Prop :=
  startsAfter ctx index path.2 = true ∨ (isInside ordinalEquals ctx index path.1).isOk = true

/-- A root that the page was not given up for, neither before it nor by a path of its records so far. -/
def HealthyAfter (history : List ResolvedRecord) (index : Nat) : Prop :=
  rootFailed candidatesByRoot index = false ∧ ∀ before record after, history = before ++ record :: after →
      ∀ path ∈ lookups before record, Comparable ordinalEquals ctx path index

/-- A record lies in a root that is healthy when the record is met. -/
def LiesIn (history : List ResolvedRecord) (record : ResolvedRecord) (index : Nat) : Prop :=
  HealthyAfter ordinalEquals ctx candidatesByRoot history index ∧ startsAfter ctx index record.usn = false ∧
    isInside ordinalEquals ctx index record.path = .ok true

/-- A record uses a carry up: it has a new name and not an old one, no old name of the file waits in the page, the carry is the
one that is selected, its root is known, and the new name lies in exactly one healthy root, another one than the carry's. -/
def UsesCarry (pendingRenames : List NativePendingRenameCarry) (history : List ResolvedRecord) (record : ResolvedRecord)
    (index : Nat) : Prop :=
  record.isNewName = true ∧ record.isOldName = false ∧ openOldName history record.fileReference = none ∧
    ∃ carry, selectCarry pendingRenames record = some (index, carry) ∧ carry.root.isSome = true ∧
      ∃ current, (∀ i, LiesIn ordinalEquals ctx candidatesByRoot history record i ↔ i = current) ∧
        carry.readRootIndex ≠ some current

end

/-! ## The old names that wait -/

theorem openOldName_append (hist : List ResolvedRecord) (rec : ResolvedRecord) (ref : FileReference) :
    openOldName (hist ++ [rec]) ref =
      if rec.fileReference = ref ∧ (rec.isOldName = true ∨ rec.isNewName = true) then
        if rec.isOldName then some rec else none
      else openOldName hist ref := by
  unfold openOldName
  rw [reverse_append, reverse_singleton, singleton_append, find?_cons]
  by_cases h : rec.fileReference = ref ∧ (rec.isOldName = true ∨ rec.isNewName = true)
  · have ht : (rec.fileReference == ref && (rec.isOldName || rec.isNewName)) = true := by simpa using h
    rw [ht, if_pos h]
    exact Option.filter_some
  · have ht : (rec.fileReference == ref && (rec.isOldName || rec.isNewName)) = false := by
      simpa [← Bool.not_eq_true] using h
    rw [ht, if_neg h]

/-- A search that no element of the list competes for finds the element that was put in. -/
theorem find?_orderedInsert {α : Type} (r : α → α → Prop) [DecidableRel r] (p : α → Bool) (x : α) (l : List α)
    (h : p x = true → l.find? p = none) : (l.orderedInsert r x).find? p = if p x then some x else l.find? p := by
  induction l with
  | nil => cases hx : p x <;> simp [hx]
  | cons y l ih =>
    rw [orderedInsert_cons]
    split
    · cases hx : p x <;> simp [hx, find?_cons]
    · cases hx : p x with
      | true =>
        obtain ⟨hy, hl⟩ : ¬p y = true ∧ ∀ z ∈ l, ¬p z = true := by simpa using h hx
        simpa [hx, find?_cons, hy] using ih fun _ => by simpa using hl
      | false =>
        have := ih fun h' => by simp [hx] at h'
        simp [find?_cons, this, hx]

/-- Taking a file out of the map changes its entry only. -/
theorem find?_filter_reference (oldNames : List ResolvedRecord) (gone ref : FileReference) :
    (oldNames.filter fun old => old.fileReference != gone).find? (fun old => old.fileReference == ref) =
      if gone = ref then none else oldNames.find? fun old => old.fileReference == ref := by
  rw [find?_filter]
  split
  · next h =>
    subst h
    simp
  · next h =>
    congr 1
    funext old
    by_cases hold : old.fileReference = ref
    · simp [hold, Ne.symm h]
    · simp [hold]

/-- Putting a record into the map changes the entry of its file only. -/
theorem find?_insertOldName (rec : ResolvedRecord) (oldNames : List ResolvedRecord) (ref : FileReference) :
    (insertOldName rec oldNames).find? (fun old => old.fileReference == ref) =
      if rec.fileReference = ref then some rec else oldNames.find? fun old => old.fileReference == ref := by
  unfold insertOldName
  have hm := find?_filter_reference oldNames rec.fileReference ref
  rw [find?_orderedInsert _ _ _ _ fun h => by rw [hm, if_pos (by simpa using h)], hm]
  by_cases h : rec.fileReference = ref <;> simp [h]

/-! ## The roots a path is compared with -/

section

variable {oeq : OrdinalEquals} {ctx : SemanticRootContext}

/-- Giving a root up changes nothing for the others. -/
theorem rootFailed_set (candidatesByRoot : RootCandidates) (idx i : Nat) (e : BackendError) :
    rootFailed (candidatesByRoot.set idx (.error e)) i = (rootFailed candidatesByRoot i || i == idx) := by
  unfold rootFailed
  by_cases h : i = idx
  · subst h
    by_cases hlt : i < candidatesByRoot.length
    · simp [getElem?_set_self hlt]
    · simp [not_lt.mp hlt]
  · simp [getElem?_set_ne (Ne.symm h), h]

section

variable (path : List UInt16) (usn : Int) (l : List Nat) (cbr : RootCandidates)

/-- A root is given up exactly for a path it cannot be compared with. -/
theorem rootsForPathWith_failed (i : Nat) : rootFailed (rootsForPathWith oeq ctx path usn l cbr).2 i = true ↔
      rootFailed cbr i = true ∨ i ∈ l ∧ ¬Comparable oeq ctx (path, usn) i := by
  induction l generalizing cbr with
  | nil => simp [rootsForPathWith]
  | cons idx l ih =>
    have hk (h : rootFailed cbr idx = true ∨ Comparable oeq ctx (path, usn) idx) :
        (rootFailed cbr i = true ∨ i ∈ l ∧ ¬Comparable oeq ctx (path, usn) i) ↔
          rootFailed cbr i = true ∨ i ∈ idx :: l ∧ ¬Comparable oeq ctx (path, usn) i := by
      by_cases hi : i = idx
      · subst hi
        rcases h with h | h <;> simp [h]
      · simp [hi]
    rw [rootsForPathWith]
    split
    · next h =>
      rw [ih]
      exact hk (by simpa [Comparable, or_assoc] using (Bool.or_eq_true _ _ ▸ h).imp id Or.inl)
    · next h =>
      split
      · next hin =>
        show rootFailed (rootsForPathWith oeq ctx path usn l cbr).2 i = true ↔ _
        rw [ih]
        exact hk (.inr (.inr (by rw [hin]; rfl)))
      · next hin =>
        rw [ih]
        exact hk (.inr (.inr (by rw [hin]; rfl)))
      · next e hin =>
        rw [ih, rootFailed_set]
        have hn : ¬Comparable oeq ctx (path, usn) idx := by
          rintro (hs | hs)
          · simp [show startsAfter ctx idx usn = true from hs] at h
          · rw [hin] at hs
            cases hs
        by_cases hi : i = idx
        · subst hi
          simp [hn]
        · simp [hi]

/-- The roots a path is found in: the healthy ones that read it and contain it. -/
theorem mem_rootsForPathWith (i : Nat) : i ∈ (rootsForPathWith oeq ctx path usn l cbr).1 ↔
      i ∈ l ∧ rootFailed cbr i = false ∧ startsAfter ctx i usn = false ∧ isInside oeq ctx i path = .ok true := by
  induction l generalizing cbr with
  | nil => simp [rootsForPathWith]
  | cons idx l ih =>
    rw [rootsForPathWith]
    split
    · next h =>
      rw [ih, mem_cons]
      by_cases hi : i = idx
      · subst hi
        rcases Bool.or_eq_true _ _ ▸ h with h | h <;> simp [h]
      · simp [hi]
    · next h =>
      obtain ⟨hf, hs⟩ : rootFailed cbr idx = false ∧ startsAfter ctx idx usn = false := by simpa using h
      split
      · next hin =>
        show i ∈ idx :: (rootsForPathWith oeq ctx path usn l cbr).1 ↔ _
        rw [mem_cons, ih, mem_cons]
        by_cases hi : i = idx
        · subst hi
          simp [hf, hs, hin]
        · simp [hi]
      · next hin =>
        rw [ih, mem_cons]
        by_cases hi : i = idx
        · subst hi
          simp [hin]
        · simp [hi]
      · next e hin =>
        rw [ih, mem_cons, rootFailed_set]
        by_cases hi : i = idx
        · subst hi
          simp [hin]
        · simp [hi]

/-- The roots of a path are listed in the order of their indices. -/
theorem rootsForPathWith_sublist : (rootsForPathWith oeq ctx path usn l cbr).1.Sublist l := by
  induction l generalizing cbr with
  | nil => exact List.Sublist.refl []
  | cons idx l ih =>
    rw [rootsForPathWith]
    split
    · exact (ih _).cons idx
    · split
      · exact (ih _).cons_cons idx
      · exact (ih _).cons idx
      · exact (ih _).cons idx

end

/-- An index without a root can be compared with every path. -/
theorem comparable_of_le (path : List UInt16 × Int) {i : Nat} (h : ctx.roots.length ≤ i) : Comparable oeq ctx path i := by
  refine .inr ?_
  rw [isInside, getElem?_eq_none h]
  rfl

section

variable (path : List UInt16) (usn : Int) (st : RootReadState)

theorem rootsForPath_failed (i : Nat) : rootFailed (rootsForPath oeq ctx path usn st).2.candidatesByRoot i = true ↔
      rootFailed st.candidatesByRoot i = true ∨ ¬Comparable oeq ctx (path, usn) i := by
  refine (rootsForPathWith_failed path usn _ st.candidatesByRoot i).trans (or_congr_right ?_)
  rw [mem_range]
  exact ⟨And.right, fun h => ⟨lt_of_not_ge fun hle => h (comparable_of_le _ hle), h⟩⟩

theorem mem_rootsForPath (i : Nat) : i ∈ (rootsForPath oeq ctx path usn st).1 ↔
      rootFailed st.candidatesByRoot i = false ∧ startsAfter ctx i usn = false ∧ isInside oeq ctx i path = .ok true := by
  refine (mem_rootsForPathWith path usn _ st.candidatesByRoot i).trans ⟨And.right, fun h => ⟨mem_range.mpr ?_, h⟩⟩
  by_contra hle
  have hin := h.2.2
  rw [isInside, getElem?_eq_none (not_lt.mp hle)] at hin
  cases hin

theorem rootsForPath_nodup : (rootsForPath oeq ctx path usn st).1.Nodup :=
  (rootsForPathWith_sublist path usn _ st.candidatesByRoot).nodup nodup_range

/-- A name of a rename is looked up like any path; only the barriers differ. -/
theorem rootsForRenamePath_roots : (rootsForRenamePath oeq ctx path usn st).1.1 = (rootsForPath oeq ctx path usn st).1 ∧
      (rootsForRenamePath oeq ctx path usn st).2.candidatesByRoot = (rootsForPath oeq ctx path usn st).2.candidatesByRoot :=
  ⟨rfl, rfl⟩

end

end

/-! ## The carries an event uses up -/

@[simp] theorem carriedIndices_append (events more : List SemanticEvent) :
    carriedIndices (events ++ more) = carriedIndices events ++ carriedIndices more :=
  filterMap_append

/-- A pair of the page itself uses no carry up. -/
theorem pairEvent_carried_none {pair : RenamePairEvent} (hp : pair.previousPendingIndex = none)
    (h : pairEvent ctx st pair curRoots uncertain = .ok events) : carriedIndices events = [] := by
  unfold pairEvent at h
  split at h
  · split at h <;> cases h <;> rfl
  · split at h
    · obtain ⟨cand, -, h⟩ := bind_ok h
      cases h
      rfl
    · obtain ⟨cands, -, h⟩ := bind_ok h
      cases h
      have hn : (pairHandoff pair curRoots).bind (·.previousPendingIndex) = none := by
        unfold pairHandoff
        split
        · split <;> simp [hp]
        · rfl
      split <;> simp [carriedIndices, hn]

/-- A pair with a carry uses it up if the new name lies in exactly one root and the carry was read in another one. -/
theorem pairEvent_carried_some {prevPath : List UInt16} {oldUsn : Int} {prev : Option Nat} {k : Nat} {cur : ResolvedRecord}
    (h : pairEvent ctx st ⟨prevPath, oldUsn, prev.toList, some k, cur⟩ curRoots uncertain = .ok events) :
    carriedIndices events = [k] ∧ (∃ c, curRoots = [c] ∧ prev ≠ some c) ∨
      carriedIndices events = [] ∧ ¬∃ c, curRoots = [c] ∧ prev ≠ some c := by
  unfold pairEvent at h
  rw [if_neg (by simp)] at h
  split at h
  · next hs =>
    obtain ⟨cand, -, h⟩ := bind_ok h
    cases h
    refine .inr ⟨rfl, ?_⟩
    rintro ⟨c, rfl, hc⟩
    exact hc (by simpa using hs.2)
  · next hs =>
    obtain ⟨cands, -, h⟩ := bind_ok h
    cases h
    by_cases ho : ∃ c, curRoots = [c] ∧ prev ≠ some c
    · refine .inl ⟨?_, ho⟩
      obtain ⟨c, rfl, hc⟩ := ho
      have hl : prev.toList.length ≤ 1 := by cases prev <;> simp
      simp [pairHandoff, hl, carriedIndices]
    · refine .inr ⟨?_, ho⟩
      have hn : pairHandoff ⟨prevPath, oldUsn, prev.toList, some k, cur⟩ curRoots = none := by
        unfold pairHandoff
        split
        · next c =>
          exfalso
          have hc : prev = some c := by
            by_contra hne
            exact ho ⟨c, rfl, hne⟩
          exact hs (by simp [hc])
        · rfl
      split <;> simp [carriedIndices, hn]

/-! ## The loop -/

section

variable {ordinalEquals oeq : OrdinalEquals} {ctx : SemanticRootContext}
  {pendingRenames pends : List NativePendingRenameCarry} {rst : RootReadState}
  {hist : List ResolvedRecord} {rec : ResolvedRecord}

theorem healthyAfter_nil (i : Nat) :
    HealthyAfter oeq ctx rst.candidatesByRoot [] i ↔ rootFailed rst.candidatesByRoot i = false :=
  ⟨And.left, fun h => ⟨h, fun before rec after heq => by simp at heq⟩⟩

theorem healthyAfter_append (hist : List ResolvedRecord) (rec : ResolvedRecord) (i : Nat) :
    HealthyAfter oeq ctx rst.candidatesByRoot (hist ++ [rec]) i ↔ HealthyAfter oeq ctx rst.candidatesByRoot hist i ∧
        ∀ path ∈ lookups hist rec, Comparable oeq ctx path i := by
  constructor
  · rintro ⟨h0, h⟩
    refine ⟨⟨h0, fun before r after heq => h before r (after ++ [rec]) (by simp [heq])⟩, h hist rec [] rfl⟩
  · rintro ⟨⟨h0, h⟩, hl⟩
    refine ⟨h0, fun before r after heq => ?_⟩
    rcases append_singleton_eq_iff.mp heq with ⟨-, rfl, rfl⟩ | ⟨after, -, heq⟩
    · exact hl
    · exact h before r after heq

/-- What the state of the loop says about the records so far. -/
structure PairingInv (ordinalEquals : OrdinalEquals) (ctx : SemanticRootContext)
    (pendingRenames : List NativePendingRenameCarry) (rootState : RootReadState) (history : List ResolvedRecord)
    (st : PairingState) : Prop where
  oldNames : ∀ reference, st.oldNames.find? (fun old => old.fileReference == reference) = openOldName history reference
  healthy : ∀ i, rootFailed st.rootState.candidatesByRoot i = false ↔
    HealthyAfter ordinalEquals ctx rootState.candidatesByRoot history i
  carried : Emitted (UsesCarry ordinalEquals ctx rootState.candidatesByRoot pendingRenames) history (carriedIndices st.events)

/-- The roots that a lookup leaves healthy. -/
theorem rootsForPath_healthy {path : List UInt16} {usn : Int} {st : RootReadState} {i : Nat} :
    rootFailed (rootsForPath oeq ctx path usn st).2.candidatesByRoot i = false ↔
      rootFailed st.candidatesByRoot i = false ∧ Comparable oeq ctx (path, usn) i := by
  rw [← Bool.not_eq_true, ← Bool.not_eq_true, rootsForPath_failed, not_or, not_not]

section

variable (hold : rec.isOldName = false) (hopen : rec.isNewName = true → openOldName hist rec.fileReference = none)

include hold hopen

/-- A record that no old name of the page is paired with looks its own path up. -/
theorem lookups_of_none : lookups hist rec = [(rec.path, rec.usn)] := by
  unfold lookups
  rw [if_neg (by simp [hold])]
  split
  · next hn => simp [hopen hn]
  · rfl

/-- A record that no old name of the page is paired with leaves them waiting. -/
theorem openOldName_append_of_none (ref : FileReference) : openOldName (hist ++ [rec]) ref = openOldName hist ref := by
  rw [openOldName_append]
  split
  · next h =>
    obtain ⟨rfl, h | h⟩ := h
    · simp [hold] at h
    · simp [hold, hopen h]
  · rfl

end

/-- A list without duplicates is a singleton when it has exactly one member. -/
theorem eq_singleton_iff_of_nodup {l : List Nat} (h : l.Nodup) (c : Nat) : l = [c] ↔ ∀ i, i ∈ l ↔ i = c := by
  constructor
  · rintro rfl i
    exact mem_singleton
  · intro hm
    refine perm_singleton.mp ((perm_ext_iff_of_nodup h (nodup_singleton c)).mpr fun i => ?_)
    rw [hm, mem_singleton]

section

variable {hist : List ResolvedRecord} {st st' : PairingState} {rec : ResolvedRecord}

section

variable (hinv : PairingInv oeq ctx pends rst hist st)

include hinv

/-- The roots that are found for a record are the ones it lies in. -/
theorem PairingInv.roots_eq_singleton_iff (c : Nat) : (rootsForPath oeq ctx rec.path rec.usn st.rootState).1 = [c] ↔
      ∀ i, LiesIn oeq ctx rst.candidatesByRoot hist rec i ↔ i = c := by
  rw [eq_singleton_iff_of_nodup (rootsForPath_nodup _ _ _)]
  refine forall_congr' fun i => ?_
  rw [mem_rootsForPath, hinv.healthy]
  rfl

/-- An old name waits, and nothing else changes. -/
theorem PairingInv.oldName (hold : rec.isOldName = true) : PairingInv oeq ctx pends rst (hist ++ [rec])
      { st with oldNames := insertOldName rec st.oldNames } where
  oldNames reference := by
    rw [find?_insertOldName, openOldName_append, hinv.oldNames]
    simp [hold]
  healthy i := by
    rw [healthyAfter_append, hinv.healthy]
    simp [lookups, hold]
  carried := hinv.carried.skip fun k h => by simp [h.2.1] at hold

/-- A pair of the page takes its old name out of the map. -/
theorem PairingInv.pairInPage {prev : ResolvedRecord} (hold : rec.isOldName = false) (hn : rec.isNewName = true)
    (hp : st.oldNames.find? (fun old => old.fileReference == rec.fileReference) = some prev)
    (h : pairInPage oeq ctx st prev rec = .ok st') :
    PairingInv oeq ctx pends rst (hist ++ [rec]) st' := by
  have hopen : openOldName hist rec.fileReference = some prev := hinv.oldNames _ ▸ hp
  obtain ⟨events, he, h⟩ := bind_ok h
  cases h
  constructor
  · intro ref
    rw [find?_filter_reference, openOldName_append, hinv.oldNames]
    simp [hold, hn]
  · intro i
    have hl : lookups hist rec = [(prev.path, prev.usn), (rec.path, rec.usn)] := by
      simp [lookups, hold, hn, hopen]
    rw [healthyAfter_append, hl, ← hinv.healthy]
    show rootFailed (rootsForPath oeq ctx rec.path rec.usn
      (rootsForRenamePath oeq ctx prev.path prev.usn st.rootState).2).2.candidatesByRoot i = false ↔ _
    rw [rootsForPath_healthy, (rootsForRenamePath_roots _ _ _).2, rootsForPath_healthy]
    simp [and_assoc]
  · rw [carriedIndices_append, pairEvent_carried_none rfl he, append_nil]
    exact hinv.carried.skip fun k hk => by simp [hk.2.2.1] at hopen

/-- The fields of the invariant at a record that no old name of the page is paired with. -/
theorem PairingInv.unpaired
    (hold : rec.isOldName = false) (hopen : rec.isNewName = true → openOldName hist rec.fileReference = none)
    (hn : st'.oldNames = st.oldNames) (hr : st'.rootState.candidatesByRoot =
      (rootsForPath oeq ctx rec.path rec.usn st.rootState).2.candidatesByRoot)
    (hc : Emitted (UsesCarry oeq ctx rst.candidatesByRoot pends) (hist ++ [rec]) (carriedIndices st'.events)) :
    PairingInv oeq ctx pends rst (hist ++ [rec]) st' where
  oldNames reference := by rw [hn, openOldName_append_of_none hold hopen, hinv.oldNames]
  healthy i := by
    rw [hr, rootsForPath_healthy, healthyAfter_append, lookups_of_none hold hopen, hinv.healthy]
    simp
  carried := hc

/-- A record that is paired with nothing uses no carry up. -/
theorem PairingInv.plainEvent (hold : rec.isOldName = false) (hopen : rec.isNewName = true →
      openOldName hist rec.fileReference = none ∧ selectCarry pends rec = none)
    (h : plainEvent oeq ctx st rec = .ok st') :
    PairingInv oeq ctx pends rst (hist ++ [rec]) st' := by
  obtain ⟨cands, -, h⟩ := bind_ok h
  cases h
  refine hinv.unpaired hold (fun hne => (hopen hne).1) rfl rfl ?_
  have hn : carriedIndices (if cands.isEmpty then [] else [⟨rec.usn, cands, none, none⟩]) = [] := by
    split <;> rfl
  rw [carriedIndices_append, hn, append_nil]
  refine hinv.carried.skip ?_
  rintro k ⟨hne, -, -, carry, hc, -⟩
  simp [(hopen hne).2] at hc

/-- A record that is paired with a carry uses it up if the new name lies in exactly one root, not the carry's. -/
theorem PairingInv.pairWithCarry {k : Nat}
    {carry : NativePendingRenameCarry} (hold : rec.isOldName = false) (hn : rec.isNewName = true)
    (hopen : openOldName hist rec.fileReference = none) (hc : selectCarry pends rec = some (k, carry))
    (h : pairWithCarry oeq ctx st k carry rec = .ok st') :
    PairingInv oeq ctx pends rst (hist ++ [rec]) st' := by
  have hu (j : Nat) : UsesCarry oeq ctx rst.candidatesByRoot pends hist rec j ↔
      j = k ∧ carry.root.isSome = true ∧ ∃ c, (rootsForPath oeq ctx rec.path rec.usn st.rootState).1 = [c] ∧
          carry.readRootIndex ≠ some c := by
    simp only [hinv.roots_eq_singleton_iff]
    constructor
    · rintro ⟨-, -, -, carry', hc', hr, ho⟩
      obtain ⟨rfl, rfl⟩ : k = j ∧ carry = carry' := by simpa [hc] using hc'
      exact ⟨rfl, hr, ho⟩
    · rintro ⟨rfl, hr, ho⟩
      exact ⟨hn, hold, hopen, carry, hc, hr, ho⟩
  simp only [Ame.pairWithCarry] at h
  split at h
  · next hr =>
    cases h
    refine hinv.unpaired hold (fun _ => hopen) rfl rfl (hinv.carried.skip fun j hj => ?_)
    simp [hr] at hu
    exact hu j hj
  · next root hr =>
    obtain ⟨prevPath, -, h⟩ := bind_ok h
    obtain ⟨events, he, h⟩ := bind_ok h
    cases h
    refine hinv.unpaired hold (fun _ => hopen) rfl rfl ?_
    rw [carriedIndices_append]
    rcases pairEvent_carried_some he with ⟨heq, ho⟩ | ⟨heq, ho⟩
    · rw [heq]
      exact hinv.carried.emit fun j => (hu j).trans ⟨And.left, fun hj => ⟨hj, by simp [hr], ho⟩⟩
    · rw [heq, append_nil]
      exact hinv.carried.skip fun j hj => ho ((hu j).mp hj).2.2

/-- One round keeps the invariant. -/
theorem PairingInv.pairRecord (h : pairRecord oeq ctx pends st rec = .ok st') :
    PairingInv oeq ctx pends rst (hist ++ [rec]) st' := by
  unfold Ame.pairRecord at h
  split at h
  · next hold =>
    cases h
    exact hinv.oldName hold
  next hold =>
  have hold : rec.isOldName = false := by simpa using hold
  split at h
  · next hne =>
    split at h
    · next prev hp => exact hinv.pairInPage hold hne hp h
    next hn =>
    have hopen : openOldName hist rec.fileReference = none := hinv.oldNames _ ▸ hn
    split at h
    · next k carry hc => exact hinv.pairWithCarry hold hne hopen hc h
    · next hc => exact hinv.plainEvent hold (fun _ => ⟨hopen, hc⟩) h
  · next hne => exact hinv.plainEvent hold (fun hne' => absurd hne' hne) h

end

/-- The old names that are left use no carry up. -/
theorem leaveOldName_carried (st : PairingState) (prev : ResolvedRecord) :
    carriedIndices (leaveOldName oeq ctx st prev).events = carriedIndices st.events := by
  unfold leaveOldName
  simp only
  split
  · rfl
  · rw [carriedIndices_append]
    exact append_nil _
  · rfl

end

/-- The carries that a page uses up are those of its records, in their order. -/
theorem semanticEvents_emitted {recs : List ResolvedRecord} {events : List SemanticEvent} {after : RootReadState}
    (h : semanticEvents oeq ctx pends recs rst = .ok (events, after)) :
    Emitted (UsesCarry oeq ctx rst.candidatesByRoot pends) recs (carriedIndices events) := by
  obtain ⟨-, -, h⟩ := bind_ok h
  obtain ⟨st, hst, h⟩ := bind_ok h
  cases h
  have hinv : PairingInv oeq ctx pends rst recs st :=
    (run_of_foldlM hst).invariant
      ⟨fun _ => rfl, fun i => (healthyAfter_nil i).symm, Emitted.nil⟩ fun _ _ _ _ hinv hs => hinv.pairRecord hs
  suffices hl : ∀ (l : List ResolvedRecord) (st : PairingState),
      carriedIndices (l.foldl (leaveOldName oeq ctx) st).events = carriedIndices st.events by
    rw [hl]
    exact hinv.carried
  intro l
  induction l with
  | nil => exact fun _ => rfl
  | cons old l ih => exact fun st => (ih _).trans (leaveOldName_carried st old)

/-- No carry is used up twice exactly if no two records of the page use up the same one. -/
theorem carried_once_iff {records : List ResolvedRecord} {events : List SemanticEvent} {after : RootReadState}
    (h : semanticEvents ordinalEquals ctx pendingRenames records rootState = .ok (events, after)) :
    (carriedIndices events).Nodup ↔
      ∀ before first between second rest carry, records = before ++ first :: between ++ second :: rest →
        UsesCarry ordinalEquals ctx rootState.candidatesByRoot pendingRenames before first carry →
          ¬UsesCarry ordinalEquals ctx rootState.candidatesByRoot pendingRenames (before ++ first :: between) second carry :=
  (semanticEvents_emitted h).nodup_iff

end

/-- A root on the volume of the examples. -/
def musicRoot : PinnedRootState := ⟨"volume", utf16Text "C:\\music", [.ordinalCaseSensitive]⟩

/-- The file of the examples. -/
def movedFile : FileReference := ⟨List.replicate 8 7, by decide⟩

/-- Its old name, from an earlier page, in a root that is not read now. -/
def movedCarry : NativePendingRenameCarry :=
  ⟨some ⟨"volume", utf16Text "C:\\photos", [.ordinalCaseSensitive]⟩, none, movedFile.bytes, 5, "a.jpg", false⟩

/-- A record of its new name, in the root that is read. -/
def movedRecord (usn : Int) (reason : UInt32) : ResolvedRecord :=
  ⟨utf16Text "C:\\music\\a.jpg", movedFile, usn, reason, false⟩

/-- What a page makes of records of the moved file. -/
def movedPage (records : List ResolvedRecord) : Except BackendError (List SemanticEvent × RootReadState) :=
  semanticEvents noOrdinalEquals ⟨[musicRoot], [0]⟩ [movedCarry] records ⟨[.ok []], none, [none]⟩

/-- The new name is followed by other changes of the file (`0x1`, `0x80000000`), and the carry is used up once. -/
theorem carried_once_iff_changed : ∃ records events after, records.map (·.usn) = [10, 11, 12] ∧
    movedPage records = .ok (events, after) ∧ carriedIndices events = [0] ∧
      ∀ before first between second rest carry, records = before ++ first :: between ++ second :: rest →
        UsesCarry noOrdinalEquals ⟨[musicRoot], [0]⟩ [.ok []] [movedCarry] before first carry →
          ¬UsesCarry noOrdinalEquals ⟨[musicRoot], [0]⟩ [.ok []] [movedCarry] (before ++ first :: between) second carry := by
  refine ⟨[movedRecord 10 0x2000, movedRecord 11 0x1, movedRecord 12 0x80000000], ?_⟩
  have ht : (movedPage [movedRecord 10 0x2000, movedRecord 11 0x1, movedRecord 12 0x80000000]).map
      (fun page => carriedIndices page.1) = .ok [0] := by decide +kernel
  obtain ⟨page, h, hi⟩ := map_ok ht
  exact ⟨page.1, page.2, rfl, h, hi, (carried_once_iff h).mp (by rw [hi]; decide)⟩

/-- The new name is repeated when the file is closed (`0x80000000`), and the carry is used up twice. -/
theorem carried_twice : [movedRecord 10 0x2000, movedRecord 11 0x80002000].Pairwise (·.usn < ·.usn) ∧
    ∃ events after, movedPage [movedRecord 10 0x2000, movedRecord 11 0x80002000] = .ok (events, after) ∧
      ¬(carriedIndices events).Nodup := by
  refine ⟨by decide, ?_⟩
  have ht : (movedPage [movedRecord 10 0x2000, movedRecord 11 0x80002000]).map (fun page => carriedIndices page.1) =
      .ok [0, 0] := by decide +kernel
  obtain ⟨page, h, hi⟩ := map_ok ht
  exact ⟨page.1, page.2, h, by rw [hi]; decide⟩

end Ame
