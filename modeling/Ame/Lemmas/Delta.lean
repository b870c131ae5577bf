import Ame.Catalog.Delta
import Ame.Lib.History
import Ame.Lib.Separated

/-!
# What mutations do to the locations at a path

A mutation deletes locations, may write one, and may bring the state of the written one to the locations with the same
identity. Seen from one path of the root it either writes there or only deletes and updates.
-/

namespace Ame

open List Result History Transition Separated CatalogRows

variable {path : String} {location loc w : AssetLocationView} {generation gen : Nat}

/-- The locations of a root at a path. -/
def CatalogRows.locationsAt (rows : CatalogRows) (rootId path : String) : List AssetLocationView :=
  rows.locations.filter fun location => location.rootId == rootId && location.relativePath == path

@[simp]
theorem mem_locationsAt {rows : CatalogRows} {rootId : String} {l : AssetLocationView} :
    l ∈ rows.locationsAt rootId path ↔ l ∈ rows.locations ∧ l.rootId = rootId ∧ l.relativePath = path := by
  simp [locationsAt]

/-- An update of locations that keeps where they are and which file they are of, and may give those with the identity of
`written` its state. -/
structure Propagates (written : Option AssetLocationView) (update : AssetLocationView → AssetLocationView) : Prop where
  rootId : ∀ l, (update l).rootId = l.rootId
  relativePath : ∀ l, (update l).relativePath = l.relativePath
  locationId : ∀ l, (update l).locationId = l.locationId
  fileIdentity : ∀ l, (update l).fileIdentity = l.fileIdentity
  state : ∀ l, (update l).state = l.state ∨
    ∃ w ∈ written, w.fileIdentity.isSome ∧ l.fileIdentity = w.fileIdentity ∧ (update l).state = w.state

/-- No update at all. -/
theorem Propagates.id (written : Option AssetLocationView) : Propagates written (fun l => l) :=
  ⟨fun _ => rfl, fun _ => rfl, fun _ => rfl, fun _ => rfl, fun _ => .inl rfl⟩

/-- The propagation of a location whose identity is known. -/
theorem observedThrough_propagates (h : loc.fileIdentity.isSome) (generation : Nat) :
    Propagates (some loc) (observedThrough loc generation) := by
  refine ⟨?_, ?_, ?_, ?_, ?_⟩ <;> intro l <;> unfold observedThrough <;> split
  all_goals first | rfl | skip
  · rename_i heq
    exact .inr ⟨loc, rfl, h, heq, by simp [AssetLocationView.state, heq]⟩
  · exact .inl rfl

/-! ## One mutation -/

variable {rootId : String} {state state' : DeltaState} {mutation : CatalogDeltaMutation}

theorem allocateSourceGeneration_locations {rows rows' : CatalogRows}
    (h : allocateSourceGeneration rows = .ok (rows', gen)) : rows'.locations = rows.locations := by
  unfold allocateSourceGeneration at h
  split at h
  · cases h
  · cases h
    rfl

/-- A new generation is propagated, a requested one is not. -/
theorem assignGeneration_spec {ident : FileIdentityEvidence} {reqd : Option Nat} (hi : loc.fileIdentity = some ident)
    (h : assignGeneration state ident loc reqd = .ok (state', gen)) :
    ∃ update, Propagates (some loc) update ∧ state'.rows.locations = state.rows.locations.map update := by
  obtain ⟨group, -, h⟩ := bind_ok h
  obtain ⟨⟨rows, g⟩, hr, h⟩ := bind_ok h
  cases h
  cases reqd with
  | some reqd =>
    simp only [newGeneration] at hr
    split at hr
    · cases hr
    · cases hr
      exact ⟨_, .id _, by simp⟩
  | none =>
    obtain ⟨allocated, ha, hr⟩ := bind_ok hr
    cases hr
    refine ⟨_, observedThrough_propagates (by simp [hi]) allocated.2, ?_⟩
    show allocated.1.locations.map _ = _
    rw [allocateSourceGeneration_locations ha]

/-- The source of a location is reconciled by an update of the others. -/
theorem reconcileLocationSource_spec (h : reconcileLocationSource state loc = .ok (state', gen)) :
    ∃ update, Propagates (some loc) update ∧ state'.rows.locations = state.rows.locations.map update := by
  have unchanged : state'.rows.locations = state.rows.locations →
      ∃ update, Propagates (some loc) update ∧ state'.rows.locations = state.rows.locations.map update :=
    fun heq => ⟨_, .id _, by simp [heq]⟩
  obtain ⟨-, -, h⟩ := bind_ok h
  obtain ⟨-, -, h⟩ := bind_ok h
  obtain ⟨-, -, h⟩ := bind_ok h
  obtain ⟨reqd, -, h⟩ := bind_ok h
  unfold resolveGeneration at h
  split at h
  · rename_i identity _ hi
    split at h
    · obtain ⟨known, -, h⟩ := bind_ok h
      cases h
      exact unchanged rfl
    · exact assignGeneration_spec hi h
  · cases h
    exact unchanged rfl
  · obtain ⟨⟨allocated, g'⟩, ha, h⟩ := bind_ok h
    cases h
    exact unchanged (allocateSourceGeneration_locations ha)

/-- A mutation deletes, updates what is left, and writes. -/
theorem applyMutation_spec (h : applyMutation rootId state mutation = .ok state') :
    ∃ update generation, Propagates mutation.upsertLocation update ∧ state'.rows.locations =
        (state.rows.locations.filter fun l => !mutation.deletes rootId l).map update ++
          (mutation.upsertLocation.map fun w => { w with rootId := rootId, sourceGeneration := generation }).toList := by
  unfold applyMutation at h
  cases hw : mutation.upsertLocation with
  | none =>
    simp only [hw] at h
    cases h
    exact ⟨_, 0, .id _, by simp⟩
  | some w =>
    simp only [hw] at h
    obtain ⟨⟨reconciled, generation⟩, hr, h⟩ := bind_ok h
    cases h
    obtain ⟨update, hu, hro⟩ := reconcileLocationSource_spec hr
    exact ⟨update, generation, hu, by simp [hro]⟩

/-! ## Seen from one path -/

/-- The mutation writes nothing at the path. -/
def CatalogDeltaMutation.Avoids (mutation : CatalogDeltaMutation) (path : String) : Prop :=
  ∀ w ∈ mutation.upsertLocation, w.relativePath ≠ path

/-- An update keeps the path, so it commutes with the choice of a path. -/
theorem Propagates.filter_map {written : Option AssetLocationView} {update : AssetLocationView → AssetLocationView}
    (h : Propagates written update) (path : String) (l : List AssetLocationView) :
    (l.map update).filter (fun x => x.rootId == rootId && x.relativePath == path) =
      (l.filter fun x => x.rootId == rootId && x.relativePath == path).map update := by
  rw [List.filter_map]
  congr 1
  exact filter_congr fun x _ => by simp [h.rootId, h.relativePath]

/-- A mutation that writes nothing at a path deletes and updates there. -/
theorem locationsAt_of_avoids (h : applyMutation rootId state mutation = .ok state') (hp : mutation.Avoids path) :
    ∃ update, Propagates mutation.upsertLocation update ∧ state'.rows.locationsAt rootId path =
      ((state.rows.locationsAt rootId path).filter fun l => !mutation.deletes rootId l).map update := by
  obtain ⟨update, generation, hu, hr⟩ := applyMutation_spec h
  refine ⟨update, hu, ?_⟩
  have hwr : (mutation.upsertLocation.map fun w => { w with rootId := rootId, sourceGeneration := generation }).toList.filter
      (fun l => l.rootId == rootId && l.relativePath == path) = [] := by
    cases hw : mutation.upsertLocation with
    | none => rfl
    | some w => simp [hp w hw]
  rw [locationsAt, hr, filter_append, hwr, append_nil, hu.filter_map, locationsAt, filter_comm]

/-- A mutation that writes at a path adds its location to what is left there. -/
theorem locationsAt_of_writes (h : applyMutation rootId state mutation = .ok state')
    (hw : mutation.upsertLocation = some w) (hp : w.relativePath = path) :
    ∃ update generation, Propagates (some w) update ∧ state'.rows.locationsAt rootId path =
      ((state.rows.locationsAt rootId path).filter fun l => !mutation.deletes rootId l).map update ++
        [{ w with rootId := rootId, sourceGeneration := generation }] := by
  obtain ⟨update, generation, hu, hr⟩ := applyMutation_spec h
  refine ⟨update, generation, hw ▸ hu, ?_⟩
  rw [locationsAt, hr, filter_append, hu.filter_map, locationsAt, filter_comm, hw]
  simp [hp]

/-- The root has exactly one location at the path, and it carries the state. -/
def CatalogRows.Holds (rows : CatalogRows) (rootId path : String) (fileState : FileState) : Prop :=
  ∃ l, rows.locationsAt rootId path = [l] ∧ l.state = fileState

/-- What is written where everything is deleted is all there is. -/
theorem holds_of_writes (h : applyMutation rootId state mutation = .ok state') (hw : mutation.upsertLocation = some w)
    (hp : w.relativePath = path) (hd : ∀ l ∈ state.rows.locationsAt rootId path, mutation.deletes rootId l = true) :
    state'.rows.Holds rootId path w.state := by
  obtain ⟨update, generation, -, hr⟩ := locationsAt_of_writes h hw hp
  have hn : (state.rows.locationsAt rootId path).filter (fun l => !mutation.deletes rootId l) = [] :=
    filter_eq_nil_iff.mpr fun l hl => by simp [hd l hl]
  refine ⟨{ w with rootId := rootId, sourceGeneration := generation }, ?_, rfl⟩
  rw [hr, hn, map_nil, nil_append]

/-- Where everything is deleted and nothing is written there is nothing. -/
theorem locationsAt_eq_nil_of_deletes (h : applyMutation rootId state mutation = .ok state') (hp : mutation.Avoids path)
    (hd : ∀ l ∈ state.rows.locationsAt rootId path, mutation.deletes rootId l = true) :
    state'.rows.locationsAt rootId path = [] := by
  obtain ⟨update, -, hr⟩ := locationsAt_of_avoids h hp
  rw [hr, filter_eq_nil_iff.mpr fun l hl => by simp [hd l hl], map_nil]

/-- A mutation that writes elsewhere, deletes nothing here and says the same of the file here. -/
structure CatalogDeltaMutation.Spares (mutation : CatalogDeltaMutation) (rows : CatalogRows) (rootId path : String)
    (fileState : FileState) : Prop where
  avoids : mutation.Avoids path
  keeps : ∀ l ∈ rows.locationsAt rootId path, mutation.deletes rootId l = false
  agrees : ∀ w ∈ mutation.upsertLocation, w.fileIdentity.isSome → w.fileIdentity = fileState.fileIdentity → w.state = fileState

/-- A location that is spared still holds the state. -/
theorem Holds.of_spares {fileState : FileState} (h : applyMutation rootId state mutation = .ok state')
    (hh : state.rows.Holds rootId path fileState) (hs : mutation.Spares state.rows rootId path fileState) :
    state'.rows.Holds rootId path fileState := by
  obtain ⟨l, hl, hst⟩ := hh
  obtain ⟨update, hu, hr⟩ := locationsAt_of_avoids h hs.avoids
  have hk : (state.rows.locationsAt rootId path).filter (fun l => !mutation.deletes rootId l) = [l] := by
    rw [hl, filter_eq_self]
    intro x hx
    simp [hs.keeps x (hl ▸ hx)]
  refine ⟨update l, by rw [hr, hk, map_singleton], ?_⟩
  rcases hu.state l with hsa | ⟨w, hw, hso, hid, hws⟩
  · rw [hsa, hst]
  · have hi : w.fileIdentity = fileState.fileIdentity := by rw [← hid, ← hst]; rfl
    rw [hws, hs.agrees w hw hso hi]

/-- What is at the path after mutations that avoid it was there before, under the same identifier and identity. -/
theorem origin_of_avoids {mutations : List CatalogDeltaMutation}
    (h : mutations.foldlM (applyMutation rootId) state = .ok state') (hp : ∀ m ∈ mutations, m.Avoids path) :
    ∀ l' ∈ state'.rows.locationsAt rootId path, ∃ l ∈ state.rows.locationsAt rootId path,
      l'.locationId = l.locationId ∧ l'.fileIdentity = l.fileIdentity := by
  induction mutations generalizing state with
  | nil =>
    cases h
    exact fun l hl => ⟨l, hl, rfl, rfl⟩
  | cons m ms ih =>
    obtain ⟨middle, hm, hms⟩ := bind_ok h
    intro l' hl'
    obtain ⟨l, hl, hid, hi⟩ := ih hms (fun m' hm' => hp m' (mem_cons_of_mem _ hm')) l' hl'
    obtain ⟨update, hu, hr⟩ := locationsAt_of_avoids hm (hp m mem_cons_self)
    rw [hr] at hl
    obtain ⟨l0, hl0, rfl⟩ := mem_map.mp hl
    exact ⟨l0, mem_of_mem_filter hl0, hid.trans (hu.locationId l0), hi.trans (hu.fileIdentity l0)⟩

end Ame
