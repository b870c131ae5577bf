import Ame.Preview.Store

/-!
# The preview store shows the last publication, and says when that changes

A publication replaces what the store has for its location in every cache, so that all caches agree on the last publication. What
a view shows then depends only on whether any of them still holds the location, and each call notifies the locations for which
that changes.
-/

namespace Ame

open List LinkedMap LibraryPreviewStore

variable {maxF maxR limit : Nat} {s s' : LibraryPreviewStore} {last last' : String → Option LibraryAsset}
  {asset fallback : LibraryAsset} {id : String} {cache : PreviewCache} {status : LibraryPreviewStatus}

namespace LibraryPreviewStore

/-- All entries of the caches. -/
def all (s : LibraryPreviewStore) : List (String × LibraryAsset) := s.entries.entries ++ s.ready.entries ++ s.failures.entries

/-- Every cache holds last publications only; no location is in both bounded caches, and these are within their limits. -/
structure Current (maxFailures maxReady : Nat) (s : LibraryPreviewStore) (last : String → Option LibraryAsset) : Prop where
  latest : ∀ entry ∈ s.all, last entry.1 = some entry.2
  disjoint : ∀ id ∈ s.ready.keys, id ∉ s.failures.keys
  readyLimit : s.ready.entries.length ≤ maxReady
  failureLimit : s.failures.entries.length ≤ maxFailures

/-- The store has a preview of the location. -/
def Held (s : LibraryPreviewStore) (id : String) : Prop := id ∈ s.entries.keys ∨ id ∈ s.ready.keys ∨ id ∈ s.failures.keys

theorem mem_all_of_stored (h : s.stored id = some asset) : (id, asset) ∈ s.all := by
  simp only [stored, Option.or_eq_some_iff, get?_eq_some] at h
  simp only [all, mem_append]
  rcases h with he | ⟨-, hr | ⟨-, hf⟩⟩
  · exact Or.inl (Or.inl he)
  · exact Or.inl (Or.inr hr)
  · exact Or.inr hf

/-- Nothing is stored of what no cache holds. -/
theorem stored_eq_none : s.stored id = none ↔ ¬s.Held id := by
  simp only [stored, Option.or_eq_none_iff, get?_eq_none, Held, not_or]

/-- What is stored is the last publication, so only whether anything is stored can change without a publication. -/
theorem Current.stored_congr (h : s.Current maxF maxR last) (h' : s'.Current maxF maxR last')
    (hl : last' id = last id) (hh : s'.Held id ↔ s.Held id) : s'.stored id = s.stored id := by
  cases hs : s.stored id with
  | none => rwa [stored_eq_none, hh, ← stored_eq_none]
  | some asset =>
    cases hs' : s'.stored id with
    | none =>
      rw [stored_eq_none, hh, ← stored_eq_none, hs] at hs'
      cases hs'
    | some asset' =>
      rw [← h.latest _ (mem_all_of_stored hs), ← h'.latest _ (mem_all_of_stored hs')]
      exact hl

/-! ## A publication -/

/-- A cache after a publication holds it only if it has the status of the cache, and otherwise what it held. -/
theorem mem_cached {e : String × LibraryAsset} (h : e ∈ (s.cached status limit asset cache).1.entries) :
    e = (asset.locationId, asset) ∧ asset.previewStatus = status ∨ e ∈ cache.entries ∧ e.1 ≠ asset.locationId := by
  unfold cached at h
  split at h
  · next hs =>
    exact (LinkedMap.mem_renew.mp ((evictEntries_sublist _ _).subset h)).imp_left fun heq => ⟨heq, hs⟩
  · obtain ⟨hold, hne⟩ := mem_filter.mp h
    exact Or.inr ⟨hold, of_decide_eq_true hne⟩

theorem mem_keys_cached (h : id ∈ (s.cached status limit asset cache).1.keys) :
    id = asset.locationId ∧ asset.previewStatus = status ∨ id ∈ cache.keys ∧ id ≠ asset.locationId := by
  obtain ⟨a, ha⟩ := LinkedMap.mem_keys.mp h
  exact (mem_cached ha).imp (And.imp_left (congrArg Prod.fst)) (And.imp_left fun hold => LinkedMap.mem_keys.mpr ⟨a, hold⟩)

/-- A cache keeps to its limit. -/
theorem length_cached (h : cache.entries.length ≤ limit) : (s.cached status limit asset cache).1.entries.length ≤ limit := by
  unfold cached
  split
  · exact length_evictEntries _ _
  · exact (length_filter_le _ _).trans h

/-- A location that a publication drops from a cache has an entry or is evicted. -/
theorem cached_keeps (h : id ∈ cache.keys) (hne : id ≠ asset.locationId) :
    id ∈ (s.cached status limit asset cache).1.keys ∨ id ∈ s.entries.keys ∨ id ∈ (s.cached status limit asset cache).2 := by
  obtain ⟨a, ha⟩ := LinkedMap.mem_keys.mp h
  unfold cached
  split
  · have had : id ∈ (cache.renew asset.locationId asset).keys :=
      LinkedMap.mem_keys.mpr ⟨a, LinkedMap.mem_renew.mpr (Or.inr ⟨ha, hne⟩)⟩
    by_cases hk : id ∈ ((cache.renew asset.locationId asset).evict limit).keys
    · exact Or.inl hk
    by_cases he : id ∈ s.entries.keys
    · exact Or.inr (Or.inl he)
    · exact Or.inr (Or.inr (mem_filter.mpr ⟨had, decide_eq_true ⟨hk, he⟩⟩))
  · exact Or.inl (LinkedMap.mem_keys.mpr ⟨a, mem_filter.mpr ⟨ha, decide_eq_true hne⟩⟩)

/-- A publication is current. -/
theorem Current.publish (h : s.Current maxF maxR last) :
    (s.publish maxF maxR asset).1.Current maxF maxR ((PreviewCall.publish asset).record last) := by
  refine ⟨fun e hm => ?_, fun id hr hf => ?_, length_cached h.readyLimit, length_cached h.failureLimit⟩
  · have hold : e = (asset.locationId, asset) ∨ e ∈ s.all ∧ e.1 ≠ asset.locationId := by
      simp only [all, mem_append] at hm ⊢
      rcases hm with (he | hr) | hf
      · exact (LinkedMap.mem_renew.mp he).imp_right (And.imp_left fun hm => Or.inl (Or.inl hm))
      · exact (mem_cached hr).imp And.left (And.imp_left fun hm => Or.inl (Or.inr hm))
      · exact (mem_cached hf).imp And.left (And.imp_left Or.inr)
    rcases hold with rfl | ⟨hold, hne⟩
    · exact if_pos rfl
    · exact (if_neg (Ne.symm hne)).trans (h.latest e hold)
  · rcases mem_keys_cached hr, mem_keys_cached hf with ⟨⟨heq, hs⟩ | ⟨hr, hne⟩, ⟨heq', hs'⟩ | ⟨hf, hne'⟩⟩
    · cases hs.symm.trans hs'
    · exact hne' heq
    · exact hne heq'
    · exact h.disjoint id hr hf

/-- A publication notifies its own location and every location that it evicts for good. -/
theorem held_publish (hch : id ∈ s.channels) (hn : id ∉ (s.publish maxF maxR asset).2) :
    id ≠ asset.locationId ∧ ((s.publish maxF maxR asset).1.Held id ↔ s.Held id) := by
  simp only [publish, notify, mem_filter, decide_eq_true_eq, mem_append, mem_singleton, hch, and_true, not_or] at hn
  obtain ⟨⟨hnr, hnf⟩, hne⟩ := hn
  have hke : id ∈ (s.entries.renew asset.locationId asset).keys ↔ id ∈ s.entries.keys := by
    simp [LinkedMap.mem_keys, LinkedMap.mem_renew, hne]
  refine ⟨hne, ?_, ?_⟩
  · rintro (he | hr | hf)
    · exact Or.inl (hke.mp he)
    · exact Or.inr (Or.inl ((mem_keys_cached hr).resolve_left fun heq => hne heq.1).1)
    · exact Or.inr (Or.inr ((mem_keys_cached hf).resolve_left fun heq => hne heq.1).1)
  · rintro (he | hr | hf)
    · exact Or.inl (hke.mpr he)
    · exact (cached_keeps hr hne).elim (fun hk => Or.inr (Or.inl hk)) fun hor => Or.inl (hor.resolve_right hnr)
    · exact (cached_keeps hf hne).elim (fun hk => Or.inr (Or.inr hk)) fun hor => Or.inl (hor.resolve_right hnf)

/-! ## The other calls -/

/-- Each cache of the second store has only entries that the first one has in it. -/
structure Shrinks (s s' : LibraryPreviewStore) : Prop where
  entries : s'.entries.entries ⊆ s.entries.entries
  ready : s'.ready.entries ⊆ s.ready.entries
  failures : s'.failures.entries ⊆ s.failures.entries

theorem Shrinks.refl (s : LibraryPreviewStore) : s.Shrinks s := ⟨fun _ h => h, fun _ h => h, fun _ h => h⟩

theorem Shrinks.held (hs : s.Shrinks s') : s'.Held id → s.Held id := fun h =>
  h.imp (map_subset _ hs.entries ·) (Or.imp (map_subset _ hs.ready ·) (map_subset _ hs.failures ·))

/-- Forgetting keeps the rest current. -/
theorem Current.shrink (h : s.Current maxF maxR last) (hs : s.Shrinks s') : s'.Current maxF maxR last where
  latest := by
    simp only [all, forall_mem_append]
    have hl := h.latest
    simp only [all, forall_mem_append] at hl
    exact ⟨⟨fun e he => hl.1.1 e (hs.entries he), fun e he => hl.1.2 e (hs.ready he)⟩, fun e he => hl.2 e (hs.failures he)⟩
  disjoint := fun id hr hf => h.disjoint id (map_subset _ hs.ready hr) (map_subset _ hs.failures hf)
  readyLimit := (length_le_of_subset hs.ready).trans h.readyLimit
  failureLimit := (length_le_of_subset hs.failures).trans h.failureLimit

/-- A touch forgets nothing. -/
theorem touch_spec (fallback : LibraryAsset) : s.Shrinks (s.touch fallback) ∧ ∀ id, s.Held id → (s.touch fallback).Held id := by
  unfold touch
  split
  · next recent _ hre =>
    have hm := get?_eq_some.mp hre
    refine ⟨{ Shrinks.refl s with ready := fun e he => ?_ }, fun id h => h.imp_right (Or.imp_left fun hr => ?_)⟩
    · exact (LinkedMap.mem_renew.mp he).elim (fun heq => heq ▸ hm) And.left
    · obtain ⟨a, ha⟩ := LinkedMap.mem_keys.mp hr
      by_cases heq : id = fallback.locationId
      · exact LinkedMap.mem_keys.mpr ⟨recent, LinkedMap.mem_renew.mpr (Or.inl (heq ▸ rfl))⟩
      · exact LinkedMap.mem_keys.mpr ⟨a, LinkedMap.mem_renew.mpr (Or.inr ⟨ha, heq⟩)⟩
  · exact ⟨Shrinks.refl s, fun _ h => h⟩

theorem mem_keys_filter {p : String × LibraryAsset → Bool} (h : id ∈ cache.keys) :
    id ∈ (cache.filter p).keys ∨ id ∈ (cache.filter fun e => !p e).keys := by
  obtain ⟨a, ha⟩ := LinkedMap.mem_keys.mp h
  cases hp : p (id, a) with
  | true => exact Or.inl (LinkedMap.mem_keys.mpr ⟨a, mem_filter.mpr ⟨ha, hp⟩⟩)
  | false => exact Or.inr (LinkedMap.mem_keys.mpr ⟨a, mem_filter.mpr ⟨ha, by rw [hp]; rfl⟩⟩)

theorem filter_subset_entries (p : String × LibraryAsset → Bool) (cache : PreviewCache) :
    (cache.filter p).entries ⊆ cache.entries := filter_sublist.subset

/-- A call that publishes nothing only takes from the caches, and notifies the locations that are lost. -/
theorem apply_shrinks {call : PreviewCall} (hc : ∀ asset, call ≠ .publish asset) :
    s.Shrinks (s.apply maxF maxR call).1 ∧ ∀ id ∈ s.channels, s.Held id →
      (s.apply maxF maxR call).1.Held id ∨ id ∈ (s.apply maxF maxR call).2 := by
  cases call with
  | publish asset => exact absurd rfl (hc asset)
  | retain locationIds =>
    refine ⟨{ Shrinks.refl s with entries := filter_subset_entries _ _ }, fun id hch h => ?_⟩
    by_cases ho : id ∈ s.ready.keys ∨ id ∈ s.failures.keys
    · exact Or.inl (Or.inr ho)
    obtain ⟨a, ha⟩ := LinkedMap.mem_keys.mp (h.resolve_right ho)
    by_cases hid : id ∈ locationIds
    · exact Or.inl (Or.inl (LinkedMap.mem_keys.mpr ⟨a, mem_filter.mpr ⟨ha, decide_eq_true hid⟩⟩))
    · exact Or.inr (by simp [apply, retain, notify, hch, hid, h.resolve_right ho, not_or.mp ho])
  | resolve fallback => exact ⟨(touch_spec fallback).1, fun id _ h => Or.inl ((touch_spec fallback).2 id h)⟩
  | clear =>
    refine ⟨⟨nil_subset _, nil_subset _, nil_subset _⟩, fun id hch h => Or.inr ?_⟩
    simpa [apply, clear, notify, hch, Held] using h
  | invalidateRoot rootId =>
    refine ⟨⟨filter_subset_entries _ _, filter_subset_entries _ _, filter_subset_entries _ _⟩, fun id hch h => ?_⟩
    have hs {cache : PreviewCache} := @mem_keys_filter id cache (·.2.source.rootId = rootId)
    simp only [← decide_not] at hs
    simp only [apply, invalidateRoot, notify, mem_filter, mem_append, decide_eq_true hch, and_true, Held]
    rcases h with he | hr | hf
    · exact (hs he).symm.imp Or.inl fun hre => Or.inl (Or.inl hre)
    · exact (hs hr).symm.imp (fun hk => Or.inr (Or.inl hk)) fun hre => Or.inl (Or.inr hre)
    · exact (hs hf).symm.imp (fun hk => Or.inr (Or.inr hk)) Or.inr
  | changesFor locationId => exact ⟨{ Shrinks.refl s with }, fun id _ h => Or.inl h⟩
  | closeChannel locationId => exact ⟨{ Shrinks.refl s with }, fun id _ h => Or.inl h⟩

/-! ## Runs -/

/-- Every call keeps the caches current, and notifies the locations whose stored preview it changes. -/
theorem Current.apply (h : s.Current maxF maxR last) (call : PreviewCall) :
    (s.apply maxF maxR call).1.Current maxF maxR (call.record last) ∧ ∀ id ∈ s.channels, id ∉ (s.apply maxF maxR call).2 →
        (s.apply maxF maxR call).1.stored id = s.stored id := by
  by_cases hc : ∃ asset, call = .publish asset
  · obtain ⟨asset, rfl⟩ := hc
    refine ⟨h.publish, fun id hch hn => ?_⟩
    obtain ⟨hne, hh⟩ := held_publish hch hn
    exact h.stored_congr h.publish (if_neg hne.symm) hh
  · have hno asset (heq : call = .publish asset) : False := hc ⟨asset, heq⟩
    obtain ⟨hs, hk⟩ := @apply_shrinks maxF maxR s call hno
    have hr : call.record last = last := by
      cases call with
      | publish asset => exact absurd rfl (hno asset)
      | _ => rfl
    rw [hr]
    refine ⟨h.shrink hs, fun id hch hn => ?_⟩
    exact h.stored_congr (h.shrink hs) rfl ⟨hs.held, fun hh => (hk id hch hh).resolve_right hn⟩

/-- The store is current after every run. -/
theorem current_run (maxF maxR : Nat) (calls : List PreviewCall) :
    (run maxF maxR calls).Current maxF maxR (lastPublication calls) := by
  unfold run lastPublication
  induction calls using List.reverseRecOn with
  | nil => exact ⟨fun _ h => (by cases h), fun _ h => (by cases h), Nat.zero_le _, Nat.zero_le _⟩
  | append_singleton calls call ih =>
    rw [foldl_append, foldl_append]
    exact (ih.apply call).1

end LibraryPreviewStore

/-- The preview store never shows a stale preview and never misses a notification. After any calls, what `resolve` returns is the
fallback, or the fallback with the preview of the last publication for its location; the two bounded caches have no location in
common and are within their limits; and a call that changes what `resolve` returns for a fallback notifies the channel of its
location. -/
theorem preview_store_current (maxFailures maxReady : Nat) (calls : List PreviewCall) :
    let s := run maxFailures maxReady calls
    (∀ fallback, s.resolve fallback = fallback ∨ ∃ asset, lastPublication calls fallback.locationId = some asset ∧
      s.resolve fallback = fallback.withPreview asset.toLibraryPreviewFields) ∧
    ((∀ id ∈ s.ready.keys, id ∉ s.failures.keys) ∧ s.ready.entries.length ≤ maxReady ∧
      s.failures.entries.length ≤ maxFailures) ∧
    ∀ call fallback, (s.apply maxFailures maxReady call).1.resolve fallback ≠ s.resolve fallback →
      fallback.locationId ∈ s.channels → fallback.locationId ∈ (s.apply maxFailures maxReady call).2 := by
  have h := current_run maxFailures maxReady calls
  refine ⟨fun fallback => ?_, ⟨h.disjoint, h.readyLimit, h.failureLimit⟩, fun call fallback hne hch => ?_⟩
  · unfold resolve
    split
    · next preview hp =>
      have hs := (Option.filter_eq_some_iff.mp hp).1
      exact Or.inr ⟨preview, h.latest _ (mem_all_of_stored hs), rfl⟩
    · exact Or.inl rfl
  · by_contra hn
    refine hne ?_
    unfold resolve
    rw [(h.apply call).2 _ hch hn]

end Ame
