import Ame.Lemmas.Gallery
import Ame.Lib.Follow

/-!
# Paging through the gallery

Whatever limits the calls use, the pages one gets by following the cursors put together are the listing: forwards from the first
page, backwards from any page, and chunk by chunk in the layout manifest. A window around an anchor is the part of the listing it
says it is.
-/

namespace Ame

open List Follow

section Reads

variable (strftime : Int → Option String) (choice : Iter.Choice GalleryRow) (catalog : GalleryCatalog) (query : GalleryQuery)
  (queryId : String)

/-- A call for a page and its next cursor; without a cursor it is the first page. -/
def readNext (limit : Nat) (after : Option CatalogCursor) :
    Except ScanError (List GalleryRow × Option (Option CatalogCursor)) :=
  (loadSnapshot strftime catalog query queryId limit after none none).map fun snapshot =>
    (snapshot.assets, snapshot.nextCursor.map some)

/-- A call for the page before a cursor, and its previous cursor. -/
def readPrevious (limit : Nat) (before : CatalogCursor) : Except ScanError (List GalleryRow × Option CatalogCursor) :=
  (loadSnapshot strftime catalog query queryId limit none (some before) none).map fun snapshot =>
    (snapshot.assets, snapshot.previousCursor)

/-- A call for a chunk of the layout manifest and its cursor. -/
def readManifest (limit : Nat) (after : Option GalleryLayoutManifestCursor) :
    Except ScanError (List String × Option (Option GalleryLayoutManifestCursor)) :=
  (loadGalleryLayoutManifestChunk catalog query queryId limit after).map fun chunk =>
    (chunk.locationIds, chunk.nextCursor.map some)

/-- The pages one can come to: the first page, a window around an anchor, and from there by the cursors. -/
inductive ReachedPage : CatalogSnapshot → Prop where
  | first {limit : Nat} {snapshot : CatalogSnapshot}
      (hload : loadSnapshot strftime catalog query queryId limit none none none = .ok snapshot) : ReachedPage snapshot
  | anchored {limit : Nat} {anchor : GalleryQueryAnchor} {snapshot : CatalogSnapshot}
      (hload : loadAnchoredSnapshot strftime choice catalog query queryId limit anchor = .ok snapshot) : ReachedPage snapshot
  | next {limit : Nat} {snapshot snapshot' : CatalogSnapshot} {cursor : CatalogCursor} (hreached : ReachedPage snapshot)
      (hcursor : snapshot.nextCursor = some cursor)
      (hload : loadSnapshot strftime catalog query queryId limit (some cursor) none none = .ok snapshot') : ReachedPage snapshot'
  | previous {limit : Nat} {snapshot snapshot' : CatalogSnapshot} {cursor : CatalogCursor} (hreached : ReachedPage snapshot)
      (hcursor : snapshot.previousCursor = some cursor)
      (hload : loadSnapshot strftime catalog query queryId limit none (some cursor) none = .ok snapshot') : ReachedPage snapshot'

end Reads

section Results

variable {strftime : Int → Option String} {choice : Iter.Choice GalleryRow} {catalog : GalleryCatalog} {query q : GalleryQuery}
  {queryId qid : String}
  {start limit stop pos : Nat} {snapshot snap : CatalogSnapshot}

/-! ## One call at a position -/

theorem pageAt_assets (qid : String) : (pageAt catalog q qid start (min (start + limit) (catalog.listing q).length)).assets =
      ((catalog.listing q).drop start).take limit := by
  rw [pageAt, take_eq_take_iff, length_drop]
  omega

/-- The cursor in front of a position within the listing. -/
theorem predecessorAt_eq (hp : 0 < start) (hle : start ≤ (catalog.listing q).length) :
    predecessorAt catalog q qid start = some (cursorOf catalog q qid (catalog.listing q)[start - 1]) := by
  rw [predecessorAt, if_neg (by omega), getElem?_eq_getElem (by omega), Option.map_some]

theorem pageAt_nextCursor (hs : stop ≠ (catalog.listing q).length) (hp : 0 < stop) :
    (pageAt catalog q qid start stop).nextCursor = predecessorAt catalog q qid stop := by
  simp only [pageAt, predecessorAt]
  rw [if_neg hs, if_neg (by omega)]

theorem manifestAt_nextCursor (hs : stop ≠ (catalog.listing q).length) :
    (manifestAt catalog q qid start stop).nextCursor = manifestCursorAt catalog q qid stop := by
  simp only [manifestAt]
  rw [if_neg hs]

section

variable (catalog : GalleryCatalog) (query : GalleryQuery)

/-- A position from which a call reads forwards. -/
def ReadableAt (position : Nat) : Prop :=
  position = 0 ∨ position < (catalog.listing query).length

/-- The cursor with which a page starts at a position. -/
def NextAt (queryId : String) (position : Nat) (after : Option CatalogCursor) :
    Prop :=
  ReadableAt catalog query position ∧ after = predecessorAt catalog query queryId position

end

/-- A page read forwards. -/
theorem readNext_at (strftime : Int → Option String) {after : Option CatalogCursor} (hl : ValidLimit limit)
    (hat : NextAt catalog q qid pos after) :
    ∃ next, readNext strftime catalog q qid limit after = .ok (((catalog.listing q).drop pos).take limit, next) ∧
      (next = none ↔ (catalog.listing q).length ≤ pos + limit) ∧
      ∀ foll ∈ next, NextAt catalog q qid (pos + limit) foll := by
  obtain ⟨hr, rfl⟩ := hat
  have hle : pos ≤ (catalog.listing q).length := by
    rcases hr with rfl | hlt
    · exact Nat.zero_le _
    · exact Nat.le_of_lt hlt
  have hp := hl.1
  rw [readNext, loadSnapshot_window hl hle]
  refine ⟨_, congrArg Except.ok (Prod.ext (pageAt_assets qid) rfl), ?_⟩
  by_cases hla : (catalog.listing q).length ≤ pos + limit
  · have hn : (pageAt catalog q qid pos (catalog.listing q).length).nextCursor = none := if_pos rfl
    rw [Nat.min_eq_right hla, hn]
    simp [hla]
  · rw [Nat.min_eq_left (by omega), pageAt_nextCursor (by omega) (by omega), predecessorAt_eq (by omega) (by omega)]
    refine ⟨by simp [hla], ?_⟩
    rintro foll ⟨⟩
    exact ⟨.inr (by omega), (predecessorAt_eq (by omega) (by omega)).symm⟩

/-- The cursor with which a chunk starts at a position. -/
def ChunkAt (catalog : GalleryCatalog) (query : GalleryQuery) (queryId : String) (position : Nat)
    (after : Option GalleryLayoutManifestCursor) : Prop :=
  ReadableAt catalog query position ∧ after = manifestCursorAt catalog query queryId position

/-- A chunk of the manifest. -/
theorem readManifest_at {after : Option GalleryLayoutManifestCursor} (hl : ValidLimit limit)
    (hat : ChunkAt catalog q qid pos after) :
    ∃ next, readManifest catalog q qid limit after = .ok ((((catalog.listing q).map (·.locationId)).drop pos).take limit, next) ∧
      (next = none ↔ ((catalog.listing q).map (·.locationId)).length ≤ pos + limit) ∧
      ∀ foll ∈ next, ChunkAt catalog q qid (pos + limit) foll := by
  obtain ⟨hr, rfl⟩ := hat
  have hp := hl.1
  have hi : (manifestAt catalog q qid pos (min (pos + limit) (catalog.listing q).length)).locationIds =
      (((catalog.listing q).map (·.locationId)).drop pos).take limit := by
    rw [← map_drop, ← map_take]
    refine congrArg (List.map GalleryRow.locationId) ?_
    rw [take_eq_take_iff, length_drop]
    omega
  rw [readManifest, loadManifest_at hl hr]
  refine ⟨_, congrArg Except.ok (Prod.ext hi rfl), ?_⟩
  by_cases hla : (catalog.listing q).length ≤ pos + limit
  · have hn : (manifestAt catalog q qid pos (catalog.listing q).length).nextCursor = none := if_pos rfl
    rw [Nat.min_eq_right hla, hn]
    simp [hla]
  · rw [Nat.min_eq_left (by omega), manifestAt_nextCursor (by omega), manifestCursorAt, predecessorAt_eq (by omega) (by omega)]
    refine ⟨by simp [hla], ?_⟩
    rintro foll ⟨⟩
    refine ⟨.inr (by omega), ?_⟩
    rw [manifestCursorAt, predecessorAt_eq (by omega) (by omega), Option.map_some]

/-- The cursor of an item that has others before it. -/
def PrecededAt (catalog : GalleryCatalog) (query : GalleryQuery) (queryId : String) (position : Nat) (cursor : CatalogCursor) :
    Prop :=
  0 < position ∧ ∃ row, (catalog.listing query)[position]? = some row ∧ cursor = cursorOf catalog query queryId row

/-- A page read backwards. -/
theorem readPrevious_at {before : CatalogCursor} (hl : ValidLimit limit) (hat : PrecededAt catalog q qid pos before) :
    ∃ next, readPrevious strftime catalog q qid limit before = .ok (((catalog.listing q).take pos).drop (pos - limit), next) ∧
      (next = none ↔ pos ≤ limit) ∧
      ∀ preceding ∈ next, PrecededAt catalog q qid (pos - limit) preceding := by
  obtain ⟨hp, row, hr, rfl⟩ := hat
  have hlt := (List.getElem?_eq_some_iff.mp hr).1
  rw [readPrevious, loadSnapshot_before hl hr hp]
  refine ⟨_, congrArg Except.ok (Prod.ext (drop_take ..).symm rfl), ?_⟩
  dsimp only [pageAt]
  by_cases ha : pos ≤ limit
  · simp [ha]
  · rw [if_neg (by omega), getElem?_eq_getElem (by omega)]
    refine ⟨by simp [ha], ?_⟩
    rintro preceding ⟨⟩
    exact ⟨by omega, _, getElem?_eq_getElem (by omega), rfl⟩

/-! ## Any page -/

/-- A page that is part of the listing, with the cursors of that part. -/
def IsPage (catalog : GalleryCatalog) (query : GalleryQuery) (queryId : String) (start stop : Nat) (snapshot : CatalogSnapshot) :
    Prop :=
  { snapshot with queryAnchorResolution := none } = pageAt catalog query queryId start stop ∧
    stop ≤ (catalog.listing query).length ∧ (start < stop ∨ (catalog.listing query).length = 0 ∧ start = 0 ∧ stop = 0)

theorem IsPage.of_forward (qid : String) (hl : ValidLimit limit) (hr : ReadableAt catalog q start) :
    IsPage catalog q qid start (min (start + limit) (catalog.listing q).length)
      (pageAt catalog q qid start (min (start + limit) (catalog.listing q).length)) := by
  have hp := hl.1
  refine ⟨rfl, Nat.min_le_right _ _, ?_⟩
  rcases hr with rfl | hlt
  · rcases Nat.eq_zero_or_pos (catalog.listing q).length with hz | hn
    · exact .inr ⟨hz, rfl, by omega⟩
    · exact .inl (by omega)
  · exact .inl (by omega)

theorem IsPage.previousCursor (h : IsPage catalog q qid start stop snap) : (start = 0 ∧ snap.previousCursor = none) ∨
      ∃ cursor, snap.previousCursor = some cursor ∧ PrecededAt catalog q qid start cursor := by
  obtain ⟨hpa, hst, hs⟩ := h
  have hp : snap.previousCursor = (pageAt catalog q qid start stop).previousCursor := hpa ▸ rfl
  rw [hp, pageAt]
  by_cases hz : start = 0
  · exact .inl ⟨hz, if_pos hz⟩
  · have hlt : start < (catalog.listing q).length := by omega
    refine .inr ⟨cursorOf catalog q qid (catalog.listing q)[start], ?_, by omega, _, getElem?_eq_getElem hlt, rfl⟩
    rw [if_neg hz, getElem?_eq_getElem hlt, Option.map_some]

theorem IsPage.nextCursor (h : IsPage catalog q qid start stop snap) {cursor : CatalogCursor}
    (hc : snap.nextCursor = some cursor) : stop < (catalog.listing q).length ∧
      predecessorAt catalog q qid stop = some cursor := by
  obtain ⟨hp, hst, hs⟩ := h
  have hn : snap.nextCursor = (pageAt catalog q qid start stop).nextCursor := hp ▸ rfl
  rw [hn] at hc
  have hm : stop ≠ (catalog.listing q).length := by
    intro heq
    rw [pageAt] at hc
    rw [if_pos heq] at hc
    cases hc
  refine ⟨by omega, ?_⟩
  rw [← pageAt_nextCursor hm (by omega)]
  exact hc

theorem validLimit_of_anchoredLoad {anchor : GalleryQueryAnchor}
    (h : loadAnchoredSnapshot strftime choice catalog q qid limit anchor = .ok snap) :
    ValidLimit limit ∧ (trimIsEmpty anchor.requestedLocationId || anchor.assetId.any trimIsEmpty) = false := by
  unfold loadAnchoredSnapshot at h
  rw [← checkPageLimit_ok_iff]
  cases hc : checkPageLimit limit with
  | error error =>
    rw [hc] at h
    cases h
  | ok =>
    refine ⟨rfl, ?_⟩
    cases hb : trimIsEmpty anchor.requestedLocationId || anchor.assetId.any trimIsEmpty with
    | false => rfl
    | true =>
      rw [hc, if_pos hb] at h
      cases h

/-- Every page reached is a part of the listing. -/
theorem ReachedPage.isPage (hco : q.Coherent catalog) (h : ReachedPage strftime choice catalog q qid snap) :
    ∃ start stop, IsPage catalog q qid start stop snap := by
  induction h with
  | first hlo =>
    have hl := validLimit_of_load hlo
    rw [loadSnapshot_first hl] at hlo
    cases hlo
    have hpa := IsPage.of_forward qid hl (.inl rfl : ReadableAt catalog q 0)
    rw [Nat.zero_add] at hpa
    exact ⟨_, _, hpa⟩
  | anchored hlo =>
    obtain ⟨hl, hid⟩ := validLimit_of_anchoredLoad hlo
    obtain ⟨resolved, -, hsp, hre⟩ := loadAnchoredSnapshot_ok hco hl hid
    rw [hre] at hlo
    cases hlo
    have hr : ReadableAt catalog q resolved.1.windowStartOrdinal := by
      rcases hsp with rfl | ⟨i, row, hi, rfl⟩
      · exact .inl rfl
      · have := (List.getElem?_eq_some_iff.mp hi).1
        exact .inr (by dsimp only; omega)
    obtain ⟨-, hres⟩ := IsPage.of_forward qid hl hr
    exact ⟨_, _, rfl, hres⟩
  | next _ hc hlo ih =>
    obtain ⟨start, stop, hpa⟩ := ih
    obtain ⟨hlt, hp⟩ := hpa.nextCursor hc
    have hl := validLimit_of_load hlo
    rw [← hp, loadSnapshot_window hl (Nat.le_of_lt hlt)] at hlo
    cases hlo
    exact ⟨_, _, IsPage.of_forward qid hl (.inr hlt)⟩
  | previous _ hc hlo ih =>
    obtain ⟨start, stop, hpa⟩ := ih
    have hl := validLimit_of_load hlo
    rcases hpa.previousCursor with ⟨-, hn⟩ | ⟨cursor, hs, hpo, row, hro, rfl⟩
    · rw [hn] at hc
      cases hc
    · rw [hs] at hc
      cases hc
      rw [loadSnapshot_before hl hro hpo] at hlo
      cases hlo
      have := (List.getElem?_eq_some_iff.mp hro).1
      have := hl.1
      exact ⟨_, _, rfl, by omega, .inl (by omega)⟩

/-! ## Whole passes -/

/-- The matching items, each once, in the order of the query: each compares greater than those before it. -/
def InQueryOrder (catalog : GalleryCatalog) (query : GalleryQuery) (items : List GalleryRow) : Prop :=
  items.Perm (catalog.rows.filter query.filter) ∧
    items.Pairwise fun earlier later => query.forward.compare query later earlier = .gt

/-- The listing is in the order of its query. -/
theorem listing_inQueryOrder (catalog : GalleryCatalog) (query : GalleryQuery) :
    InQueryOrder catalog query (catalog.listing query) := by
  refine ⟨listing_perm catalog query, (listing_ascending catalog query).imp ?_⟩
  intro earlier later hlt
  by_contra hne
  exact absurd (GalleryQuery.forward_le_iff.mp ((GalleryQuery.isLE_iff_ne_gt _).mpr hne)) (not_le.mpr hlt)

theorem IsPage.assets (h : IsPage catalog q qid start stop snap) :
    snap.assets = ((catalog.listing q).drop start).take snap.assets.length ∧ (snap.assets = [] → catalog.listing q = []) := by
  obtain ⟨hp, hst, hs⟩ := h
  have ha : snap.assets = ((catalog.listing q).drop start).take (stop - start) := congrArg (·.assets) hp
  have hl : snap.assets.length = stop - start := by
    rw [ha, length_take, length_drop]
    omega
  refine ⟨by rw [hl]; exact ha, ?_⟩
  intro he
  rw [he, length_nil] at hl
  exact eq_nil_of_length_eq_zero (by omega)

/-- Going back from a page reads what stands directly before it. -/
theorem IsPage.follow_previous (h : IsPage catalog q qid start stop snap) : (snap.previousCursor = none ↔ start = 0) ∧
      ∀ cursor ∈ snap.previousCursor, ∀ limits ≠ [], (∀ limit ∈ limits, ValidLimit limit) →
        ∃ last, follow (readPrevious strftime catalog q qid) (fun items rest => rest ++ items) limits cursor =
            .ok (((catalog.listing q).take start).drop (start - limits.sum), last) ∧
          (last = none ↔ start ≤ limits.sum) := by
  rcases h.previousCursor with ⟨hz, hn⟩ | ⟨cursor, hs, hp⟩
  · exact ⟨by simp [hz, hn], by simp [hn]⟩
  · refine ⟨?_, ?_⟩
    · have := hp.1
      simp only [hs, reduceCtorEq, false_iff]
      omega
    · intro cursor' hc limits hne hv
      obtain rfl : cursor = cursor' := Option.some.inj (hs.symm.trans hc)
      exact follow_backward (fun limit pos before hl hat => readPrevious_at hl hat) hv hne hp

/-- **Paging is exact in both directions.** -/
theorem gallery_paging_exact (strftime : Int → Option String) (choice : Iter.Choice GalleryRow) (catalog : GalleryCatalog)
    (query : GalleryQuery) (queryId : String) (hcoherent : query.Coherent catalog) :
    ∃ listing, InQueryOrder catalog query listing ∧
      -- the next cursors, from the first page
      (∀ limits ≠ [], (∀ limit ∈ limits, ValidLimit limit) →
        ∃ last, follow (readNext strftime catalog query queryId) (· ++ ·) limits none = .ok (listing.take limits.sum, last) ∧
          (last = none ↔ listing.length ≤ limits.sum)) ∧
      -- the previous cursors, from any page
      (∀ snapshot, ReachedPage strftime choice catalog query queryId snapshot →
        ∃ start, snapshot.assets = (listing.drop start).take snapshot.assets.length ∧
          (snapshot.assets = [] → listing = []) ∧ (snapshot.previousCursor = none ↔ start = 0) ∧
          ∀ cursor ∈ snapshot.previousCursor, ∀ limits ≠ [], (∀ limit ∈ limits, ValidLimit limit) →
            ∃ last, follow (readPrevious strftime catalog query queryId) (fun items rest => rest ++ items) limits cursor =
                .ok ((listing.take start).drop (start - limits.sum), last) ∧
              (last = none ↔ start ≤ limits.sum)) ∧
      -- the window around an anchor
      (∀ limit anchor, ValidLimit limit → (trimIsEmpty anchor.requestedLocationId || anchor.assetId.any trimIsEmpty) = false →
        ∃ snapshot resolution, loadAnchoredSnapshot strftime choice catalog query queryId limit anchor = .ok snapshot ∧
          snapshot.queryAnchorResolution = some resolution ∧
          snapshot.assets = (listing.drop resolution.windowStartOrdinal).take limit ∧
          (∀ row ∈ catalog.rows, anchorRowFilter query (locationRequest anchor limit) row = true →
            resolution.locationId = some row.locationId) ∧
          ∀ locationId ∈ resolution.locationId, ∃ ordinal row, resolution.ordinal = some ordinal ∧
            resolution.windowStartOrdinal ≤ ordinal ∧ listing[ordinal]? = some row ∧ row.locationId = locationId ∧
            snapshot.assets[ordinal - resolution.windowStartOrdinal]? = some row) ∧
      -- the chunks of the layout manifest
      (∀ limits ≠ [], (∀ limit ∈ limits, ValidLimit limit) →
        ∃ last, follow (readManifest catalog query queryId) (· ++ ·) limits none =
            .ok ((listing.take limits.sum).map (·.locationId), last) ∧
          (last = none ↔ listing.length ≤ limits.sum)) := by
  refine ⟨catalog.listing query, listing_inQueryOrder catalog query, ?_, ?_, ?_, ?_⟩
  · intro limits hne hv
    have hs : NextAt catalog query queryId 0 none := ⟨.inl rfl, rfl⟩
    have hf := follow_forward (fun _ _ _ hl hat => readNext_at strftime hl hat) hv hne hs
    simpa only [drop_zero, Nat.zero_add] using hf
  · intro snapshot hre
    obtain ⟨start, stop, hp⟩ := hre.isPage hcoherent
    exact ⟨start, hp.assets.1, hp.assets.2, hp.follow_previous⟩
  · intro limit anchor hl hid
    obtain ⟨resolved, hr, hsp, hres⟩ := loadAnchoredSnapshot_ok hcoherent hl hid
    refine ⟨_, resolved.1, hres, rfl, pageAt_assets queryId, ?_, ?_⟩
    · intro row hm hro
      exact resolveQueryAnchor_location hcoherent hl hr hm hro
    · intro locationId hlo
      rcases hsp with rfl | ⟨i, row, hi, rfl⟩
      · cases hlo
      · obtain rfl := Option.some.inj hlo
        have hpo := hl.1
        refine ⟨i, row, rfl, Nat.sub_le _ _, hi, rfl, ?_⟩
        refine (congrArg (·[i - (i - limit / 2)]?) (pageAt_assets queryId)).trans ?_
        rw [getElem?_take_of_lt (by omega), getElem?_drop, ← hi]
        exact congrArg _ (Nat.add_sub_of_le (Nat.sub_le _ _))
  · intro limits hne hv
    have hs : ChunkAt catalog query queryId 0 none := ⟨.inl rfl, rfl⟩
    have hf := follow_forward (fun _ _ _ hl hat => readManifest_at hl hat) hv hne hs
    simpa only [drop_zero, Nat.zero_add, length_map, ← map_take] using hf

def namedRow (locationId naturalNameKey : String) : GalleryRow :=
  ⟨locationId, "root", locationId, none, none, 0, naturalNameKey, 0⟩

/-- Three items, to be listed by name. -/
def namedCatalog : GalleryCatalog := ⟨1, [namedRow "1" "beach", namedRow "2" "attic", namedRow "3" "cellar"], by decide⟩

/-- The items by name, the last one first. -/
def namedQuery : GalleryQuery where
  sortKey := .fileName
  sortDirection := .descending
  organizationQueue := false
  filter := fun _ => true
  sourceFilter := fun _ => true
  anchorFilter := fun _ => true
  representative := fun _ _ => none

theorem gallery_paging_exact_three : namedQuery.Coherent namedCatalog ∧
      ∃ listing, InQueryOrder namedCatalog namedQuery listing ∧
        ∃ last, follow (readNext (fun _ => none) namedCatalog namedQuery "query") (· ++ ·) [2, 2] none =
            .ok (listing.take 4, last) ∧ (last = none ↔ listing.length ≤ 4) := by
  have hc : namedQuery.Coherent namedCatalog := ⟨fun _ _ _ => rfl, fun _ _ _ _ _ _ _ _ => rfl⟩
  obtain ⟨listing, ho, hn, -⟩ :=
    gallery_paging_exact (fun _ => none) (Iter.Choice.first _) namedCatalog namedQuery "query" hc
  exact ⟨hc, listing, ho, hn [2, 2] (by decide) (by simp [ValidLimit, maxCatalogPageItems])⟩

end Results

end Ame
