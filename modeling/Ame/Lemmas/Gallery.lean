import Ame.Gallery.Snapshot
import Ame.Lib.Keyset
import Ame.Lib.Result
import Mathlib

/-!
# The order of the gallery

All the queries of the gallery follow one total order, given by a key. The cursor filters, the sorts in both directions and the
bounds of the anchor queries are stated in the source one by one; here each is shown to be about that key. Then a page is a part
of the one list of all matching items.
-/

namespace Ame

open List Keyset GalleryQuery

variable {dir : GallerySortDirection} {values values' : OrderValues} {rootId locationId rootId' locationId' : String}

/-! ## The key -/

/-- A type in the order of a direction. -/
def Directed (direction : GallerySortDirection) (α : Type) : Type :=
  match direction with
  | .ascending => α
  | .descending => αᵒᵈ

instance {direction : GallerySortDirection} {α : Type} [LinearOrder α] : LinearOrder (Directed direction α) :=
  match direction with
  | .ascending => inferInstanceAs (LinearOrder α)
  | .descending => inferInstanceAs (LinearOrder αᵒᵈ)

def Directed.of {α : Type} (direction : GallerySortDirection) (a : α) : Directed direction α :=
  match direction with
  | .ascending => a
  | .descending => OrderDual.toDual a

section Directed

variable {α : Type} [LinearOrder α] {a b : α}

omit [LinearOrder α] in
@[simp]
theorem Directed.of_inj : Directed.of dir a = Directed.of dir b ↔ a = b := by
  cases dir <;> rfl

theorem compare_ascending_eq_gt_iff : GallerySortDirection.ascending.compare a b = .gt ↔ b < a := compare_gt_iff_gt

theorem compare_descending_eq_gt_iff : GallerySortDirection.descending.compare a b = .gt ↔ a < b := compare_gt_iff_gt

theorem compare_eq_gt_iff : dir.compare a b = .gt ↔ Directed.of dir b < Directed.of dir a := by
  cases dir
  · exact compare_gt_iff_gt
  · exact compare_gt_iff_gt

@[simp]
theorem galleryWindowDirection_false (dir : GallerySortDirection) : galleryWindowDirection dir false = dir := by
  cases dir <;> rfl

theorem compare_window_eq_gt_iff :
    (galleryWindowDirection dir true).compare a b = .gt ↔ Directed.of dir a < Directed.of dir b := by
  cases dir
  · exact compare_gt_iff_gt
  · exact compare_gt_iff_gt

theorem compare_eq_eq_iff : dir.compare a b = .eq ↔ a = b := by
  cases dir
  · exact compare_eq_iff_eq
  · exact compare_eq_iff_eq.trans eq_comm

theorem cursorComparison_forward :
    (galleryCursorComparison dir false).holds a b = true ↔ Directed.of dir b < Directed.of dir a := by
  cases dir <;> exact decide_eq_true_iff

theorem cursorComparison_backward :
    (galleryCursorComparison dir true).holds a b = true ↔ Directed.of dir a < Directed.of dir b := by
  cases dir <;> exact decide_eq_true_iff

end Directed

/-- The key of an item in the order of a query. -/
abbrev GalleryKey (direction : GallerySortDirection) : Type :=
  Bool ×ₗ (Directed direction String ×ₗ (Directed direction Int ×ₗ (String ×ₗ String)))

/-- The key of a position. -/
def keyOf (direction : GallerySortDirection) (values : OrderValues) (rootId locationId : String) : GalleryKey direction :=
  toLex (values.missing, toLex (.of direction values.text, toLex (.of direction values.number, toLex (rootId, locationId))))

/-- The order of keys, part by part. -/
theorem keyOf_lt_iff : keyOf dir values rootId locationId < keyOf dir values' rootId' locationId' ↔
      values.missing < values'.missing ∨ values.missing = values'.missing ∧
        (Directed.of dir values.text < Directed.of dir values'.text ∨ values.text = values'.text ∧
          (Directed.of dir values.number < Directed.of dir values'.number ∨ values.number = values'.number ∧
            (rootId < rootId' ∨ rootId = rootId' ∧ locationId < locationId'))) := by
  simp only [keyOf, Prod.Lex.toLex_lt_toLex, Directed.of_inj]

/-- The same, with the equalities the other way. -/
theorem keyOf_lt_iff' : keyOf dir values rootId locationId < keyOf dir values' rootId' locationId' ↔
      values.missing < values'.missing ∨ values'.missing = values.missing ∧
        (Directed.of dir values.text < Directed.of dir values'.text ∨ values'.text = values.text ∧
          (Directed.of dir values.number < Directed.of dir values'.number ∨ values'.number = values.number ∧
            (rootId < rootId' ∨ rootId' = rootId ∧ locationId < locationId'))) := by
  rw [keyOf_lt_iff, eq_comm, @eq_comm _ values.text, @eq_comm _ values.number, @eq_comm _ rootId]

/-- The alternatives of a cursor filter, nested. -/
theorem nested_alternatives {first second third fourth fifth p q r s : Prop} :
    ((((first ∨ p ∧ second) ∨ (p ∧ q) ∧ third) ∨ ((p ∧ q) ∧ r) ∧ fourth) ∨ (((p ∧ q) ∧ r) ∧ s) ∧ fifth) ↔
      first ∨ p ∧ (second ∨ q ∧ (third ∨ r ∧ (fourth ∨ s ∧ fifth))) := by
  tauto

namespace GalleryQuery

variable {query qy : GalleryQuery} {a b row : GalleryRow} {cursor : CatalogCursor}

def key (query : GalleryQuery) (row : GalleryRow) : GalleryKey query.orderDirection :=
  keyOf query.orderDirection (query.orderExpressions row) row.rootId row.locationId

def cursorKey (query : GalleryQuery) (cursor : CatalogCursor) : GalleryKey query.orderDirection :=
  keyOf query.orderDirection ⟨cursor.primaryMissing, cursor.primaryText, cursor.primaryNumber⟩ cursor.rootId cursor.locationId

/-- The order of a query, backwards. -/
def backward (query : GalleryQuery) : OrderBy :=
  ⟨.descending, galleryWindowDirection query.orderDirection true, galleryWindowDirection query.orderDirection true, .descending,
    .descending⟩

theorem isLE_iff_ne_gt (ordering : Ordering) : ordering.isLE = true ↔ ¬ordering = .gt := by
  cases ordering <;> decide

/-- The order of a query is the order of the keys. -/
theorem forward_le_iff : (qy.forward.compare qy a b).isLE = true ↔ qy.key a ≤ qy.key b := by
  rw [isLE_iff_ne_gt, ← not_lt, key, key, keyOf_lt_iff']
  simp only [OrderBy.compare, forward, Ordering.then_eq_gt, compare_ascending_eq_gt_iff]
  simp only [compare_eq_gt_iff, compare_eq_eq_iff]

/-- Backwards it is the reverse. -/
theorem backward_le_iff : (qy.backward.compare qy a b).isLE = true ↔ qy.key b ≤ qy.key a := by
  rw [isLE_iff_ne_gt, ← not_lt, key, key, keyOf_lt_iff]
  simp only [OrderBy.compare, backward, Ordering.then_eq_gt, compare_window_eq_gt_iff, compare_descending_eq_gt_iff,
    compare_eq_eq_iff]

/-- The cursor filter selects what comes after the cursor. -/
theorem cursorFilter_forward : cursorFilter qy cursor false row = true ↔ qy.cursorKey cursor < qy.key row := by
  rw [key, cursorKey, keyOf_lt_iff']
  simp only [cursorFilter, Bool.or_eq_true, Bool.and_eq_true, decide_eq_true_eq, cursorComparison_forward]
  exact nested_alternatives.trans (by simp [SqlComparison.holds])

/-- Backwards it selects what comes before it. -/
theorem cursorFilter_backward : cursorFilter qy cursor true row = true ↔ qy.key row < qy.cursorKey cursor := by
  rw [key, cursorKey, keyOf_lt_iff]
  simp only [cursorFilter, Bool.or_eq_true, Bool.and_eq_true, decide_eq_true_eq, cursorComparison_backward]
  exact nested_alternatives.trans (by simp [SqlComparison.holds])

end GalleryQuery

/-! ## The listing -/

/-- All the matching items in the order of the query. -/
def GalleryCatalog.listing (catalog : GalleryCatalog) (query : GalleryQuery) : List GalleryRow :=
  catalog.select query query.filter query.forward

section Listing

variable {catalog : GalleryCatalog} {query qy : GalleryQuery} {queryId qid : String} {row : GalleryRow} {i : Nat}
  {a b o : GalleryRow} {after before : Option CatalogCursor} {anchor : GalleryQueryAnchor} {continues : Bool}
  {rows : List GalleryRow} {start : Nat} {pos : GalleryAnchorPosition} {req : GalleryAnchorRequest}
  {choice : Iter.Choice GalleryRow}

theorem GalleryCatalog.row_eq (catalog : GalleryCatalog) (ha : a ∈ catalog.rows) (hb : b ∈ catalog.rows)
    (hr : a.rootId = b.rootId) (hl : a.locationId = b.locationId) : a = b :=
  inj_on_of_nodup_map catalog.unique ha hb (by rw [hr, hl])

/-- A key names its row. -/
theorem GalleryQuery.key_eq (h : qy.key a = qy.key b) : a.rootId = b.rootId ∧ a.locationId = b.locationId := by
  simp only [key, keyOf, EmbeddingLike.apply_eq_iff_eq, Prod.mk.injEq] at h
  exact h.2.2.2

/-- A listing has the rows of its query. -/
theorem listing_perm (catalog : GalleryCatalog) (query : GalleryQuery) :
    (catalog.listing query).Perm (catalog.rows.filter query.filter) :=
  perm_insertionSort _ _

theorem mem_listing : row ∈ catalog.listing qy ↔ row ∈ catalog.rows ∧ qy.filter row = true := by
  rw [(listing_perm catalog qy).mem_iff, mem_filter]

/-- The keys of the listing ascend. -/
theorem listing_ascending (catalog : GalleryCatalog) (query : GalleryQuery) : Ascending query.key (catalog.listing query) := by
  have hs : (catalog.listing query).Pairwise fun a b => query.key a ≤ query.key b := by
    have hle : ∀ a b : GalleryRow, (query.forward.compare query a b).isLE = true ↔ query.key a ≤ query.key b :=
      fun a b => forward_le_iff
    have : Std.Total fun a b : GalleryRow => (query.forward.compare query a b).isLE = true :=
      ⟨fun a b => by rw [hle, hle]; exact le_total _ _⟩
    have : IsTrans GalleryRow fun a b => (query.forward.compare query a b).isLE = true :=
      ⟨fun a b c hab hbc => (hle a c).mpr (le_trans ((hle a b).mp hab) ((hle b c).mp hbc))⟩
    exact (pairwise_insertionSort (fun a b : GalleryRow => (query.forward.compare query a b).isLE = true)
      (catalog.rows.filter query.filter)).imp fun {a b} hab => (hle a b).mp hab
  have hn : (catalog.listing query).Nodup :=
    (listing_perm catalog query).nodup_iff.mpr (List.Nodup.of_map _ catalog.unique |>.filter _)
  refine (hs.and hn).imp_of_mem ?_
  rintro a b ha hb ⟨hle, hne⟩
  refine lt_of_le_of_ne hle ?_
  intro heq
  obtain ⟨hr, hl⟩ := key_eq heq
  exact hne (catalog.row_eq (mem_listing.mp ha).1 (mem_listing.mp hb).1 hr hl)

section

variable (further : GalleryRow → Bool)

theorem filter_listing_perm :
    ((catalog.listing qy).filter further).Perm (catalog.rows.filter fun row => qy.filter row && further row) := by
  have hp := (listing_perm catalog qy).filter further
  rw [filter_filter] at hp
  simpa only [Bool.and_comm (further _)] using hp

/-- A query with a further condition reads a part of the listing. -/
theorem select_forward : catalog.select qy (fun row => qy.filter row && further row) qy.forward =
    (catalog.listing qy).filter further :=
  sort_eq (fun _ _ => forward_le_iff) ((listing_ascending catalog qy).filter _) (filter_listing_perm further)

/-- Backwards it reads that part in reverse. -/
theorem select_backward : catalog.select qy (fun row => qy.filter row && further row) qy.backward =
      ((catalog.listing qy).filter further).reverse :=
  sort_reverse_eq (fun _ _ => backward_le_iff) ((listing_ascending catalog qy).filter _) (filter_listing_perm further)

end

/-- The cursor of an item. -/
def cursorOf (catalog : GalleryCatalog) (query : GalleryQuery) (queryId : String) (row : GalleryRow) : CatalogCursor :=
  readCursor catalog.revision queryId query row

/-- The cursor of a listed row. -/
theorem galleryCursorForAsset_eq (hr : row ∈ catalog.listing qy) :
    galleryCursorForAsset catalog qy qid row = .ok (cursorOf catalog qy qid row) := by
  have hm := (mem_listing.mp hr).1
  have hfi : catalog.rows.find? (fun o => o.rootId = row.rootId ∧ o.locationId = row.locationId) = some row := by
    cases hf : catalog.rows.find? (fun o => o.rootId = row.rootId ∧ o.locationId = row.locationId) with
    | none =>
      have := find?_eq_none.mp hf row hm
      simp at this
    | some o =>
      have heq : o.rootId = row.rootId ∧ o.locationId = row.locationId := by simpa using find?_some hf
      rw [catalog.row_eq (mem_of_find?_eq_some hf) hm heq.1 heq.2]
  unfold galleryCursorForAsset
  rw [hfi]
  rfl

theorem cursorOfAsset_eq {asset : Option GalleryRow} (h : ∀ row ∈ asset, row ∈ catalog.listing qy) :
    cursorOfAsset catalog qy qid asset = .ok (asset.map (cursorOf catalog qy qid)) := by
  cases asset with
  | none => rfl
  | some row =>
    show (galleryCursorForAsset catalog qy qid row).map some = _
    rw [galleryCursorForAsset_eq (h row rfl)]
    rfl

/-! ## Pages -/

/-- The page from one position of the listing to another. -/
def pageAt (catalog : GalleryCatalog) (query : GalleryQuery) (queryId : String) (start stop : Nat) : CatalogSnapshot where
  revision := catalog.revision
  queryId := queryId
  assets := ((catalog.listing query).drop start).take (stop - start)
  previousCursor := if start = 0 then none else (catalog.listing query)[start]?.map (cursorOf catalog query queryId)
  nextCursor :=
    if stop = (catalog.listing query).length then none
    else (catalog.listing query)[stop - 1]?.map (cursorOf catalog query queryId)
  queryAnchorResolution := none

/-- A page limit the code accepts. -/
def ValidLimit (maxItems : Nat) : Prop := 1 ≤ maxItems ∧ maxItems ≤ maxCatalogPageItems

theorem checkPageLimit_ok_iff {cap : Nat} : checkPageLimit cap = .ok () ↔ ValidLimit cap := by
  unfold checkPageLimit ValidLimit
  split
  · simp only [reduceCtorEq, false_iff]
    omega
  · simp only [true_iff]
    omega

theorem checkSnapshotRequest_ok {cap : Nat} (hl : ValidLimit cap)
    {anchor : Option GalleryTimeAnchor} (ho : after.toList.length + before.toList.length + anchor.toList.length ≤ 1)
    (haf : ∀ cursor ∈ after, cursor.revision = catalog.revision ∧ cursor.queryId = qid)
    (hb : ∀ cursor ∈ before, cursor.revision = catalog.revision ∧ cursor.queryId = qid)
    (ha : ∀ value ∈ anchor, value.revision = catalog.revision ∧ value.queryId = qid) :
    checkSnapshotRequest catalog qid cap after before anchor = .ok () := by
  have haf' : ¬(after.any fun cursor => cursor.revision ≠ catalog.revision ∨ cursor.queryId ≠ qid) = true := by
    cases after with
    | none => simp
    | some cursor => simp [haf cursor rfl]
  have hb' : ¬(before.any fun cursor => cursor.revision ≠ catalog.revision ∨ cursor.queryId ≠ qid) = true := by
    cases before with
    | none => simp
    | some cursor => simp [hb cursor rfl]
  have ha' : ¬(anchor.any fun value => value.revision ≠ catalog.revision ∨ value.queryId ≠ qid) = true := by
    cases anchor with
    | none => simp
    | some value => simp [ha value rfl]
  unfold checkSnapshotRequest
  rw [checkPageLimit_ok_iff.mpr hl, if_neg (by omega), if_neg haf', if_neg hb', if_neg ha']
  rfl

/-- The items of a page, from the rows read. -/
def pageAssets (maxItems : Nat) (isBackward : Bool) (rows : List GalleryRow) : List GalleryRow :=
  if isBackward then (rows.take maxItems).reverse else rows.take maxItems

/-- The snapshot of rows of the listing. -/
theorem snapshotOfRows_eq {cap : Nat} {isBackward : Bool} (hr : ∀ row ∈ rows, row ∈ catalog.listing query) :
    snapshotOfRows catalog query queryId cap isBackward continues rows = .ok
      { revision := catalog.revision, queryId, assets := pageAssets cap isBackward rows
        previousCursor := (if isBackward && cap < rows.length || continues then
          (pageAssets cap isBackward rows).head? else none).map (cursorOf catalog query queryId)
        nextCursor := (if isBackward || cap < rows.length then
          (pageAssets cap isBackward rows).getLast? else none).map (cursorOf catalog query queryId)
        queryAnchorResolution := none } := by
  have ha : ∀ row ∈ pageAssets cap isBackward rows, row ∈ catalog.listing query := by
    intro row hro
    unfold pageAssets at hro
    split at hro
    · exact hr row (mem_of_mem_take (mem_reverse.mp hro))
    · exact hr row (mem_of_mem_take hro)
  have hif : ∀ {condition : Prop} [Decidable condition] {asset : Option GalleryRow},
    (∀ row ∈ asset, row ∈ catalog.listing query) → cursorOfAsset catalog query queryId (if condition then asset else none) =
          .ok ((if condition then asset else none).map (cursorOf catalog query queryId)) := by
    intro condition _ asset has
    apply cursorOfAsset_eq
    intro row hro
    split at hro
    · exact has row hro
    · cases hro
  unfold snapshotOfRows
  dsimp only
  rw [← pageAssets, hif fun row hro => ha row (mem_of_mem_head? hro), hif fun row hro => ha row (mem_of_mem_getLast? hro)]
  rfl

/-- The rows read forwards make the page from a position on. -/
theorem snapshotOfRows_forward {cap : Nat} (hl : ValidLimit cap)
    (hs : start ≤ (catalog.listing query).length) (hc : continues = true ↔ start ≠ 0) :
    snapshotOfRows catalog query queryId cap false continues (((catalog.listing query).drop start).take (cap + 1)) =
      .ok (pageAt catalog query queryId start (min (start + cap) (catalog.listing query).length)) := by
  rw [snapshotOfRows_eq fun row hr => mem_of_mem_drop (mem_of_mem_take hr)]
  unfold pageAt
  generalize catalog.listing query = listing at hs ⊢
  obtain ⟨hp, -⟩ := hl
  have hm : cap < ((listing.drop start).take (cap + 1)).length ↔ start + cap < listing.length := by
    rw [length_take, length_drop]
    omega
  have ha : pageAssets cap false ((listing.drop start).take (cap + 1)) = (listing.drop start).take cap := by
    rw [pageAssets, if_neg (by decide), take_take, Nat.min_eq_left (by omega)]
  have hh : ((listing.drop start).take cap).head? = listing[start]? := by
    rw [head?_take, if_neg (by omega), head?_drop]
  rw [ha, hh]
  simp only [hm]
  congr 2
  · rw [take_eq_take_iff, length_drop]
    omega
  · by_cases hz : start = 0
    · rw [if_neg (by simp [hc, hz]), if_pos hz]
      rfl
    · rw [if_pos (by simp [hc, hz]), if_neg hz]
  · by_cases hl : start + cap < listing.length
    · have hgl : ((listing.drop start).take cap).getLast? = listing[start + cap - 1]? := by
        rw [getLast?_take, if_neg (by omega), getElem?_drop, getElem?_eq_getElem (by omega), Option.some_or]
        rw [getElem?_eq_getElem (by omega)]
        congr 2
        omega
      rw [if_pos (by simp [hl]), if_neg (by omega), hgl, Nat.min_eq_left (by omega)]
    · rw [if_neg (by simp [hl]), if_pos (by omega)]
      rfl

/-- The rows read backwards make the page that ends at a position. -/
theorem snapshotOfRows_backward {cap stop : Nat} (hl : ValidLimit cap) (hp : 0 < stop)
    (hs : stop < (catalog.listing query).length) :
    snapshotOfRows catalog query queryId cap true false (((catalog.listing query).take stop).reverse.take (cap + 1)) =
      .ok (pageAt catalog query queryId (stop - cap) stop) := by
  rw [snapshotOfRows_eq fun row hr => mem_of_mem_take (mem_reverse.mp (mem_of_mem_take hr))]
  unfold pageAt
  generalize catalog.listing query = listing at hs ⊢
  obtain ⟨hlp, -⟩ := hl
  have hm : cap < ((listing.take stop).reverse.take (cap + 1)).length ↔ cap < stop := by
    rw [length_take, length_reverse, length_take]
    omega
  have ha : pageAssets cap true ((listing.take stop).reverse.take (cap + 1)) =
      (listing.drop (stop - cap)).take (stop - (stop - cap)) := by
    rw [pageAssets, if_pos rfl, take_take, Nat.min_eq_left (by omega), take_reverse, reverse_reverse,
      length_take, Nat.min_eq_left (by omega), drop_take]
  rw [ha]
  simp only [hm]
  congr 2
  · by_cases hal : cap < stop
    · rw [if_pos (by simp [hal]), if_neg (by omega), head?_take, if_neg (by omega), head?_drop]
    · rw [if_neg (by simp [hal]), if_pos (by omega)]
      rfl
  · rw [if_pos (by simp), if_neg (by omega), getLast?_take, if_neg (by omega), getElem?_drop,
      getElem?_eq_getElem (by omega), Option.some_or, getElem?_eq_getElem (by omega)]
    congr 3
    omega

/-- A page read forwards. -/
theorem selectGalleryAssets_forward (fmt : Int → Option String) (after : Option CatalogCursor) (limit : Nat) :
    selectGalleryAssets fmt catalog qy after none none limit =
      .ok (((catalog.listing qy).filter fun row => after.all (cursorFilter qy · false row)).take limit) := by
  rw [← select_forward]
  unfold selectGalleryAssets
  simp only [Option.isSome_none, Option.all_none, pure_bind, Bool.and_true, galleryWindowDirection_false]
  rfl

/-- A page read backwards. -/
theorem selectGalleryAssets_backward (fmt : Int → Option String) (before : CatalogCursor) (limit : Nat) :
    selectGalleryAssets fmt catalog qy none (some before) none limit =
      .ok (((catalog.listing qy).filter (cursorFilter qy before true)).reverse.take limit) := by
  rw [← select_backward]
  unfold selectGalleryAssets
  simp only [Option.isSome_some, Option.all_none, Option.all_some, pure_bind, Bool.and_true]
  rfl

/-- What follows the cursor of an item in the listing. -/
theorem filter_cursor_forward (hi : (catalog.listing qy)[i]? = some row) :
    (catalog.listing qy).filter (cursorFilter qy (cursorOf catalog qy qid row) false) = (catalog.listing qy).drop (i + 1) := by
  rw [← (listing_ascending catalog qy).filter_after hi]
  apply filter_congr
  intro o _
  rw [Bool.eq_iff_iff, cursorFilter_forward, decide_eq_true_iff]
  rfl

/-- What precedes it. -/
theorem filter_cursor_backward (hi : (catalog.listing qy)[i]? = some row) :
    (catalog.listing qy).filter (cursorFilter qy (cursorOf catalog qy qid row) true) = (catalog.listing qy).take i := by
  rw [← (listing_ascending catalog qy).filter_before hi]
  apply filter_congr
  intro o _
  rw [Bool.eq_iff_iff, cursorFilter_backward, decide_eq_true_iff]
  rfl

variable {fmt : Int → Option String} {cap : Nat}

/-- A page without a time anchor. -/
theorem loadSnapshot_eq (hc : checkSnapshotRequest catalog qid cap after before none = .ok ())
    (hr : selectGalleryAssets fmt catalog qy after before none (cap + 1) = .ok rows) :
    loadSnapshot fmt catalog qy qid cap after before none =
      snapshotOfRows catalog qy qid cap before.isSome after.isSome rows := by
  unfold loadSnapshot
  rw [hc]
  show (selectGalleryAssets fmt catalog qy (after.or none) before none (cap + 1) >>= fun rows =>
    snapshotOfRows catalog qy qid cap before.isSome ((after.or none).isSome || false) rows) = _
  rw [Option.or_none, Bool.or_false, hr]
  rfl

/-- The first page. -/
theorem loadSnapshot_first (hl : ValidLimit cap) : loadSnapshot fmt catalog qy qid cap none none none =
      .ok (pageAt catalog qy qid 0 (min cap (catalog.listing qy).length)) := by
  have hr : (catalog.listing qy).filter (fun row => (none : Option CatalogCursor).all (cursorFilter qy · false row)) =
      (catalog.listing qy).drop 0 := by simp
  have hp : snapshotOfRows catalog qy qid cap false false (((catalog.listing qy).drop 0).take (cap + 1)) =
        .ok (pageAt catalog qy qid 0 (min (0 + cap) (catalog.listing qy).length)) :=
    snapshotOfRows_forward hl (Nat.zero_le _) (by simp)
  rw [Nat.zero_add] at hp
  rw [loadSnapshot_eq (checkSnapshotRequest_ok hl (by simp) (by simp) (by simp) (by simp))
    (selectGalleryAssets_forward fmt none (cap + 1)), hr]
  exact hp

theorem cursorOf_fresh (row : GalleryRow) : ∀ cursor ∈ some (cursorOf catalog qy qid row),
    cursor.revision = catalog.revision ∧ cursor.queryId = qid := by
  rintro cursor ⟨⟩
  exact ⟨rfl, rfl⟩

section

variable (hl : ValidLimit cap) (hi : (catalog.listing query)[i]? = some row)

include hl hi

/-- The page after an item. -/
theorem loadSnapshot_after : loadSnapshot fmt catalog query qid cap (some (cursorOf catalog query qid row)) none none =
      .ok (pageAt catalog query qid (i + 1) (min (i + 1 + cap) (catalog.listing query).length)) := by
  have hlt : i < (catalog.listing query).length := (List.getElem?_eq_some_iff.mp hi).1
  rw [loadSnapshot_eq (checkSnapshotRequest_ok hl (by simp) (cursorOf_fresh row) (by simp) (by simp))
    (selectGalleryAssets_forward fmt _ (cap + 1))]
  simp only [Option.all_some]
  rw [filter_cursor_forward hi]
  exact snapshotOfRows_forward hl (by omega) (by simp)

/-- The page before an item. -/
theorem loadSnapshot_before (hp : 0 < i) :
    loadSnapshot fmt catalog query qid cap none (some (cursorOf catalog query qid row)) none =
      .ok (pageAt catalog query qid (i - cap) i) := by
  have hlt : i < (catalog.listing query).length := (List.getElem?_eq_some_iff.mp hi).1
  rw [loadSnapshot_eq (checkSnapshotRequest_ok hl (by simp) (by simp) (cursorOf_fresh row) (by simp))
    (selectGalleryAssets_backward fmt _ (cap + 1)), filter_cursor_backward hi]
  exact snapshotOfRows_backward hl hp hlt

end

/-- A load that succeeds had a valid limit. -/
theorem validLimit_of_load {limit : Nat} {anchor : Option GalleryTimeAnchor} {snap : CatalogSnapshot}
    (h : loadSnapshot fmt catalog qy qid limit after before anchor = .ok snap) : ValidLimit limit := by
  rw [← checkPageLimit_ok_iff]
  cases hc : checkPageLimit limit with
  | ok => rfl
  | error error =>
    rw [loadSnapshot, checkSnapshotRequest, hc] at h
    cases h

/-! ## Windows around a location -/

/-- The bounds that speed up the anchor query exclude nothing that precedes the anchor. -/
theorem bounds_of_precedes (hm : (qy.orderExpressions row).missing = false) (hp : qy.key o < qy.key row) :
    (qy.orderExpressions o).missing = false ∧
      (galleryCursorComparison qy.orderDirection true).holdsOrEqual (qy.orderExpressions o).text
        (qy.orderExpressions row).text = true := by
  rw [key, key, keyOf_lt_iff, hm] at hp
  rcases hp with hlt | ⟨heq, ht⟩
  · exact absurd hlt (by simp)
  · refine ⟨heq, ?_⟩
    rw [SqlComparison.holdsOrEqual, Bool.or_eq_true, cursorComparison_backward, decide_eq_true_iff]
    rcases ht with hlt | ⟨heq, -⟩
    · exact .inl hlt
    · exact .inr heq

/-- What the anchor queries read: what precedes the anchor in the listing. -/
theorem filter_precedesAnchor (hi : (catalog.listing qy)[i]? = some row) :
    (catalog.listing qy).filter (precedesAnchor qy (cursorOf catalog qy qid row)) = (catalog.listing qy).take i := by
  rw [← filter_cursor_backward hi]
  apply filter_congr
  intro o _
  rw [Bool.eq_iff_iff, precedesAnchor, Bool.and_eq_true, and_iff_left_iff_imp]
  intro hp
  have hlt := cursorFilter_backward.mp hp
  split
  · next hc =>
    simp only [Bool.and_eq_true, Bool.not_eq_true'] at hc ⊢
    exact bounds_of_precedes hc.1.2 hlt
  · rfl

/-- The rows before an anchor give its index. -/
theorem countP_precedesAnchor (hi : (catalog.listing qy)[i]? = some row) :
    catalog.rows.countP (fun o => qy.filter o && precedesAnchor qy (cursorOf catalog qy qid row) o) = i := by
  rw [countP_eq_length_filter, ← (filter_listing_perm _).length_eq, filter_precedesAnchor hi, length_take]
  have := (List.getElem?_eq_some_iff.mp hi).1
  omega

/-- The cursor before a window. -/
def predecessorAt (catalog : GalleryCatalog) (query : GalleryQuery) (queryId : String) (start : Nat) : Option CatalogCursor :=
  if start = 0 then none else (catalog.listing query)[start - 1]?.map (cursorOf catalog query queryId)

/-- The window around an item of the listing. -/
theorem resolveWindow_eq (hl : ValidLimit cap) (hi : (catalog.listing qy)[i]? = some row)
    (hc : pos.cursor = cursorOf catalog qy qid row) (hk : ∀ ordinal ∈ pos.knownOrdinal, ordinal = i) :
    resolveWindow catalog qy pos cap = .ok ⟨row.locationId, i, i - cap / 2, predecessorAt catalog qy qid (i - cap / 2)⟩ := by
  have hlt : i < (catalog.listing qy).length := (List.getElem?_eq_some_iff.mp hi).1
  have ho : pos.knownOrdinal.getD (catalog.rows.countP fun o =>
      qy.filter o && precedesAnchor qy (cursorOf catalog qy qid row) o) = i := by
    cases hca : pos.knownOrdinal with
    | none => exact countP_precedesAnchor hi
    | some ordinal => exact hk ordinal hca
  unfold resolveWindow predecessorAt
  simp only [hc, ho]
  by_cases hz : i - cap / 2 = 0
  · rw [if_pos hz, if_pos hz]
    rfl
  · have hof : sqliteInteger (i - (i - cap / 2)) "gallery location anchor offset" = .ok (i - (i - cap / 2)) := by
      obtain ⟨-, hle⟩ := hl
      unfold maxCatalogPageItems at hle
      exact if_pos (by unfold i64Max; omega)
    obtain ⟨prev, hp⟩ : ∃ prev, (catalog.listing qy)[i - cap / 2 - 1]? = some prev :=
      ⟨_, getElem?_eq_getElem (by omega)⟩
    have hs : (catalog.select qy (fun o => qy.filter o && precedesAnchor qy (cursorOf catalog qy qid row) o)
        ⟨.descending, galleryWindowDirection qy.orderDirection true, galleryWindowDirection qy.orderDirection true,
          .descending, .descending⟩)[i - (i - cap / 2)]? = some prev := by
      rw [← hp, ← backward, select_backward, filter_precedesAnchor hi,
        getElem?_reverse (by rw [length_take]; omega), length_take, getElem?_take_of_lt (by omega)]
      congr 1
      omega
    rw [if_neg hz, if_neg hz, hof, hp]
    simp only [bind, Except.bind, hs]
    rfl

/-- What an anchor resolves to: nothing, or an item of the listing and the window around it. -/
def AnchorResolved (catalog : GalleryCatalog) (query : GalleryQuery) (queryId requestedLocationId : String) (maxItems : Nat)
    (resolved : GalleryLocationAnchorResolution × Option CatalogCursor) : Prop :=
  resolved = (⟨requestedLocationId, none, none, 0⟩, none) ∨ ∃ i row, (catalog.listing query)[i]? = some row ∧
      resolved = (⟨requestedLocationId, some row.locationId, some i, i - maxItems / 2⟩,
        predecessorAt catalog query queryId (i - maxItems / 2))

/-- A fallback is a listed row. -/
theorem resolveFallback_spec {requestedOrdinal : Nat} (h : resolveFallback catalog qy qid requestedOrdinal = some pos) :
    ∃ i row, (catalog.listing qy)[i]? = some row ∧ pos.cursor = cursorOf catalog qy qid row ∧ pos.knownOrdinal = some i := by
  have hat : ∀ ordinal, (catalog.listing qy)[ordinal]?.map
      (fun row => (⟨readCursor catalog.revision qid qy row, some ordinal⟩ : GalleryAnchorPosition)) = some pos →
      ∃ i row, (catalog.listing qy)[i]? = some row ∧ pos.cursor = cursorOf catalog qy qid row ∧ pos.knownOrdinal = some i := by
    intro ordinal hat
    obtain ⟨row, hr, rfl⟩ := Option.map_eq_some_iff.mp hat
    exact ⟨ordinal, row, hr, rfl, rfl⟩
  unfold resolveFallback at h
  dsimp only at h
  split at h
  · next found hf =>
    cases h
    split at hf
    · exact hat _ hf
    · cases hf
  · split at h
    · cases h
    · exact hat _ h

/-- An anchor row passes the filters of the query. -/
theorem mem_listing_of_anchorRowFilter (hcoherent : qy.Coherent catalog)
    (hr : row ∈ catalog.rows.filter (anchorRowFilter qy req)) : row ∈ catalog.listing qy := by
  obtain ⟨hm, hp⟩ := mem_filter.mp hr
  refine mem_listing.mpr ⟨hm, ?_⟩
  unfold anchorRowFilter at hp
  split at hp
  · next shown hs =>
    simp only [Bool.and_eq_true, beq_iff_eq] at hp
    split at hs
    · exact hcoherent.representative _ _ shown hs row hm hp.1 hp.2
    · cases hs
  · simp only [Bool.and_eq_true] at hp
    exact hcoherent.anchor row hm hp.1.1

/-- An anchor is at a listed row. -/
theorem anchorPosition_spec (hcoherent : qy.Coherent catalog) (h : anchorPosition choice catalog qy qid req = some pos) :
    ∃ i row, (catalog.listing qy)[i]? = some row ∧ pos.cursor = cursorOf catalog qy qid row ∧
      ∀ ordinal ∈ pos.knownOrdinal, ordinal = i := by
  unfold anchorPosition at h
  split at h
  · next row hp =>
    cases h
    obtain ⟨i, hi⟩ := getElem?_of_mem (mem_listing_of_anchorRowFilter hcoherent (choice.mem_of_pick hp))
    exact ⟨i, row, hi, rfl, by simp⟩
  · obtain ⟨ordinal, -, hf⟩ := Option.bind_eq_some_iff.mp h
    obtain ⟨i, row, hi, hc, hk⟩ := resolveFallback_spec hf
    refine ⟨i, row, hi, hc, ?_⟩
    rw [hk]
    rintro ordinal ⟨⟩
    rfl

section

variable (choice : Iter.Choice GalleryRow) (qid : String) (hcoherent : query.Coherent catalog)

include hcoherent

/-- Every anchor resolves. -/
theorem resolveGalleryAnchor_spec (req : GalleryAnchorRequest) (hl : ValidLimit req.maxItems) :
    ∃ resolved, resolveGalleryAnchor choice catalog query qid req = .ok resolved ∧
      AnchorResolved catalog query qid req.requestedLocationId req.maxItems resolved := by
  unfold resolveGalleryAnchor
  cases hp : anchorPosition choice catalog query qid req with
  | none => exact ⟨_, rfl, .inl rfl⟩
  | some pos =>
    obtain ⟨i, row, hi, hc, hk⟩ := anchorPosition_spec hcoherent hp
    dsimp only
    rw [resolveWindow_eq hl hi hc hk]
    exact ⟨_, rfl, .inr ⟨i, row, hi, rfl⟩⟩

theorem resolveQueryAnchor_spec (hl : ValidLimit cap) (anchor : GalleryQueryAnchor) :
    ∃ resolved, resolveQueryAnchor choice catalog query qid cap anchor = .ok resolved ∧
      AnchorResolved catalog query qid anchor.requestedLocationId cap resolved := by
  obtain ⟨preferred, hp, hs⟩ := resolveGalleryAnchor_spec choice qid hcoherent
    ⟨anchor.requestedLocationId, true, anchor.requestedLocationId, anchor.assetId, none, cap⟩ hl
  unfold resolveQueryAnchor
  dsimp only
  rw [hp]
  cases ha : anchor.assetId with
  | none => exact ⟨preferred, rfl, hs⟩
  | some assetId =>
    by_cases hf : preferred.1.locationId.isSome = true
    · exact ⟨preferred, if_pos hf, hs⟩
    · obtain ⟨byAsset, hba, hs⟩ := resolveGalleryAnchor_spec choice qid hcoherent
        ⟨anchor.requestedLocationId, false, assetId, none, some anchor.fallbackOrdinal, cap⟩ hl
      exact ⟨byAsset, (if_neg hf).trans hba, hs⟩

end

/-- The look-up of an anchor by its location. -/
def locationRequest (anchor : GalleryQueryAnchor) (maxItems : Nat) : GalleryAnchorRequest :=
  ⟨anchor.requestedLocationId, true, anchor.requestedLocationId, anchor.assetId, none, maxItems⟩

/-- The rows a look-up by location finds are at one location. -/
theorem locationId_of_anchorRowFilter (hr : anchorRowFilter qy (locationRequest anchor cap) row = true)
    (ho : anchorRowFilter qy (locationRequest anchor cap) o = true) : o.locationId = row.locationId := by
  unfold anchorRowFilter locationRequest at hr ho
  rw [if_pos rfl] at hr ho
  cases hs : qy.representative anchor.requestedLocationId anchor.assetId with
  | some shown =>
    simp only [hs, Bool.and_eq_true, beq_iff_eq] at hr ho
    rw [hr.2, ho.2]
  | none =>
    simp only [hs, if_true, Bool.and_eq_true, beq_iff_eq] at hr ho
    rw [hr.1.2, ho.1.2]

/-- An anchor whose location is in the catalog resolves to that location. -/
theorem resolveQueryAnchor_location (hcoherent : qy.Coherent catalog) (hl : ValidLimit cap)
    {resolved : GalleryLocationAnchorResolution × Option CatalogCursor}
    (h : resolveQueryAnchor choice catalog qy qid cap anchor = .ok resolved) (hm : row ∈ catalog.rows)
    (hro : anchorRowFilter qy (locationRequest anchor cap) row = true) : resolved.1.locationId = some row.locationId := by
  cases hpi : choice.pick (catalog.rows.filter (anchorRowFilter qy (locationRequest anchor cap))) with
  | none =>
    have hn := choice.eq_nil_of_pick hpi
    rw [filter_eq_nil_iff] at hn
    exact absurd hro (hn row hm)
  | some found =>
    have hf := mem_filter.mp (choice.mem_of_pick hpi)
    obtain ⟨i, hi⟩ := getElem?_of_mem (mem_listing_of_anchorRowFilter hcoherent (choice.mem_of_pick hpi))
    have hp : anchorPosition choice catalog qy qid (locationRequest anchor cap) = some ⟨cursorOf catalog qy qid found, none⟩ := by
      rw [anchorPosition, hpi]
      rfl
    have hr : resolveGalleryAnchor choice catalog qy qid (locationRequest anchor cap) = .ok
        (⟨anchor.requestedLocationId, some found.locationId, some i, i - cap / 2⟩,
          predecessorAt catalog qy qid (i - cap / 2)) := by
      rw [resolveGalleryAnchor, hp]
      dsimp only [locationRequest]
      rw [resolveWindow_eq hl hi rfl (by simp)]
      rfl
    unfold resolveQueryAnchor at h
    dsimp only at h
    rw [← locationRequest, hr] at h
    rw [← locationId_of_anchorRowFilter hro hf.2]
    cases ha : anchor.assetId with
    | none =>
      rw [ha] at h
      cases h
      rfl
    | some assetId =>
      rw [ha] at h
      cases h
      rfl

/-- The page after the predecessor of a window starts where the window does. -/
theorem loadSnapshot_window (hl : ValidLimit cap) (hs : start ≤ (catalog.listing qy).length) :
    loadSnapshot fmt catalog qy qid cap (predecessorAt catalog qy qid start) none none =
      .ok (pageAt catalog qy qid start (min (start + cap) (catalog.listing qy).length)) := by
  unfold predecessorAt
  by_cases hz : start = 0
  · subst hz
    rw [if_pos rfl, loadSnapshot_first hl, Nat.zero_add]
  · have hp : (catalog.listing qy)[start - 1]? = some (catalog.listing qy)[start - 1] :=
      getElem?_eq_getElem (by omega)
    rw [if_neg hz, hp, Option.map_some, loadSnapshot_after hl hp, Nat.sub_add_cancel (by omega)]

/-- A snapshot around an anchor is the page from the start of the window. -/
theorem loadAnchoredSnapshot_ok (hcoherent : qy.Coherent catalog) (hl : ValidLimit cap)
    (hid : (trimIsEmpty anchor.requestedLocationId || anchor.assetId.any trimIsEmpty) = false) :
    ∃ resolved, resolveQueryAnchor choice catalog qy qid cap anchor = .ok resolved ∧
      AnchorResolved catalog qy qid anchor.requestedLocationId cap resolved ∧
      loadAnchoredSnapshot fmt choice catalog qy qid cap anchor = .ok
        { pageAt catalog qy qid resolved.1.windowStartOrdinal
            (min (resolved.1.windowStartOrdinal + cap) (catalog.listing qy).length) with
          queryAnchorResolution := some resolved.1 } := by
  obtain ⟨resolved, hr, hs⟩ := resolveQueryAnchor_spec choice qid hcoherent hl anchor
  have hw : resolved.1.windowStartOrdinal ≤ (catalog.listing qy).length ∧ resolved.2 =
    predecessorAt catalog qy qid resolved.1.windowStartOrdinal := by
    rcases hs with rfl | ⟨i, row, hi, rfl⟩
    · exact ⟨Nat.zero_le _, rfl⟩
    · have := (List.getElem?_eq_some_iff.mp hi).1
      exact ⟨by dsimp only; omega, rfl⟩
  refine ⟨resolved, hr, hs, ?_⟩
  unfold loadAnchoredSnapshot
  rw [checkPageLimit_ok_iff.mpr hl, if_neg (by simp [hid]), hr]
  show (loadSnapshot fmt catalog qy qid cap resolved.2 none none >>= _) = _
  rw [hw.2, loadSnapshot_window hl hw.1]
  rfl

/-! ## The layout manifest -/

section

variable (catalog : GalleryCatalog) (query : GalleryQuery) (queryId : String)

/-- The manifest cursor in front of a position. -/
def manifestCursorAt (start : Nat) : Option GalleryLayoutManifestCursor :=
  (predecessorAt catalog query queryId start).map fun after =>
    { revision := catalog.revision, queryId, totalItems := (catalog.listing query).length, nextOrdinal := start, after }

/-- The chunk of the manifest from one position of the listing to another. -/
def manifestAt (start stop : Nat) : GalleryLayoutManifestChunk where
  startOrdinal := start
  totalItems := (catalog.listing query).length
  locationIds := (((catalog.listing query).drop start).take (stop - start)).map (·.locationId)
  nextCursor := if stop = (catalog.listing query).length then none else manifestCursorAt catalog query queryId stop

end

theorem countP_filter_eq : catalog.rows.countP qy.filter = (catalog.listing qy).length := by
  rw [countP_eq_length_filter, (listing_perm catalog qy).length_eq]

theorem manifestCursorAt_zero : manifestCursorAt catalog qy qid 0 = none := rfl

theorem manifestCursorAt_succ (hi : (catalog.listing qy)[i]? = some row) : manifestCursorAt catalog qy qid (i + 1) =
      some ⟨catalog.revision, qid, (catalog.listing qy).length, i + 1, cursorOf catalog qy qid row⟩ := by
  simp [manifestCursorAt, predecessorAt, hi]

/-- The rows read make the chunk from a position on. -/
theorem manifestChunkOfRows_eq (hl : ValidLimit cap) (hs : start ≤ (catalog.listing qy).length) :
    manifestChunkOfRows catalog qy qid cap (catalog.listing qy).length start (((catalog.listing qy).drop start).take (cap + 1)) =
      .ok (manifestAt catalog qy qid start (min (start + cap) (catalog.listing qy).length)) := by
  obtain ⟨hp, -⟩ := hl
  unfold manifestChunkOfRows manifestAt manifestCursorAt predecessorAt
  generalize catalog.listing qy = listing at hs ⊢
  have hm : cap < ((listing.drop start).take (cap + 1)).length ↔ start + cap < listing.length := by
    rw [length_take, length_drop]
    omega
  have hi : ((listing.drop start).take (cap + 1)).take cap =
      (listing.drop start).take (min (start + cap) listing.length - start) := by
    rw [take_take, take_eq_take_iff, length_drop]
    omega
  have hl : ((listing.drop start).take (min (start + cap) listing.length - start)).length =
      min (start + cap) listing.length - start := by
    rw [length_take, length_drop]
    omega
  simp only [hm, hi, hl, decide_eq_true_eq]
  rw [if_neg (by omega)]
  by_cases hla : start + cap < listing.length
  · have hgl : ((listing.drop start).take (min (start + cap) listing.length - start)).getLast? =
        listing[min (start + cap) listing.length - 1]? := by
      rw [getLast?_take, if_neg (by omega), getElem?_drop, getElem?_eq_getElem (by omega), Option.some_or,
        getElem?_eq_getElem (by omega)]
      congr 2
      omega
    rw [if_pos hla, if_neg (by omega), if_neg (by omega), hgl, Option.map_map, Nat.add_sub_cancel' (by omega)]
    rfl
  · rw [if_neg hla, if_pos (by omega)]

/-- A chunk of the manifest from a position on. -/
theorem loadManifest_at (hl : ValidLimit cap) (hst : start = 0 ∨ start < (catalog.listing qy).length) :
    loadGalleryLayoutManifestChunk catalog qy qid cap (manifestCursorAt catalog qy qid start) =
      .ok (manifestAt catalog qy qid start (min (start + cap) (catalog.listing qy).length)) := by
  have hle := hl.2
  have hp := hl.1
  unfold maxCatalogPageItems at hle
  have hs (after : Option GalleryLayoutManifestCursor) : catalog.select qy
      (fun row => qy.filter row && after.all fun cursor => cursorFilter qy cursor.after false row)
      ⟨.ascending, qy.orderDirection, qy.orderDirection, .ascending, .ascending⟩ =
      (catalog.listing qy).filter fun row => after.all fun cursor => cursorFilter qy cursor.after false row :=
    select_forward _
  unfold loadGalleryLayoutManifestChunk
  rw [if_neg (by unfold maxLayoutManifestChunkItems; omega)]
  simp only [hs]
  rcases Nat.eq_zero_or_pos start with rfl | hsp
  · rw [manifestCursorAt_zero]
    simp only [Option.map_none, Option.getD_none, Option.all_none, countP_filter_eq]
    rw [filter_true, ← drop_zero (l := catalog.listing qy)]
    exact manifestChunkOfRows_eq hl (Nat.zero_le _)
  · obtain ⟨i, rfl⟩ : ∃ i, start = i + 1 := ⟨start - 1, by omega⟩
    have hlt : i < (catalog.listing qy).length := by omega
    have hi : (catalog.listing qy)[i]? = some (catalog.listing qy)[i] := getElem?_eq_getElem hlt
    rw [manifestCursorAt_succ hi, if_neg (by simp [cursorOf, readCursor]; omega)]
    simp only [Option.map_some, Option.getD_some, Option.all_some]
    rw [filter_cursor_forward hi]
    exact manifestChunkOfRows_eq hl (by omega)

end Listing

end Ame
