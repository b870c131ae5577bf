import Ame.Domain.Text
import Ame.Lib.Iter
import Mathlib

/-!
# Pages of the gallery

`sqlite_catalog/gallery.rs`, `gallery/ordering.rs`, `gallery/time_anchor.rs`, `gallery/anchor_position.rs`,
`gallery/location_anchor.rs`, `gallery_snapshot.rs` and the layout manifest of `sqlite_catalog.rs`. The queries that are built as
text are functions here: a `WHERE` clause is a predicate, an `ORDER BY` clause a list of directions, and a statement filters, sorts
and cuts the active rows of the catalog. The filters of a query are predicates; what they read of other tables does not change
while the catalog revision is the same.
-/

namespace Ame

/-! ## Rows and queries -/

inductive GallerySortKey where
  | captureTime | createdTime | modifiedTime | fileName | libraryAdmission
  deriving DecidableEq, Repr

inductive GallerySortDirection where
  | ascending | descending
  deriving DecidableEq, Repr

/-- A row of `asset_locations`, with the admission number of its group. -/
structure GalleryRow where
  assetId : String
  rootId : String
  locationId : String
  captureLocalTime : Option String
  fileLocalTime : Option String
  modifiedUnixMs : Int
  naturalNameKey : String
  admission : Int
  deriving DecidableEq, Repr

/-- The active rows at one revision. -/
structure GalleryCatalog where
  revision : Nat
  rows : List GalleryRow
  unique : (rows.map fun row => (row.rootId, row.locationId)).Nodup

structure GalleryQuery where
  sortKey : GallerySortKey
  sortDirection : GallerySortDirection
  /-- `organization_queue.is_some()` -/
  organizationQueue : Bool
  /-- `push_gallery_filters` -/
  filter : GalleryRow → Bool
  /-- `push_source_filters` -/
  sourceFilter : GalleryRow → Bool
  /-- `push_anchor_filters` -/
  anchorFilter : GalleryRow → Bool
  /-- `representative_for_anchor`: the location shown for the copies of a location, and of an asset if one is given -/
  representative : String → Option String → Option String

/-- How the filters of a query belong together: an anchor passes the filters, and so does a location shown for its copies. -/
structure GalleryQuery.Coherent (query : GalleryQuery) (catalog : GalleryCatalog) : Prop where
  anchor : ∀ row ∈ catalog.rows, query.anchorFilter row = true → query.filter row = true
  representative : ∀ locationId assetId shown, query.representative locationId assetId = some shown →
    ∀ row ∈ catalog.rows, query.sourceFilter row = true → row.locationId = shown → query.filter row = true

def GalleryQuery.orderDirection (query : GalleryQuery) : GallerySortDirection :=
  if query.sortKey = .libraryAdmission then .descending else query.sortDirection

/-! ## Order -/

/-- The values of the order expressions. -/
structure OrderValues where
  missing : Bool
  text : String
  number : Int
  deriving DecidableEq, Repr

/-- `gallery_order_expressions` -/
def GalleryQuery.orderExpressions (query : GalleryQuery) (row : GalleryRow) : OrderValues :=
  match query.sortKey with
  | .captureTime =>
    let time := row.captureLocalTime.or row.fileLocalTime
    ⟨time.isNone, time.getD "", row.modifiedUnixMs⟩
  | .createdTime => ⟨row.fileLocalTime.isNone, row.fileLocalTime.getD "", row.modifiedUnixMs⟩
  | .modifiedTime => ⟨false, "", row.modifiedUnixMs⟩
  | .fileName => ⟨false, row.naturalNameKey, 0⟩
  | .libraryAdmission => ⟨false, "", row.admission⟩

/-- `substr(text, 1, 7)` -/
def substrMonth (text : String) : String := String.ofList (text.toList.take 7)

/-- The month expression of an order. `strftime` gives the month of a number of seconds since 1970 in local time. -/
def GalleryQuery.monthExpression (strftime : Int → Option String) (query : GalleryQuery) : Option (GalleryRow → Option String) :=
  match query.sortKey with
  | .captureTime => some fun row => (row.captureLocalTime.or row.fileLocalTime).map substrMonth
  | .createdTime => some fun row => row.fileLocalTime.map substrMonth
  | .modifiedTime => some fun row => strftime (row.modifiedUnixMs.tdiv 1000)
  | .fileName => none
  | .libraryAdmission => none

def GallerySortDirection.compare {α : Type} [LinearOrder α] (direction : GallerySortDirection) (a b : α) : Ordering :=
  match direction with
  | .ascending => Ord.compare a b
  | .descending => Ord.compare b a

/-- An `ORDER BY` clause: the directions of the missing flag, the text, the number, the root and the location. -/
structure OrderBy where
  missing : GallerySortDirection
  text : GallerySortDirection
  number : GallerySortDirection
  root : GallerySortDirection
  location : GallerySortDirection

def OrderBy.compare (orderBy : OrderBy) (query : GalleryQuery) (a b : GalleryRow) : Ordering :=
  (orderBy.missing.compare (query.orderExpressions a).missing (query.orderExpressions b).missing).then <|
    (orderBy.text.compare (query.orderExpressions a).text (query.orderExpressions b).text).then <|
      (orderBy.number.compare (query.orderExpressions a).number (query.orderExpressions b).number).then <|
        (orderBy.root.compare a.rootId b.rootId).then (orderBy.location.compare a.locationId b.locationId)

/-- The rows that pass a `WHERE` clause, in the order of an `ORDER BY` clause. -/
def GalleryCatalog.select (catalog : GalleryCatalog) (query : GalleryQuery) (passes : GalleryRow → Bool) (orderBy : OrderBy) :
    List GalleryRow :=
  (catalog.rows.filter passes).insertionSort fun a b => (orderBy.compare query a b).isLE = true

/-- `gallery_window_direction_sql` -/
def galleryWindowDirection (direction : GallerySortDirection) (isBackward : Bool) : GallerySortDirection :=
  match direction, isBackward with
  | .ascending, false | .descending, true => .ascending
  | .descending, false | .ascending, true => .descending

inductive SqlComparison where
  | greater | less

section

variable {α : Type} [LinearOrder α] (comparison : SqlComparison) (a b : α)

def SqlComparison.holds : Bool :=
  match comparison with
  | .greater => b < a
  | .less => a < b

/-- `a >= b` or `a <= b` -/
def SqlComparison.holdsOrEqual : Bool :=
  comparison.holds a b || a = b

end

def galleryCursorComparison (direction : GallerySortDirection) (isBackward : Bool) : SqlComparison :=
  match direction, isBackward with
  | .ascending, false | .descending, true => .greater
  | .descending, false | .ascending, true => .less

/-! ## Cursors -/

structure CatalogCursor where
  revision : Nat
  queryId : String
  primaryMissing : Bool
  primaryText : String
  primaryNumber : Int
  rootId : String
  locationId : String
  deriving DecidableEq, Repr

/-- `push_cursor_filter` -/
def cursorFilter (query : GalleryQuery) (cursor : CatalogCursor) (isBackward : Bool) (row : GalleryRow) : Bool :=
  let primary := galleryCursorComparison query.orderDirection isBackward
  let missing : SqlComparison := if isBackward then .less else .greater
  let tie : SqlComparison := if isBackward then .less else .greater
  let values := query.orderExpressions row
  missing.holds values.missing cursor.primaryMissing ||
  (values.missing = cursor.primaryMissing && primary.holds values.text cursor.primaryText) ||
  (values.missing = cursor.primaryMissing && values.text = cursor.primaryText &&
    primary.holds values.number cursor.primaryNumber) ||
  (values.missing = cursor.primaryMissing && values.text = cursor.primaryText && values.number = cursor.primaryNumber &&
    tie.holds row.rootId cursor.rootId) ||
  (values.missing = cursor.primaryMissing && values.text = cursor.primaryText && values.number = cursor.primaryNumber &&
    row.rootId = cursor.rootId && tie.holds row.locationId cursor.locationId)

/-- `read_cursor` -/
def readCursor (revision : Nat) (queryId : String) (query : GalleryQuery) (row : GalleryRow) : CatalogCursor :=
  let values := query.orderExpressions row
  { revision, queryId, primaryMissing := values.missing, primaryText := values.text, primaryNumber := values.number,
    rootId := row.rootId, locationId := row.locationId }

/-- `gallery_cursor_for_asset`: the row is read again by its root and location. -/
def galleryCursorForAsset (catalog : GalleryCatalog) (query : GalleryQuery) (queryId : String) (asset : GalleryRow) :
    Except ScanError CatalogCursor :=
  match catalog.rows.find? fun row => row.rootId = asset.rootId ∧ row.locationId = asset.locationId with
  | some row =>
    .ok { readCursor catalog.revision queryId query row with rootId := asset.rootId, locationId := asset.locationId }
  | none => .error ⟨"catalog_cursor_asset_unavailable", "The gallery item is no longer available in the active catalog"⟩

/-! ## Months -/

/-- The month of a text of the form `YYYY-MM`. -/
def monthOfKey (monthKey : String) : Option Nat :=
  match monthKey.toList with
  | [y1, y2, y3, y4, '-', m1, m2] =>
    if y1.isDigit ∧ y2.isDigit ∧ y3.isDigit ∧ y4.isDigit ∧ m1.isDigit ∧ m2.isDigit then
      let month := 10 * (m1.toNat - '0'.toNat) + (m2.toNat - '0'.toNat)
      if 1 ≤ month ∧ month ≤ 12 then some month else none
    else none
  | _ => none

/-- `validate_month_key_text` -/
def validateMonthKeyText (monthKey : String) : Except ScanError Nat :=
  match monthOfKey monthKey with
  | some month => .ok month
  | none =>
    .error ⟨"catalog_time_anchor_invalid", "A gallery month anchor must use YYYY-MM with a month from 01 through 12"⟩

structure GalleryTimeAnchor where
  revision : Nat
  queryId : String
  monthKey : Option String
  itemOffset : Nat
  deriving DecidableEq, Repr

def timeAnchorUnavailable : ScanError :=
  ⟨"catalog_time_anchor_unavailable", "The selected gallery ordering does not have a chronological time anchor"⟩

def unknownDateUnavailable : ScanError :=
  ⟨"catalog_time_anchor_invalid", "Modification-time results do not contain an unknown-date section"⟩

/-- `push_time_anchor_filter` -/
def timeAnchorFilter (strftime : Int → Option String) (query : GalleryQuery) (anchor : GalleryTimeAnchor) :
    Except ScanError (GalleryRow → Bool) :=
  match query.monthExpression strftime with
  | none => .error timeAnchorUnavailable
  | some month =>
    match anchor.monthKey with
    | some monthKey =>
      (validateMonthKeyText monthKey).map fun _ row =>
        match month row with
        | none => true
        | some rowMonth => (galleryCursorComparison query.orderDirection false).holdsOrEqual rowMonth monthKey
    | none => if query.sortKey = .modifiedTime then .error unknownDateUnavailable else .ok fun row => (month row).isNone

/-- The text that ends a month: `YYYY-MM` with the next number. -/
def exclusiveMonthEnd (monthKey : String) (month : Nat) : String :=
  String.ofList (monthKey.toList.take 5 ++ [Char.ofNat ('0'.toNat + (month + 1) / 10), Char.ofNat ('0'.toNat + (month + 1) % 10)])

/-- The order of a query. -/
def GalleryQuery.forward (query : GalleryQuery) : OrderBy :=
  ⟨.ascending, query.orderDirection, query.orderDirection, .ascending, .ascending⟩

/-- The rows `resolve_gallery_anchor_cursor` counts in. -/
def monthRowFilter (query : GalleryQuery) (month : GalleryRow → Option String) (monthKey : Option String) :
    Except ScanError (GalleryRow → Bool) :=
  match monthKey with
  | some monthKey =>
    (validateMonthKeyText monthKey).map fun number row =>
      query.filter row && month row == some monthKey && (if query.sortKey = .captureTime ∨ query.sortKey = .createdTime then
          !(query.orderExpressions row).missing && monthKey ≤ (query.orderExpressions row).text &&
            (query.orderExpressions row).text < exclusiveMonthEnd monthKey number
        else true)
  | none =>
    if query.sortKey = .modifiedTime then .error unknownDateUnavailable
    else .ok fun row => query.filter row && (month row).isNone && (query.orderExpressions row).missing

section

variable (strftime : Int → Option String) (catalog : GalleryCatalog) (query : GalleryQuery)

/-- `resolve_gallery_anchor_cursor` -/
def resolveGalleryAnchorCursor (queryId : String) (anchor : GalleryTimeAnchor) : Except ScanError CatalogCursor := do
  match query.monthExpression strftime with
  | none => throw timeAnchorUnavailable
  | some month =>
    let passes ← monthRowFilter query month anchor.monthKey
    let offset ← sqliteInteger (anchor.itemOffset - 1) "gallery time-anchor item offset"
    match (catalog.select query passes query.forward)[offset]? with
    | none => throw ⟨"catalog_time_anchor_invalid", "The selected position is outside its gallery time bucket"⟩
    | some row => galleryCursorForAsset catalog query queryId row

/-! ## Snapshots -/

/-- `build_gallery_asset_query`, run with its limit. -/
def selectGalleryAssets (after before : Option CatalogCursor) (anchor : Option GalleryTimeAnchor) (limit : Nat) :
    Except ScanError (List GalleryRow) := do
  let isBackward := before.isSome
  let primary := galleryWindowDirection query.orderDirection isBackward
  let missing : GallerySortDirection := if isBackward then .descending else .ascending
  let tie : GallerySortDirection := if isBackward then .descending else .ascending
  let anchored ← match anchor with
    | some anchor => timeAnchorFilter strftime query anchor
    | none => pure fun _ => true
  let passes := fun row => query.filter row && anchored row && after.all (cursorFilter query · false row) &&
    before.all (cursorFilter query · true row)
  pure ((catalog.select query passes ⟨missing, primary, primary, tie, tie⟩).take limit)

end

structure GalleryLocationAnchorResolution where
  requestedLocationId : String
  locationId : Option String
  ordinal : Option Nat
  windowStartOrdinal : Nat
  deriving DecidableEq, Repr

structure CatalogSnapshot where
  revision : Nat
  queryId : String
  assets : List GalleryRow
  previousCursor : Option CatalogCursor
  nextCursor : Option CatalogCursor
  queryAnchorResolution : Option GalleryLocationAnchorResolution
  deriving DecidableEq, Repr

def maxCatalogPageItems : Nat := 4096

/-- The check of a page limit. -/
def checkPageLimit (maxItems : Nat) : Except ScanError Unit :=
  if maxItems = 0 ∨ maxCatalogPageItems < maxItems then
    .error ⟨"catalog_page_limit_invalid", "The catalog page limit must be between 1 and 4096 items"⟩
  else .ok ()

section

variable (catalog : GalleryCatalog)

/-- The cursor of an item, if there is one. -/
def cursorOfAsset (query : GalleryQuery) (queryId : String) (asset : Option GalleryRow) :
    Except ScanError (Option CatalogCursor) :=
  match asset with
  | some asset => (galleryCursorForAsset catalog query queryId asset).map some
  | none => .ok none

/-- The checks of `load_snapshot`. -/
def checkSnapshotRequest (queryId : String) (maxItems : Nat) (after before : Option CatalogCursor)
    (anchor : Option GalleryTimeAnchor) : Except ScanError Unit := do
  checkPageLimit maxItems
  if 1 < after.toList.length + before.toList.length + anchor.toList.length then
    throw ⟨"catalog_query_invalid", "A gallery request accepts only one page cursor or anchor"⟩
  if after.any fun cursor => cursor.revision ≠ catalog.revision ∨ cursor.queryId ≠ queryId then
    throw ⟨"catalog_cursor_stale", "The catalog or gallery query changed after this page cursor was created"⟩
  if before.any fun cursor => cursor.revision ≠ catalog.revision ∨ cursor.queryId ≠ queryId then
    throw ⟨"catalog_cursor_stale", "The catalog or gallery query changed after this page cursor was created"⟩
  if anchor.any fun anchor => anchor.revision ≠ catalog.revision ∨ anchor.queryId ≠ queryId then
    throw ⟨"catalog_cursor_stale", "The catalog or gallery query changed after this time anchor was created"⟩

/-- The snapshot of the rows read, one more than asked for if there are more. -/
def snapshotOfRows (query : GalleryQuery) (queryId : String) (maxItems : Nat)
    (isBackward continues : Bool) (rows : List GalleryRow) : Except ScanError CatalogSnapshot := do
  let hasMore : Bool := maxItems < rows.length
  let kept := rows.take maxItems
  let assets := if isBackward then kept.reverse else kept
  let previousCursor ← cursorOfAsset catalog query queryId (if isBackward && hasMore || continues then assets.head? else none)
  let nextCursor ← cursorOfAsset catalog query queryId (if isBackward || hasMore then assets.getLast? else none)
  pure { revision := catalog.revision, queryId, assets, previousCursor, nextCursor, queryAnchorResolution := none }

end

/-- `load_snapshot` -/
def loadSnapshot (strftime : Int → Option String) (catalog : GalleryCatalog) (query : GalleryQuery) (queryId : String)
    (maxItems : Nat) (after before : Option CatalogCursor) (anchor : Option GalleryTimeAnchor) :
    Except ScanError CatalogSnapshot := do
  checkSnapshotRequest catalog queryId maxItems after before anchor
  let anchorCursor ← match anchor with
    | some anchor =>
      if 0 < anchor.itemOffset then (resolveGalleryAnchorCursor strftime catalog query queryId anchor).map some else pure none
    | none => pure none
  let effectiveAfter := after.or anchorCursor
  let effectiveAnchor := if anchorCursor.isSome then none else anchor
  let rows ← selectGalleryAssets strftime catalog query effectiveAfter before effectiveAnchor (maxItems + 1)
  snapshotOfRows catalog query queryId maxItems before.isSome (effectiveAfter.isSome || anchor.isSome) rows

/-! ## Windows around a location -/

structure GalleryAnchorPosition where
  cursor : CatalogCursor
  knownOrdinal : Option Nat

structure GalleryAnchorWindow where
  locationId : String
  ordinal : Nat
  startOrdinal : Nat
  predecessor : Option CatalogCursor

/-- The condition of the anchor queries: the rows before the anchor, with the bounds that help the index. -/
def precedesAnchor (query : GalleryQuery) (anchor : CatalogCursor) (row : GalleryRow) : Bool :=
  cursorFilter query anchor true row &&
    (if !query.organizationQueue && !anchor.primaryMissing && (query.sortKey = .captureTime || query.sortKey = .createdTime) then
      !(query.orderExpressions row).missing &&
        (galleryCursorComparison query.orderDirection true).holdsOrEqual (query.orderExpressions row).text anchor.primaryText
    else true)

section

variable (catalog : GalleryCatalog) (query : GalleryQuery)

/-- `resolve_window` -/
def resolveWindow (position : GalleryAnchorPosition) (maxItems : Nat) : Except ScanError GalleryAnchorWindow := do
  let anchor := position.cursor
  let preceding := fun row => query.filter row && precedesAnchor query anchor row
  let ordinal := position.knownOrdinal.getD (catalog.rows.countP preceding)
  let startOrdinal := ordinal - maxItems / 2
  let predecessor ←
    if startOrdinal = 0 then pure none
    else do
      let reverseOffset ← sqliteInteger (ordinal - startOrdinal) "gallery location anchor offset"
      let direction := galleryWindowDirection query.orderDirection true
      match (catalog.select query preceding ⟨.descending, direction, direction, .descending, .descending⟩)[reverseOffset]? with
      | some row => pure (some (readCursor anchor.revision anchor.queryId query row))
      | none => throw queryReturnedNoRows
  pure { locationId := anchor.locationId, ordinal, startOrdinal, predecessor }

/-- `resolve_fallback` -/
def resolveFallback (queryId : String) (requestedOrdinal : Nat) : Option GalleryAnchorPosition :=
  let rows := catalog.select query query.filter query.forward
  let positionAt (ordinal : Nat) : Option GalleryAnchorPosition :=
    rows[ordinal]?.map fun row => ⟨readCursor catalog.revision queryId query row, some ordinal⟩
  match if requestedOrdinal ≤ i64Max then positionAt requestedOrdinal else none with
  | some position => some position
  | none => if requestedOrdinal = 0 ∨ rows.length = 0 then none else positionAt (min requestedOrdinal (rows.length - 1))

end

structure GalleryAnchorRequest where
  requestedLocationId : String
  /-- whether the anchor is looked up by its location, or by its asset -/
  byLocation : Bool
  anchorValue : String
  requiredAssetId : Option String
  fallbackOrdinal : Option Nat
  maxItems : Nat

/-- The condition of the statement that looks an anchor up. The location shown for copies is looked up in the source scope. -/
def anchorRowFilter (query : GalleryQuery) (request : GalleryAnchorRequest) (row : GalleryRow) : Bool :=
  match if request.byLocation then query.representative request.anchorValue request.requiredAssetId else none with
  | some shown => query.sourceFilter row && row.locationId == shown
  | none =>
    query.anchorFilter row && (if request.byLocation then row.locationId else row.assetId) == request.anchorValue &&
      request.requiredAssetId.all fun assetId => row.assetId == assetId

section

variable (choice : Iter.Choice GalleryRow) (catalog : GalleryCatalog) (query : GalleryQuery) (queryId : String)
  (request : GalleryAnchorRequest)

/-- The position of an anchor. Its row is any one the statement returns first. -/
def anchorPosition : Option GalleryAnchorPosition :=
  match choice.pick (catalog.rows.filter (anchorRowFilter query request)) with
  | some row => some ⟨readCursor catalog.revision queryId query row, none⟩
  | none => request.fallbackOrdinal.bind (resolveFallback catalog query queryId)

/-- `resolve_gallery_anchor` -/
def resolveGalleryAnchor : Except ScanError (GalleryLocationAnchorResolution × Option CatalogCursor) :=
  match anchorPosition choice catalog query queryId request with
  | none => .ok (⟨request.requestedLocationId, none, none, 0⟩, none)
  | some position =>
    (resolveWindow catalog query position request.maxItems).map fun window =>
      (⟨request.requestedLocationId, some window.locationId, some window.ordinal, window.startOrdinal⟩, window.predecessor)

end

structure GalleryQueryAnchor where
  requestedLocationId : String
  assetId : Option String
  fallbackOrdinal : Nat

/-- `resolve_gallery_location_anchor` and `resolve_gallery_asset_anchor` -/
def resolveQueryAnchor (choice : Iter.Choice GalleryRow) (catalog : GalleryCatalog) (query : GalleryQuery) (queryId : String)
    (maxItems : Nat) (anchor : GalleryQueryAnchor) :
    Except ScanError (GalleryLocationAnchorResolution × Option CatalogCursor) := do
  let location := anchor.requestedLocationId
  let preferred ← resolveGalleryAnchor choice catalog query queryId ⟨location, true, location, anchor.assetId, none, maxItems⟩
  match anchor.assetId with
  | none => pure preferred
  | some assetId =>
    let byAsset : GalleryAnchorRequest := ⟨location, false, assetId, none, some anchor.fallbackOrdinal, maxItems⟩
    if preferred.1.locationId.isSome then pure preferred else resolveGalleryAnchor choice catalog query queryId byAsset

/-- `load_anchored_snapshot` -/
def loadAnchoredSnapshot (strftime : Int → Option String) (choice : Iter.Choice GalleryRow) (catalog : GalleryCatalog)
    (query : GalleryQuery) (queryId : String) (maxItems : Nat) (anchor : GalleryQueryAnchor) :
    Except ScanError CatalogSnapshot := do
  checkPageLimit maxItems
  if trimIsEmpty anchor.requestedLocationId || anchor.assetId.any trimIsEmpty then
    throw ⟨"catalog_asset_anchor_invalid", "A gallery anchor requires non-empty location and optional asset identifiers"⟩
  let resolved ← resolveQueryAnchor choice catalog query queryId maxItems anchor
  let snapshot ← loadSnapshot strftime catalog query queryId maxItems resolved.2 none none
  pure { snapshot with queryAnchorResolution := some resolved.1 }

/-! ## The layout manifest -/

structure GalleryLayoutManifestCursor where
  revision : Nat
  queryId : String
  totalItems : Nat
  nextOrdinal : Nat
  after : CatalogCursor
  deriving DecidableEq, Repr

structure GalleryLayoutManifestChunk where
  startOrdinal : Nat
  totalItems : Nat
  locationIds : List String
  nextCursor : Option GalleryLayoutManifestCursor
  deriving DecidableEq, Repr

def maxLayoutManifestChunkItems : Nat := 4096

section

variable (catalog : GalleryCatalog) (query : GalleryQuery) (queryId : String)

/-- The chunk of the rows read, one more than asked for if there are more. -/
def manifestChunkOfRows (maxItems totalItems startOrdinal : Nat)
    (rows : List GalleryRow) : Except ScanError GalleryLayoutManifestChunk :=
  let hasMore : Bool := maxItems < rows.length
  let items := rows.take maxItems
  let nextOrdinal := startOrdinal + items.length
  if totalItems < nextOrdinal ∨ (hasMore ∧ totalItems ≤ nextOrdinal) then
    .error ⟨"catalog_layout_count_invalid", "The gallery layout cursor does not match the complete query count"⟩
  else
    let cursorAfter := fun item : GalleryRow =>
      { revision := catalog.revision, queryId, totalItems, nextOrdinal, after := readCursor catalog.revision queryId query item }
    .ok { startOrdinal, totalItems, locationIds := items.map (·.locationId)
          nextCursor := if hasMore then items.getLast?.map cursorAfter else none }

/-- `load_gallery_layout_manifest_chunk`, with the query of `build_gallery_layout_manifest_query`. -/
def loadGalleryLayoutManifestChunk (maxItems : Nat)
    (after : Option GalleryLayoutManifestCursor) : Except ScanError GalleryLayoutManifestChunk :=
  if maxItems = 0 ∨ maxLayoutManifestChunkItems < maxItems then
    .error ⟨"catalog_layout_chunk_limit_invalid", "The gallery layout chunk limit must be between 1 and 4096 items"⟩
  else if after.any fun cursor => cursor.revision ≠ catalog.revision ∨ cursor.queryId ≠ queryId ∨
      cursor.after.revision ≠ catalog.revision ∨ cursor.after.queryId ≠ queryId ∨ cursor.totalItems < cursor.nextOrdinal then
    .error ⟨"catalog_layout_cursor_stale", "The catalog or gallery query changed after this layout cursor was created"⟩
  else
    let totalItems := (after.map (·.totalItems)).getD (catalog.rows.countP query.filter)
    let startOrdinal := (after.map (·.nextOrdinal)).getD 0
    let passes := fun row => query.filter row && after.all fun cursor => cursorFilter query cursor.after false row
    let orderBy : OrderBy := ⟨.ascending, query.orderDirection, query.orderDirection, .ascending, .ascending⟩
    manifestChunkOfRows catalog query queryId maxItems totalItems startOrdinal
      ((catalog.select query passes orderBy).take (maxItems + 1))

end

end Ame
