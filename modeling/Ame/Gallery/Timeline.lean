import Ame.Gallery.Snapshot

/-!
# Jumping to a month

`sqlite_catalog/gallery/timeline.rs`, `domain/gallery_time_snapshot.rs` and `sqlite_catalog/gallery_time_snapshot.rs`: the months
of the gallery with their numbers of items, and the page for a month and an offset in it.
-/

namespace Ame

structure GalleryTimeBucket where
  monthKey : Option String
  itemCount : Nat
  deriving DecidableEq, Repr

structure GalleryTimeline where
  revision : Nat
  queryId : String
  totalItems : Nat
  buckets : List GalleryTimeBucket
  deriving DecidableEq, Repr

def u64Max : Nat := 2 ^ 64 - 1

/-- `invalid_count`, and the same error of `load_time_buckets` -/
def timelineCountInvalid : ScanError :=
  ⟨"catalog_timeline_count_invalid", "The gallery timeline item count exceeds the supported range"⟩

def checkedAddCount (a b : Nat) : Except ScanError Nat := if a + b ≤ u64Max then .ok (a + b) else .error timelineCountInvalid

/-! ## The timeline -/

variable (strftime : Int → Option String)

/-- `order.month.unwrap_or("NULL")` -/
def GalleryQuery.month (query : GalleryQuery) (row : GalleryRow) : Option String :=
  (query.monthExpression strftime).bind fun month => month row

/-- `ORDER BY (month_key IS NULL), month_key` in a direction -/
def compareMonths (direction : GallerySortDirection) (a b : Option String) : Ordering :=
  (compare a.isNone b.isNone).then <|
    match a, b with
    | some a, some b => direction.compare a b
    | _, _ => .eq

/-- `build_gallery_timeline_query`: the months of the rows, each with its number of rows. -/
def selectTimeBuckets (catalog : GalleryCatalog) (query : GalleryQuery) : List GalleryTimeBucket :=
  let rows := catalog.rows.filter query.filter
  let months := (rows.map (query.month strftime)).dedup.insertionSort fun a b =>
    (compareMonths query.orderDirection a b).isLE = true
  months.map fun monthKey => ⟨monthKey, rows.countP fun row => query.month strftime row = monthKey⟩

/-- `load_time_buckets`, with the total. -/
def loadTimeBuckets (catalog : GalleryCatalog) (query : GalleryQuery) : Except ScanError (List GalleryTimeBucket × Nat) := do
  let buckets := selectTimeBuckets strftime catalog query
  let total ← buckets.foldlM (fun total bucket => checkedAddCount total bucket.itemCount) 0
  pure (buckets, total)

/-- `load_gallery_timeline` in a chronological order. -/
def loadGalleryTimeline (catalog : GalleryCatalog) (query : GalleryQuery) (queryId : String) :
    Except ScanError GalleryTimeline := do
  let (buckets, totalItems) ← loadTimeBuckets strftime catalog query
  pure { revision := catalog.revision, queryId, totalItems, buckets }

/-! ## Intents -/

structure GalleryTimeIntent where
  monthKey : Option String
  itemOffset : Nat
  deriving DecidableEq, Repr

structure ResolvedGalleryTimeIntent where
  anchor : GalleryTimeAnchor
  ordinal : Nat
  deriving DecidableEq, Repr

/-- The loop of `window_start` -/
def windowStartIn (timeline : GalleryTimeline) (ordinal : Nat) :
    Nat → List GalleryTimeBucket → Except ScanError ResolvedGalleryTimeIntent
  | _, [] => .error timelineCountInvalid
  | remaining, bucket :: buckets =>
    if remaining < bucket.itemCount then
      .ok ⟨⟨timeline.revision, timeline.queryId, bucket.monthKey, remaining⟩, ordinal⟩
    else windowStartIn timeline ordinal (remaining - bucket.itemCount) buckets

/-- `window_start` -/
def ResolvedGalleryTimeIntent.windowStart (resolved : ResolvedGalleryTimeIntent) (timeline : GalleryTimeline) (maxItems : Nat) :
    Except ScanError ResolvedGalleryTimeIntent :=
  let ordinal := resolved.ordinal - maxItems / 2
  windowStartIn timeline ordinal ordinal timeline.buckets

/-- `validate_month_key` -/
def validateMonthKey (month : String) : Except ScanError Unit :=
  match monthOfKey month with
  | some _ => .ok ()
  | none =>
    .error ⟨"catalog_time_anchor_invalid", "A gallery month intent must use YYYY-MM with a month from 01 through 12"⟩

/-- Whether a bucket comes after the month of an intent. -/
def followsIntent (direction : GallerySortDirection) (current requested : Option String) : Bool :=
  match current, requested with
  | some current, some requested =>
    match direction with
    | .ascending => requested < current
    | .descending => current < requested
  | none, some _ => true
  | _, none => false

/-- The loop of `resolve` -/
def GalleryTimeIntent.resolveIn (intent : GalleryTimeIntent) (timeline : GalleryTimeline) (direction : GallerySortDirection) :
    Nat → Option ResolvedGalleryTimeIntent → List GalleryTimeBucket → Except ScanError (Option ResolvedGalleryTimeIntent)
  | _, last, [] => .ok last
  | preceding, last, bucket :: buckets =>
    if bucket.itemCount = 0 then intent.resolveIn timeline direction preceding last buckets
    else do
      let sameMonth : Bool := bucket.monthKey = intent.monthKey
      let follows := followsIntent direction bucket.monthKey intent.monthKey
      let offset :=
        if sameMonth then min intent.itemOffset (bucket.itemCount - 1)
        else if follows then 0
        else bucket.itemCount - 1
      let ordinal ← checkedAddCount preceding offset
      let resolved : ResolvedGalleryTimeIntent :=
        ⟨⟨timeline.revision, timeline.queryId, bucket.monthKey, offset⟩, ordinal⟩
      if sameMonth || follows then pure (some resolved)
      else
        let preceding ← checkedAddCount preceding bucket.itemCount
        intent.resolveIn timeline direction preceding (some resolved) buckets

/-- `resolve` -/
def GalleryTimeIntent.resolve (intent : GalleryTimeIntent) (timeline : GalleryTimeline) (direction : GallerySortDirection) :
    Except ScanError (Option ResolvedGalleryTimeIntent) := do
  match intent.monthKey with
  | some month => validateMonthKey month
  | none => pure ()
  intent.resolveIn timeline direction 0 none timeline.buckets

/-! ## The page -/

structure GalleryTimeSnapshot where
  snapshot : CatalogSnapshot
  timeline : GalleryTimeline
  anchor : Option GalleryTimeAnchor
  windowStartOrdinal : Nat
  deriving DecidableEq, Repr

/-- `load_time_snapshot` -/
def loadTimeSnapshot (catalog : GalleryCatalog) (query : GalleryQuery) (queryId : String)
    (maxItems : Nat) (intent : GalleryTimeIntent) : Except ScanError GalleryTimeSnapshot := do
  if query.sortKey = .fileName ∨ query.sortKey = .libraryAdmission then
    throw ⟨"catalog_time_anchor_unavailable", "Name-sorted gallery results do not have a chronological time anchor"⟩
  if query.sortKey = .modifiedTime ∧ intent.monthKey = none then
    throw unknownDateUnavailable
  let timeline ← loadGalleryTimeline strftime catalog query queryId
  let resolved ← intent.resolve timeline query.sortDirection
  let windowStart ← match resolved with
    | some value => (value.windowStart timeline maxItems).map some
    | none => pure none
  let snapshot ← loadSnapshot strftime catalog query queryId maxItems none none (windowStart.map (·.anchor))
  pure { snapshot, timeline, anchor := resolved.map (·.anchor)
         windowStartOrdinal := (windowStart.map (·.ordinal)).getD 0 }

end Ame
