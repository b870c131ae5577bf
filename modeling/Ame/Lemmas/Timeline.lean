import Ame.Gallery.Timeline
import Ame.Lemmas.Gallery
import Ame.Lib.Grouped
import Mathlib

/-!
# Months in the order of the gallery

The timeline counts the items month by month, the items without a month last. In the order of the gallery the months follow each
other in the same way, except for items whose modification time is outside the years the database knows: some of these stand in
front. The listing is cut into three pieces accordingly: the items in front, those with a month and those after them.
-/

namespace Ame

open List Keyset GalleryQuery Directed Except

variable {a b monthKey key : String} {month ordinal : Nat} {dir : GallerySortDirection} {buckets : List GalleryTimeBucket}
  {timeline : GalleryTimeline}

/-! ## Texts of months -/

theorem take_lt {a b : List Char} {n : Nat} (h : a.take n < b.take n) : a < b := by
  induction n generalizing a b with
  | zero => exact absurd h (List.lt_irrefl _)
  | succ n ih =>
    cases b with
    | nil => exact absurd h (not_lt_nil _)
    | cons y b =>
      cases a with
      | nil => exact nil_lt_cons _ _
      | cons x a =>
        rw [take_succ_cons, take_succ_cons, cons_lt_cons_iff] at h
        rw [cons_lt_cons_iff]
        rcases h with h | ⟨heq, h⟩
        · exact .inl h
        · exact .inr ⟨heq, ih h⟩

/-- Months follow the order of texts. -/
theorem substrMonth_mono (h : a ≤ b) : substrMonth a ≤ substrMonth b := by
  intro hlt
  rw [String.lt_iff_toList_lt, substrMonth, substrMonth, String.toList_ofList, String.toList_ofList] at hlt
  exact h (String.lt_iff_toList_lt.mpr (take_lt hlt))

/-- The form of a month key. -/
theorem monthOfKey_spec (h : monthOfKey key = some month) :
    ∃ y1 y2 y3 y4 tens units, key.toList = [y1, y2, y3, y4, '-', tens, units] ∧
      month = 10 * (tens.toNat - '0'.toNat) + (units.toNat - '0'.toNat) ∧ month ≤ 12 := by
  unfold monthOfKey at h
  split at h
  · next y1 y2 y3 y4 tens units hk =>
    split at h
    · dsimp only at h
      split at h
      · next hr =>
        cases h
        exact ⟨y1, y2, y3, y4, tens, units, hk, rfl, hr.2⟩
      · cases h
    · cases h
  · cases h

theorem ofNat_digit_toNat : ∀ d < 10, (Char.ofNat ('0'.toNat + d)).toNat = '0'.toNat + d := by
  decide

/-- The two digits of a month come before those of the next. -/
theorem digits_lt_next {tens units : Char}
    (hm : month = 10 * (tens.toNat - '0'.toNat) + (units.toNat - '0'.toNat)) (hle : month ≤ 12) :
    tens < Char.ofNat ('0'.toNat + (month + 1) / 10) ∨
      tens = Char.ofNat ('0'.toNat + (month + 1) / 10) ∧ units < Char.ofNat ('0'.toNat + (month + 1) % 10) := by
  have hlt : ∀ {a b : Char}, a < b ↔ a.toNat < b.toNat := Iff.rfl
  rw [hlt, hlt, ← Char.toNat_inj, ofNat_digit_toNat _ (by omega), ofNat_digit_toNat _ (by omega)]
  omega

/-- The bounds of a month exclude nothing of it. -/
theorem month_bounds {text : String} (hv : monthOfKey key = some month)
    (hm : substrMonth text = key) : key ≤ text ∧ text < exclusiveMonthEnd key month := by
  obtain ⟨y1, y2, y3, y4, tens, units, hk, hn, hle⟩ := monthOfKey_spec hv
  have ht : text.toList.take 7 = key.toList := by rw [← hm, substrMonth, String.toList_ofList]
  constructor
  · rw [← not_lt, String.lt_iff_toList_lt, ← ht]
    exact ( take_prefix 7 text.toList).le
  · have htex : text.toList = y1 :: y2 :: y3 :: y4 :: '-' :: tens :: units :: text.toList.drop 7 := by
      conv_lhs => rw [← take_append_drop 7 text.toList, ht, hk]
      rfl
    rw [String.lt_iff_toList_lt, exclusiveMonthEnd, String.toList_ofList, hk, htex]
    simp only [take_succ_cons, take_zero, cons_append, nil_append, cons_lt_cons_iff, lt_irrefl, true_and,
      false_or, not_lt_nil, and_false, or_false]
    exact digits_lt_next hn hle

/-! ## The order of months -/

/-- The key of a month. -/
def monthOrder (direction : GallerySortDirection) (month : Option String) : Bool ×ₗ Directed direction String :=
  toLex (month.isNone, .of direction (month.getD ""))

theorem monthOrder_inj {a b : Option String} : monthOrder dir a = monthOrder dir b ↔ a = b := by
  cases a <;> cases b <;> simp [monthOrder]

theorem monthOrder_some_le : monthOrder dir (some a) ≤ monthOrder dir (some b) ↔ of dir a ≤ of dir b := by
  simp [monthOrder, Prod.Lex.toLex_le_toLex]

theorem monthOrder_some_lt_none : monthOrder dir (some a) < monthOrder dir none := by
  simp [monthOrder, Prod.Lex.toLex_lt_toLex]

/-- The order of buckets is that of months. -/
theorem compareMonths_le_iff {a b : Option String} :
    (compareMonths dir a b).isLE = true ↔ monthOrder dir a ≤ monthOrder dir b := by
  cases a with
  | none =>
    cases b with
    | none => simp [compareMonths]
    | some b =>
      have hc : compare true false = .gt := rfl
      simp [compareMonths, not_le.mpr monthOrder_some_lt_none, hc]
  | some a =>
    cases b with
    | none =>
      have hc : compare false true = .lt := rfl
      simp [compareMonths, le_of_lt monthOrder_some_lt_none, hc]
    | some b =>
      rw [monthOrder_some_le, isLE_iff_ne_gt, ← not_lt, ← compare_eq_gt_iff]
      simp [compareMonths]

/-! ## The clock -/

/-- The first second of the year 0000. -/
def yearZero : Int := -62167219200

/-- The first second of the year 10000. -/
def yearTenThousand : Int := 253402300800

/-- What is known of `strftime('%Y-%m', seconds, 'unixepoch', 'localtime')` where the local time is UTC. -/
structure UtcMonths (strftime : Int → Option String) : Prop where
  known : ∀ seconds, (strftime seconds).isSome = true ↔ yearZero ≤ seconds ∧ seconds < yearTenThousand
  monotone : ∀ first second month month', first ≤ second → strftime first = some month → strftime second = some month' →
    month ≤ month'

/-- An item without a month that stands in front of those with one. -/
def unknownFirst (query : GalleryQuery) (row : GalleryRow) : Bool :=
  query.sortKey = .modifiedTime &&
    match query.orderDirection with
    | .ascending => row.modifiedUnixMs.tdiv 1000 < yearZero
    | .descending => yearTenThousand ≤ row.modifiedUnixMs.tdiv 1000

/-- An order that has months. -/
def GalleryQuery.Chronological (query : GalleryQuery) : Prop := query.sortKey ≠ .fileName ∧ query.sortKey ≠ .libraryAdmission

section Clock

variable {fmt : Int → Option String} {q : GalleryQuery} {a b row : GalleryRow}

theorem directed_le_cases {α : Type} [LinearOrder α] {dir : GallerySortDirection} {x y : α} (h : of dir x ≤ of dir y) :
    dir = .ascending ∧ x ≤ y ∨ dir = .descending ∧ y ≤ x := by
  cases dir
  · exact .inl ⟨rfl, h⟩
  · exact .inr ⟨rfl, h⟩

theorem month_of_modifiedTime (h : q.sortKey = .modifiedTime) : q.month fmt row = fmt (row.modifiedUnixMs.tdiv 1000) := by
  rw [month, monthExpression, h]
  rfl

theorem month_of_text (h : q.sortKey = .captureTime ∨ q.sortKey = .createdTime) : q.month fmt row =
      if (q.orderExpressions row).missing then none else some (substrMonth (q.orderExpressions row).text) := by
  rcases h with h | h
  · rw [month, monthExpression, orderExpressions, h]
    cases ht : row.captureLocalTime.or row.fileLocalTime <;> simp [ht]
  · rw [month, monthExpression, orderExpressions, h]
    cases ht : row.fileLocalTime <;> simp [ht]

theorem GalleryQuery.Chronological.cases (h : q.Chronological) :
    q.sortKey = .modifiedTime ∨ q.sortKey = .captureTime ∨ q.sortKey = .createdTime := by
  obtain ⟨hn, ha⟩ := h
  cases hk : q.sortKey
  case captureTime => exact .inr (.inl rfl)
  case createdTime => exact .inr (.inr rfl)
  case modifiedTime => exact .inl rfl
  case fileName => exact absurd hk hn
  case libraryAdmission => exact absurd hk ha

/-- By modification time the instants are in the order of the query. -/
theorem instants_of_key_lt (h : q.sortKey = .modifiedTime) (hlt : q.key a < q.key b) :
    q.orderDirection = .ascending ∧ a.modifiedUnixMs.tdiv 1000 ≤ b.modifiedUnixMs.tdiv 1000 ∨
      q.orderDirection = .descending ∧ b.modifiedUnixMs.tdiv 1000 ≤ a.modifiedUnixMs.tdiv 1000 := by
  have hn : of q.orderDirection a.modifiedUnixMs ≤ of q.orderDirection b.modifiedUnixMs := by
    rw [key, key, keyOf_lt_iff, orderExpressions, orderExpressions, h] at hlt
    simp only [lt_irrefl, true_and, false_or] at hlt
    rcases hlt with hlt | ⟨heq, -⟩
    · exact le_of_lt hlt
    · rw [heq]
  rcases directed_le_cases hn with ⟨hd, hle⟩ | ⟨hd, hle⟩
  · exact .inl ⟨hd, Int.tdiv_le_tdiv (by decide) hle⟩
  · exact .inr ⟨hd, Int.tdiv_le_tdiv (by decide) hle⟩

/-- By a local time the texts are in the order of the query, the missing ones last. -/
theorem texts_of_key_lt (hlt : q.key a < q.key b) (hb : (q.orderExpressions b).missing = false) :
    (q.orderExpressions a).missing = false ∧ of q.orderDirection (q.orderExpressions a).text ≤
        of q.orderDirection (q.orderExpressions b).text := by
  rw [key, key, keyOf_lt_iff, hb] at hlt
  rcases hlt with hlt | ⟨hm, hlt | ⟨heq, -⟩⟩
  · exact absurd hlt (by simp)
  · exact ⟨hm, le_of_lt hlt⟩
  · exact ⟨hm, by rw [heq]⟩

/-- The months that are known are in the order of the query. -/
theorem months_of_key_lt (hc : UtcMonths fmt) (hch : q.Chronological) (hlt : q.key a < q.key b)
    {month month' : String} (ha : q.month fmt a = some month) (hb : q.month fmt b = some month') :
    of q.orderDirection month ≤ of q.orderDirection month' := by
  rcases hch.cases with hm | ht
  · rw [month_of_modifiedTime hm] at ha hb
    rcases instants_of_key_lt hm hlt with ⟨hd, hle⟩ | ⟨hd, hle⟩
    · rw [hd]
      exact hc.monotone _ _ _ _ hle ha hb
    · rw [hd]
      exact hc.monotone _ _ _ _ hle hb ha
  · rw [month_of_text ht] at ha hb
    have hmi : (q.orderExpressions b).missing = false := by
      by_contra hne
      rw [if_pos (by simpa using hne)] at hb
      cases hb
    obtain ⟨hp, hle⟩ := texts_of_key_lt hlt hmi
    rw [if_neg (by simp [hp])] at ha
    rw [if_neg (by simp [hmi])] at hb
    cases ha
    cases hb
    rcases directed_le_cases hle with ⟨hd, hle⟩ | ⟨hd, hle⟩
    · rw [hd]
      exact substrMonth_mono hle
    · rw [hd]
      exact substrMonth_mono hle

/-- The items in front have no month. -/
theorem month_of_unknownFirst (hc : UtcMonths fmt) (h : unknownFirst q row = true) : q.month fmt row = none := by
  rw [unknownFirst, Bool.and_eq_true, decide_eq_true_iff] at h
  obtain ⟨hm, hs⟩ := h
  rw [month_of_modifiedTime hm, ← Option.not_isSome_iff_eq_none, hc.known]
  split at hs
  · have := of_decide_eq_true hs
    omega
  · have := of_decide_eq_true hs
    omega

/-- What stands before an item in front is in front. -/
theorem unknownFirst_of_key_lt (hlt : q.key a < q.key b) (h : unknownFirst q b = true) : unknownFirst q a = true := by
  rw [unknownFirst, Bool.and_eq_true, decide_eq_true_iff] at h ⊢
  obtain ⟨hm, hs⟩ := h
  refine ⟨hm, ?_⟩
  rcases instants_of_key_lt hm hlt with ⟨hd, hle⟩ | ⟨hd, hle⟩
  · simp only [hd, decide_eq_true_eq] at hs ⊢
    omega
  · simp only [hd, decide_eq_true_eq] at hs ⊢
    omega

/-- Apart from the items in front, what stands before an item with a month has one. -/
theorem month_isSome_of_key_lt (hc : UtcMonths fmt) (hch : q.Chronological) (hlt : q.key a < q.key b)
    (ha : unknownFirst q a = false) (hb : (q.month fmt b).isSome = true) : (q.month fmt a).isSome = true := by
  rcases hch.cases with hm | ht
  · rw [month_of_modifiedTime hm, hc.known] at hb ⊢
    rw [unknownFirst, decide_eq_true hm, Bool.true_and] at ha
    rcases instants_of_key_lt hm hlt with ⟨hd, hle⟩ | ⟨hd, hle⟩
    · simp only [hd, decide_eq_false_iff_not] at ha
      omega
    · simp only [hd, decide_eq_false_iff_not] at ha
      omega
  · rw [month_of_text ht] at hb ⊢
    have hmi : (q.orderExpressions b).missing = false := by
      by_contra hne
      rw [if_pos (by simpa using hne)] at hb
      cases hb
    rw [if_neg (by simp [(texts_of_key_lt hlt hmi).1])]
    rfl

end Clock

/-! ## Positions in the timeline -/

/-- An item of a month, and how many items the buckets count before it. -/
def PositionIn (buckets : List GalleryTimeBucket) (monthKey : Option String) (offset ordinal : Nat) : Prop :=
  ∃ before bucket after, buckets = before ++ bucket :: after ∧ bucket.monthKey = monthKey ∧ offset < bucket.itemCount ∧
    ordinal = (before.map (·.itemCount)).sum + offset

theorem PositionIn.cons (bucket : GalleryTimeBucket) {key : Option String}
    {offset : Nat} (h : PositionIn buckets key offset ordinal) :
    PositionIn (bucket :: buckets) key offset (bucket.itemCount + ordinal) := by
  obtain ⟨before, found, after, rfl, hm, ho, rfl⟩ := h
  refine ⟨bucket :: before, found, after, rfl, hm, ho, ?_⟩
  rw [map_cons, sum_cons]
  omega

theorem checkedAddCount_ok {a b sum : Nat} (h : checkedAddCount a b = .ok sum) : sum = a + b := by
  unfold checkedAddCount at h
  split at h
  · exact (ok.inj h).symm
  · cases h

/-- A window starts at the position it was asked for. -/
theorem windowStartIn_spec {rem : Nat}
    {window : ResolvedGalleryTimeIntent} (h : windowStartIn timeline ordinal rem buckets = .ok window) :
    window.anchor.revision = timeline.revision ∧ window.anchor.queryId = timeline.queryId ∧ window.ordinal = ordinal ∧
      PositionIn buckets window.anchor.monthKey window.anchor.itemOffset rem := by
  induction buckets generalizing rem with
  | nil => cases h
  | cons bucket buckets ih =>
    unfold windowStartIn at h
    split at h
    · next hlt =>
      cases h
      exact ⟨rfl, rfl, rfl, [], bucket, buckets, rfl, rfl, hlt, by simp⟩
    · next hge =>
      obtain ⟨hr, hqi, ho, hp⟩ := ih h
      refine ⟨hr, hqi, ho, ?_⟩
      have hc := hp.cons bucket
      rwa [Nat.add_sub_cancel' (Nat.le_of_not_lt hge)] at hc

/-- What an intent resolves to is an item of the timeline, the first one if the month is unknown and one was asked for. -/
theorem resolveIn_spec {intent : GalleryTimeIntent} {preceding : Nat} {last : Option ResolvedGalleryTimeIntent}
    {resolved : ResolvedGalleryTimeIntent} (h : intent.resolveIn timeline dir preceding last buckets = .ok (some resolved)) :
    last = some resolved ∨ (∃ ordinal, resolved.ordinal = preceding + ordinal ∧
        PositionIn buckets resolved.anchor.monthKey resolved.anchor.itemOffset ordinal) ∧
      (resolved.anchor.monthKey = none → intent.monthKey ≠ none → resolved.anchor.itemOffset = 0) := by
  induction buckets generalizing preceding last with
  | nil => exact .inl (ok.inj h)
  | cons bucket buckets ih =>
    unfold GalleryTimeIntent.resolveIn at h
    split at h
    · next he =>
      rcases ih h with hl | ⟨⟨ordinal, ho, hp⟩, hf⟩
      · exact .inl hl
      · refine .inr ⟨⟨ordinal, ho, ?_⟩, hf⟩
        have hc := hp.cons bucket
        rwa [he, Nat.zero_add] at hc
    · next hs =>
      obtain ⟨ordinal, ho, h⟩ := Result.bind_ok h
      obtain rfl := checkedAddCount_ok ho
      dsimp only at h
      have hof : ∀ sameMonth follows : Bool,
          (if sameMonth then min intent.itemOffset (bucket.itemCount - 1) else if follows then 0 else bucket.itemCount - 1) <
            bucket.itemCount := by
        intro sameMonth follows
        split
        · omega
        · split <;> omega
      split at h
      · next hfou =>
        obtain rfl := Option.some.inj (ok.inj h)
        refine .inr ⟨⟨_, rfl, [], bucket, buckets, rfl, rfl, hof _ _, by simp⟩, ?_⟩
        intro hm ha
        dsimp only at hm ⊢
        obtain ⟨reqd, hr⟩ := Option.ne_none_iff_exists'.mp ha
        rw [hm, hr]
        rfl
      · next hot =>
        obtain ⟨foll, hfo, h⟩ := Result.bind_ok h
        obtain rfl := checkedAddCount_ok hfo
        rcases ih h with hl | ⟨⟨ordinal, ho, hp⟩, hf⟩
        · obtain rfl := Option.some.inj hl
          refine .inr ⟨⟨_, rfl, [], bucket, buckets, rfl, rfl, hof _ _, by simp⟩, ?_⟩
          -- a bucket without a month follows every month
          intro hm ha
          obtain ⟨reqd, hr⟩ := Option.ne_none_iff_exists'.mp ha
          dsimp only at hm
          rw [hm, hr] at hot
          exact absurd rfl hot
        · exact .inr ⟨⟨bucket.itemCount + ordinal, by omega, hp.cons bucket⟩, hf⟩

/-! ## The timeline and the listing -/

section Counts

variable {strftime fmt : Int → Option String} {catalog : GalleryCatalog} {query q : GalleryQuery} {monthKey key : Option String}
  {offset : Nat}

section

variable (strftime : Int → Option String) (catalog : GalleryCatalog) (query : GalleryQuery) (monthKey : Option String)

/-- The items of a month, in order. -/
def itemsOfMonth : List GalleryRow :=
  (catalog.listing query).filter fun row => query.month strftime row = monthKey

/-- The number of items in the months before a month. -/
def countBefore :
    Nat :=
  (catalog.listing query).countP fun row =>
    monthOrder query.orderDirection (query.month strftime row) < monthOrder query.orderDirection monthKey

end

/-- The months of the timeline are in order. -/
theorem months_ascending (months : List (Option String)) (dir : GallerySortDirection) :
    (months.dedup.insertionSort fun a b => (compareMonths dir a b).isLE = true).Pairwise fun a b =>
      monthOrder dir a < monthOrder dir b := by
  have hle : ∀ a b, (compareMonths dir a b).isLE = true ↔ monthOrder dir a ≤ monthOrder dir b :=
    fun a b => compareMonths_le_iff
  have : Std.Total fun a b : Option String => (compareMonths dir a b).isLE = true :=
    ⟨fun a b => by rw [hle, hle]; exact le_total _ _⟩
  have : IsTrans (Option String) fun a b => (compareMonths dir a b).isLE = true :=
    ⟨fun a b c hab hbc => (hle a c).mpr (le_trans ((hle a b).mp hab) ((hle b c).mp hbc))⟩
  have hs := pairwise_insertionSort (fun a b => (compareMonths dir a b).isLE = true) months.dedup
  have hn : (months.dedup.insertionSort fun a b => (compareMonths dir a b).isLE = true).Nodup :=
    (perm_insertionSort _ _).nodup_iff.mpr (nodup_dedup months)
  refine (hs.and hn).imp ?_
  rintro a b ⟨hab, hne⟩
  exact lt_of_le_of_ne ((hle a b).mp hab) fun heq => hne (monthOrder_inj.mp heq)

/-- A position in the timeline, in the listing: so many items in earlier months, and so many in the month. -/
theorem positionIn_timeline (h : PositionIn (selectTimeBuckets fmt catalog q) key offset ordinal) :
    ordinal = countBefore fmt catalog q key + offset ∧ offset < (itemsOfMonth fmt catalog q key).length := by
  obtain ⟨before, bucket, after, hb, rfl, ho, rfl⟩ := h
  obtain ⟨months, rest, hm, rfl, hr⟩ := map_eq_append_iff.mp hb
  obtain ⟨month, others, rfl, rfl, rfl⟩ := map_eq_cons_iff.mp hr
  have ha := months_ascending ((catalog.rows.filter q.filter).map (q.month fmt)) q.orderDirection
  have hco : ∀ row ∈ catalog.listing q, q.month fmt row ∈ months ++ month :: others := by
    intro row hro
    rw [← hm, (perm_insertionSort _ _).mem_iff, mem_dedup]
    exact mem_map_of_mem ((listing_perm catalog q).mem_iff.mp hro)
  rw [hm] at ha
  have hc : ∀ month, (catalog.rows.filter q.filter).countP (fun row => q.month fmt row = month) =
      (catalog.listing q).countP fun row => q.month fmt row = month :=
    fun month => ((listing_perm catalog q).countP_eq _).symm
  have hs := Grouped.sum_before ha hco
  rw [hc, countP_eq_length_filter] at ho
  refine ⟨?_, ho⟩
  rw [map_map, countBefore, ← hs]
  simp only [Function.comp_def, hc]

end Counts

/-! ## Reading at an anchor -/

section Anchor

variable {strftime fmt : Int → Option String} {catalog : GalleryCatalog} {query q : GalleryQuery} {qid : String} {cap : Nat}
  {anchor : GalleryTimeAnchor} {snap : CatalogSnapshot}

theorem monthExpression_of_chronological (h : q.Chronological) : q.monthExpression fmt = some (q.month fmt) := by
  unfold month monthExpression
  rcases h.cases with hk | hk | hk
  · rw [hk]
    rfl
  · rw [hk]
    rfl
  · rw [hk]
    rfl

theorem validateMonthKeyText_ok {key : String} {month : Nat} (h : validateMonthKeyText key = .ok month) :
    monthOfKey key = some month := by
  unfold validateMonthKeyText at h
  split at h
  · next hv => rw [hv, ok.inj h]
  · cases h

section

variable (hch : query.Chronological)

include hch

/-- The filter of an anchor leaves the months from its month on. -/
theorem timeAnchorFilter_ok {anchored : GalleryRow → Bool} (h : timeAnchorFilter strftime query anchor = .ok anchored) :
    (query.sortKey = .modifiedTime → anchor.monthKey ≠ none) ∧ ∀ row, anchored row = true ↔
      monthOrder query.orderDirection anchor.monthKey ≤ monthOrder query.orderDirection (query.month strftime row) := by
  unfold timeAnchorFilter at h
  rw [monthExpression_of_chronological hch] at h
  dsimp only at h
  cases hmk : anchor.monthKey with
  | none =>
    rw [hmk] at h
    dsimp only at h
    split at h
    · cases h
    · next hne =>
      cases h
      refine ⟨fun hmo => absurd hmo hne, ?_⟩
      intro row
      cases hm : query.month strftime row with
      | none => simp [hm]
      | some month => simp [hm, monthOrder_some_lt_none]
  | some key =>
    refine ⟨fun _ => Option.some_ne_none _, ?_⟩
    intro row
    rw [hmk] at h
    dsimp only at h
    cases hv : validateMonthKeyText key with
    | error error =>
      rw [hv] at h
      cases h
    | ok number =>
      rw [hv] at h
      cases h
      cases hm : query.month strftime row with
      | none => simp [hm, le_of_lt monthOrder_some_lt_none]
      | some month =>
        rw [monthOrder_some_le, le_iff_lt_or_eq, of_inj, ← cursorComparison_forward, @eq_comm _ key]
        simp only [hm, SqlComparison.holdsOrEqual, Bool.or_eq_true, decide_eq_true_eq]

/-- The rows an offset is counted in are those of its month. -/
theorem monthRowFilter_ok {key : Option String} {passes : GalleryRow → Bool}
    (h : monthRowFilter query (query.month strftime) key = .ok passes) :
    (query.sortKey = .modifiedTime → key ≠ none) ∧
      passes = fun row => query.filter row && decide (query.month strftime row = key) := by
  unfold monthRowFilter at h
  cases key with
  | none =>
    dsimp only at h
    split at h
    · cases h
    · next hne =>
      cases h
      refine ⟨fun hmod => absurd hmod hne, ?_⟩
      funext row
      have ht := hch.cases.resolve_left hne
      rw [month_of_text ht]
      cases (query.orderExpressions row).missing <;> simp
  | some key =>
    refine ⟨fun _ => Option.some_ne_none _, ?_⟩
    dsimp only at h
    cases hv : validateMonthKeyText key with
    | error error =>
      rw [hv] at h
      cases h
    | ok number =>
      rw [hv] at h
      cases h
      funext row
      by_cases hmo : query.month strftime row = some key
      · by_cases ht : query.sortKey = .captureTime ∨ query.sortKey = .createdTime
        · have hr := hmo
          rw [month_of_text ht] at hr
          cases hm : (query.orderExpressions row).missing with
          | true =>
            rw [hm] at hr
            cases hr
          | false =>
            rw [hm] at hr
            obtain ⟨hs, he⟩ := month_bounds (validateMonthKeyText_ok hv) (Option.some.inj hr)
            simp [hmo, ht, hm, hs, he]
        · simp [hmo, ht]
      · simp [hmo]

theorem resolveGalleryAnchorCursor_ok {cursor : CatalogCursor}
    (h : resolveGalleryAnchorCursor strftime catalog query qid anchor = .ok cursor) :
    (query.sortKey = .modifiedTime → anchor.monthKey ≠ none) ∧
      ∃ row, (itemsOfMonth strftime catalog query anchor.monthKey)[anchor.itemOffset - 1]? = some row ∧
        cursor = cursorOf catalog query qid row := by
  unfold resolveGalleryAnchorCursor at h
  rw [monthExpression_of_chronological hch] at h
  obtain ⟨passes, hpa, h⟩ := Result.bind_ok h
  obtain ⟨hmk, rfl⟩ := monthRowFilter_ok hch hpa
  obtain ⟨pos, hp, h⟩ := Result.bind_ok h
  have ho : pos = anchor.itemOffset - 1 := by
    unfold sqliteInteger at hp
    split at hp
    · exact (ok.inj hp).symm
    · cases hp
  subst ho
  rw [select_forward] at h
  split at h
  · cases h
  · next row hr =>
    have hm := mem_of_mem_filter (mem_of_getElem? hr)
    rw [galleryCursorForAsset_eq hm] at h
    exact ⟨hmk, row, hr, (ok.inj h).symm⟩

end

theorem snapshotOfRows_assets {continues : Bool} {rows : List GalleryRow}
    (h : snapshotOfRows catalog q qid cap false continues rows = .ok snap) : snap.assets = rows.take cap := by
  obtain ⟨prev, -, h⟩ := Result.bind_ok h
  obtain ⟨next, -, h⟩ := Result.bind_ok h
  cases h
  rfl

/-- What a page at an anchor holds: from its month on, or after the item before it. -/
theorem loadSnapshot_anchor_ok (hch : q.Chronological)
    (h : loadSnapshot fmt catalog q qid cap none none (some anchor) = .ok snap) :
    ValidLimit cap ∧ (q.sortKey = .modifiedTime → anchor.monthKey ≠ none) ∧
      (anchor.itemOffset = 0 ∧ snap.assets = ((catalog.listing q).filter fun row =>
          monthOrder q.orderDirection anchor.monthKey ≤ monthOrder q.orderDirection (q.month fmt row)).take cap ∨
        0 < anchor.itemOffset ∧ ∃ row, (itemsOfMonth fmt catalog q anchor.monthKey)[anchor.itemOffset - 1]? = some row ∧
          snap.assets = ((catalog.listing q).filter (cursorFilter q (cursorOf catalog q qid row) false)).take cap) := by
  refine ⟨validLimit_of_load h, ?_⟩
  obtain ⟨_, -, h⟩ := Result.bind_ok h
  dsimp only at h
  by_cases ho : 0 < anchor.itemOffset
  · rw [if_pos ho] at h
    obtain ⟨found, hf, h⟩ := Result.bind_ok h
    cases hc : resolveGalleryAnchorCursor fmt catalog q qid anchor with
    | error error =>
      rw [hc] at hf
      cases hf
    | ok cursor =>
      rw [hc] at hf
      cases hf
      obtain ⟨hmk, row, hro, rfl⟩ := resolveGalleryAnchorCursor_ok hch hc
      obtain ⟨rows, hr, h⟩ := Result.bind_ok h
      refine ⟨hmk, .inr ⟨ho, row, hro, ?_⟩⟩
      obtain rfl := Except.ok.inj ((selectGalleryAssets_forward fmt _ _).symm.trans hr)
      rw [snapshotOfRows_assets h, take_take, Nat.min_eq_left (Nat.le_succ _)]
      rfl
  · rw [if_neg ho] at h
    obtain ⟨found, hf, h⟩ := Result.bind_ok h
    cases hf
    obtain ⟨rows, hr, h⟩ := Result.bind_ok h
    obtain ⟨anchored, ha, hr⟩ := Result.bind_ok hr
    obtain ⟨hmk, hfi⟩ := timeAnchorFilter_ok hch ha
    refine ⟨hmk, .inl ⟨by omega, ?_⟩⟩
    simp only [Option.isSome_none, Option.all_none, Option.or_none, Bool.and_true, galleryWindowDirection_false] at hr
    cases hr
    rw [snapshotOfRows_assets h, take_take, Nat.min_eq_left (Nat.le_succ _)]
    refine (congrArg (List.take cap) (select_forward anchored)).trans (congrArg _ (filter_congr ?_))
    intro row _
    rw [Bool.eq_iff_iff, hfi, decide_eq_true_iff]

end Anchor

end Ame
