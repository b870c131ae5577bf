import Ame.Lemmas.Timeline

/-!
# Jumping to a month lands there, if the order starts with known months

The ordinal of a jump is counted in the timeline, the page is cut from the listing. They agree where the listing has its months in
the order of the timeline. Sorted by modification time it does not when the listing starts with items whose time is outside the
years 0000 to 9999: these have no month, the timeline counts them last, and the page for a month starts with them.
-/

namespace Ame

open List

section Pieces

variable {fmt : Int → Option String} {catalog : GalleryCatalog} {query q : GalleryQuery}
  {intent : GalleryTimeIntent} {timeline : GalleryTimeline} {resolved : ResolvedGalleryTimeIntent} {qid : String}

/-! ## The pieces of the listing -/

/-- The items in front, without a month. -/
def frontItems (catalog : GalleryCatalog) (query : GalleryQuery) : List GalleryRow :=
  (catalog.listing query).filter (unknownFirst query)

/-- The items with a month. -/
def datedItems (strftime : Int → Option String) (catalog : GalleryCatalog) (query : GalleryQuery) : List GalleryRow :=
  (catalog.listing query).filter fun row => (query.month strftime row).isSome

section

variable (catalog : GalleryCatalog) (hclock : UtcMonths fmt) (hch : query.Chronological)

include hclock hch

/-- The listing is the items in front, then those with a month, then the rest. -/
theorem listing_pieces : ∃ rest, catalog.listing query = frontItems catalog query ++ (datedItems fmt catalog query ++ rest) ∧
      ∀ row ∈ rest, query.month fmt row = none := by
  have hordered := listing_ascending catalog query
  have hfr : (catalog.listing query).Pairwise fun a b =>
      (!unknownFirst query a) = true → (!unknownFirst query b) = true := by
    refine hordered.imp ?_
    intro a b hlt ha
    by_contra hb
    rw [unknownFirst_of_key_lt hlt (by simpa using hb)] at ha
    cases ha
  have hr : ((catalog.listing query).filter fun row => !unknownFirst query row).Pairwise fun a b =>
      (query.month fmt a).isNone = true → (query.month fmt b).isNone = true := by
    refine (hordered.filter fun row => !unknownFirst query row).imp_of_mem ?_
    intro a b ha _ hlt hn
    have hno : unknownFirst query a = false := by simpa using of_mem_filter ha
    by_contra hb
    have hso := month_isSome_of_key_lt hclock hch hlt hno (Option.isSome_iff_ne_none.mpr (by simpa using hb))
    rw [Option.isNone_iff_eq_none] at hn
    rw [hn] at hso
    cases hso
  have hd : ((catalog.listing query).filter fun row => !unknownFirst query row).filter
      (fun row => !(query.month fmt row).isNone) = datedItems fmt catalog query := by
    rw [filter_filter]
    apply filter_congr
    intro row _
    cases hm : query.month fmt row with
    | none => rfl
    | some month =>
      have hno : unknownFirst query row = false := by
        by_contra hf
        rw [month_of_unknownFirst hclock (by simpa using hf)] at hm
        cases hm
      rw [hno]
      rfl
  refine ⟨((catalog.listing query).filter fun row => !unknownFirst query row).filter fun row =>
    (query.month fmt row).isNone, ?_, ?_⟩
  · rw [← hd, Grouped.append_of_lasting hr]
    have hs := Grouped.append_of_lasting hfr
    simp only [Bool.not_not] at hs
    exact hs.symm
  · intro row hro
    exact Option.isNone_iff_eq_none.mp (by simpa using of_mem_filter hro)

/-- The months of the items that have one are in order. -/
theorem datedItems_ordered : (datedItems fmt catalog query).Pairwise fun a b =>
      monthOrder query.orderDirection (query.month fmt a) ≤ monthOrder query.orderDirection (query.month fmt b) := by
  refine ((listing_ascending catalog query).filter _).imp_of_mem ?_
  intro a b ha hb hlt
  obtain ⟨month, hm⟩ := Option.isSome_iff_exists.mp (mem_filter.mp ha).2
  obtain ⟨month', hm'⟩ := Option.isSome_iff_exists.mp (mem_filter.mp hb).2
  rw [hm, hm', monthOrder_some_le]
  exact months_of_key_lt hclock hch hlt hm hm'

end

/-- Without items in front the listing has its months in the order of the timeline. -/
theorem listing_ordered (hclock : UtcMonths fmt) (hch : q.Chronological)
    (hf : ∀ row ∈ catalog.listing q, unknownFirst q row = false) :
    (catalog.listing q).Pairwise fun a b =>
      monthOrder q.orderDirection (q.month fmt a) ≤ monthOrder q.orderDirection (q.month fmt b) := by
  refine (listing_ascending catalog q).imp_of_mem ?_
  intro a b ha _ hlt
  cases hb : q.month fmt b with
  | none =>
    cases q.month fmt a with
    | none => exact le_refl _
    | some month => exact le_of_lt monthOrder_some_lt_none
  | some month' =>
    obtain ⟨month, hm⟩ := Option.isSome_iff_exists.mp (month_isSome_of_key_lt hclock hch hlt (hf a ha) (by rw [hb]; rfl))
    rw [hm, monthOrder_some_le]
    exact months_of_key_lt hclock hch hlt hm hb

theorem listing_index_inj {i j : Nat} {row : GalleryRow} (hi : (catalog.listing q)[i]? = some row)
    (hj : (catalog.listing q)[j]? = some row) : i = j := by
  have hn : (catalog.listing q).Nodup := (listing_ascending catalog q).imp fun hlt heq => by
    rw [heq] at hlt
    exact lt_irrefl _ hlt
  exact (getElem?_inj (List.getElem?_eq_some_iff.mp hi).1 hn).mp (hi.trans hj.symm)

/-! ## Where a jump lands -/

/-- The first item of the page has as many items before it as the result says, and the page has the item of the resolved month and
offset at its place. -/
def LandsRight (strftime : Int → Option String) (catalog : GalleryCatalog) (query : GalleryQuery)
    (result : GalleryTimeSnapshot) (resolved : ResolvedGalleryTimeIntent) : Prop :=
  (∃ first, result.snapshot.assets.head? = some first ∧ (catalog.listing query)[result.windowStartOrdinal]? = some first) ∧
  ∃ row, (itemsOfMonth strftime catalog query resolved.anchor.monthKey)[resolved.anchor.itemOffset]? = some row ∧
    result.snapshot.assets[resolved.ordinal - result.windowStartOrdinal]? = some row

/-- What a jump computes: an item of the timeline, the start of the window around it and the page from there. -/
structure Jumped (strftime : Int → Option String) (catalog : GalleryCatalog) (query : GalleryQuery) (queryId : String)
    (maxItems : Nat) (intent : GalleryTimeIntent) (resolved : ResolvedGalleryTimeIntent) (result : GalleryTimeSnapshot)
    (anchor : GalleryTimeAnchor) : Prop where
  chronological : query.Chronological
  asked : query.sortKey = .modifiedTime → intent.monthKey ≠ none
  position : PositionIn (selectTimeBuckets strftime catalog query) resolved.anchor.monthKey resolved.anchor.itemOffset
    resolved.ordinal
  first : resolved.anchor.monthKey = none → intent.monthKey ≠ none → resolved.anchor.itemOffset = 0
  start : result.windowStartOrdinal = resolved.ordinal - maxItems / 2
  window : PositionIn (selectTimeBuckets strftime catalog query) anchor.monthKey anchor.itemOffset result.windowStartOrdinal
  page : loadSnapshot strftime catalog query queryId maxItems none none (some anchor) = .ok result.snapshot

/-- A resolved jump is at the position it names. -/
theorem resolve_ok {dir : GallerySortDirection} (h : intent.resolve timeline dir = .ok (some resolved)) :
    PositionIn timeline.buckets resolved.anchor.monthKey resolved.anchor.itemOffset resolved.ordinal ∧
      (resolved.anchor.monthKey = none → intent.monthKey ≠ none → resolved.anchor.itemOffset = 0) := by
  have hr : intent.resolveIn timeline dir 0 none timeline.buckets = .ok (some resolved) := by
    unfold GalleryTimeIntent.resolve at h
    split at h
    · exact (Result.bind_unit_ok.mp h).2
    · exact h
  rcases resolveIn_spec hr with hl | ⟨⟨ordinal, ho, hp⟩, hf⟩
  · cases hl
  · rw [ho, Nat.zero_add]
    exact ⟨hp, hf⟩

theorem loadGalleryTimeline_buckets (h : loadGalleryTimeline fmt catalog q qid = .ok timeline) :
    timeline.buckets = selectTimeBuckets fmt catalog q := by
  obtain ⟨⟨buckets, total⟩, hb, h⟩ := Result.bind_ok h
  obtain ⟨total, -, hb⟩ := Result.bind_ok hb
  cases hb
  cases h
  rfl

theorem loadTimeSnapshot_ok {cap : Nat} {res : GalleryTimeSnapshot} (hl : loadTimeSnapshot fmt catalog q qid cap intent = .ok res)
    (hr : intent.resolve res.timeline q.sortDirection = .ok (some resolved)) :
    ∃ anchor, Jumped fmt catalog q qid cap intent resolved res anchor := by
  unfold loadTimeSnapshot at hl
  obtain ⟨hch, hl⟩ := Result.ite_throw_bind_ok.mp hl
  obtain ⟨has, hl⟩ := Result.ite_throw_bind_ok.mp hl
  obtain ⟨timeline, ht, hl⟩ := Result.bind_ok hl
  obtain ⟨found, hf, hl⟩ := Result.bind_ok hl
  have hb := loadGalleryTimeline_buckets ht
  have hsa : res.timeline = timeline := by
    cases found with
    | none =>
      obtain ⟨window, -, hl⟩ := Result.bind_ok hl
      obtain ⟨snap, -, hl⟩ := Result.bind_ok hl
      cases hl
      rfl
    | some value =>
      obtain ⟨window, -, hl⟩ := Result.bind_ok hl
      obtain ⟨snap, -, hl⟩ := Result.bind_ok hl
      cases hl
      rfl
  rw [hsa, hf] at hr
  cases hr
  obtain ⟨hp, hfi⟩ := resolve_ok hf
  obtain ⟨found, hw, hl⟩ := Result.bind_ok hl
  cases hs : resolved.windowStart timeline cap with
  | error error =>
    rw [hs] at hw
    cases hw
  | ok window =>
    rw [hs] at hw
    cases hw
    obtain ⟨snap, hsn, hl⟩ := Result.bind_ok hl
    cases hl
    obtain ⟨-, -, ho, hat⟩ := windowStartIn_spec hs
    rw [hb] at hp hat
    have hso : window.ordinal = resolved.ordinal - cap / 2 := ho
    refine ⟨window.anchor, ⟨?_, ?_⟩, ?_, hp, hfi, hso, ?_, hsn⟩
    · exact fun hn => hch (.inl hn)
    · exact fun ha => hch (.inr ha)
    · exact fun hm hno => has ⟨hm, hno⟩
    · show PositionIn _ _ _ window.ordinal
      rw [hso]
      exact hat

/-! ## Without items in front -/

section Aligned

variable {cap : Nat} {res : GalleryTimeSnapshot} {anchor : GalleryTimeAnchor}

/-- Where the months are in order, the items of a month are where the timeline says. -/
theorem itemsOfMonth_getElem? (hordered : (catalog.listing q).Pairwise fun a b =>
      monthOrder q.orderDirection (q.month fmt a) ≤ monthOrder q.orderDirection (q.month fmt b))
    {monthKey : Option String} {offset : Nat} (ho : offset < (itemsOfMonth fmt catalog q monthKey).length) :
    (itemsOfMonth fmt catalog q monthKey)[offset]? = (catalog.listing q)[countBefore fmt catalog q monthKey + offset]? := by
  have hp := Grouped.filter_group (k := monthOrder q.orderDirection monthKey) hordered
  simp only [monthOrder_inj] at hp
  rw [itemsOfMonth, countP_eq_length_filter.symm] at ho
  rw [itemsOfMonth, hp, getElem?_take_of_lt ho, getElem?_drop, countBefore]

section

variable (h : Jumped fmt catalog query qid cap intent resolved res anchor)
  (hordered : (catalog.listing query).Pairwise fun a b => monthOrder query.orderDirection (query.month fmt a) ≤
    monthOrder query.orderDirection (query.month fmt b))

include h hordered

/-- The page of a jump is the listing from the start of the window on. -/
theorem Jumped.assets_of_ordered : res.snapshot.assets = ((catalog.listing query).drop res.windowStartOrdinal).take cap := by
  obtain ⟨hs, ho⟩ := positionIn_timeline h.window
  obtain ⟨-, -, ⟨hz, ha⟩ | ⟨hp, row, hr, ha⟩⟩ := loadSnapshot_anchor_ok h.chronological h.page
  · rw [ha, hs, hz]
    exact congrArg _ (Grouped.filter_from hordered)
  · rw [itemsOfMonth_getElem? hordered (by omega)] at hr
    rw [ha, filter_cursor_forward hr]
    congr 2
    omega

theorem Jumped.landsRight_of_ordered : LandsRight fmt catalog query res resolved := by
  have ha := h.assets_of_ordered hordered
  have hl := validLimit_of_load h.page
  have hp := hl.1
  obtain ⟨hor, ho⟩ := positionIn_timeline h.position
  have hi := itemsOfMonth_getElem? hordered ho
  obtain ⟨row, hr⟩ : ∃ row, (itemsOfMonth fmt catalog query resolved.anchor.monthKey)[resolved.anchor.itemOffset]? =
      some row := ⟨_, getElem?_eq_getElem ho⟩
  have hlt := (List.getElem?_eq_some_iff.mp (hi.symm.trans hr)).1
  have hs := h.start
  refine ⟨⟨(catalog.listing query)[res.windowStartOrdinal], ?_, getElem?_eq_getElem (by omega)⟩, row, hr, ?_⟩
  · rw [ha, head?_take, if_neg (by omega), head?_drop, getElem?_eq_getElem]
  · rw [ha, getElem?_take_of_lt (by omega), getElem?_drop, ← hr, hi]
    congr 1
    omega

end

/-! ## With items in front -/

theorem itemsOfMonth_some (month : String) : itemsOfMonth fmt catalog q (some month) =
      (datedItems fmt catalog q).filter fun row => q.month fmt row = some month := by
  rw [datedItems, filter_filter]
  apply filter_congr
  intro row _
  cases q.month fmt row <;> simp

theorem countBefore_some (month : String) : countBefore fmt catalog q (some month) = (datedItems fmt catalog q).countP fun row =>
      monthOrder q.orderDirection (q.month fmt row) < monthOrder q.orderDirection (some month) := by
  rw [datedItems, countP_filter]
  apply countP_congr
  intro row _
  cases q.month fmt row with
  | none =>
    have hl : monthOrder q.orderDirection (some month) < monthOrder q.orderDirection none := monthOrder_some_lt_none
    simp [not_lt.mpr (le_of_lt hl)]
  | some rowMonth => simp

/-- With items in front, the items of a month are later by as many. -/
theorem itemsOfMonth_some_getElem? (hclock : UtcMonths fmt) (hch : q.Chronological) {month : String}
    {offset : Nat} {row : GalleryRow} (h : (itemsOfMonth fmt catalog q (some month))[offset]? = some row) :
    (catalog.listing q)[(frontItems catalog q).length + (countBefore fmt catalog q (some month) + offset)]? = some row := by
  have hlt := (List.getElem?_eq_some_iff.mp h).1
  have hp := Grouped.filter_group (k := monthOrder q.orderDirection (some month)) (datedItems_ordered catalog hclock hch)
  simp only [monthOrder_inj] at hp
  rw [itemsOfMonth_some] at h hlt
  rw [← countP_eq_length_filter] at hlt
  rw [hp, getElem?_take_of_lt hlt, getElem?_drop, ← countBefore_some] at h
  obtain ⟨rest, hpi, -⟩ := listing_pieces catalog hclock hch
  have hd := (List.getElem?_eq_some_iff.mp h).1
  rw [hpi, getElem?_append_right (Nat.le_add_right _ _), Nat.add_sub_cancel_left, getElem?_append_left hd]
  exact h

/-- The listing starts with an item in front, if there is one. -/
theorem listing_head_of_front (hclock : UtcMonths fmt) (hch : q.Chronological) (hf : frontItems catalog q ≠ []) :
    ∃ head rest, catalog.listing q = head :: rest ∧ q.month fmt head = none := by
  obtain ⟨rest, hp, -⟩ := listing_pieces catalog hclock hch
  obtain ⟨head, others, hc⟩ := exists_cons_of_ne_nil hf
  refine ⟨head, others ++ (datedItems fmt catalog q ++ rest), ?_, ?_⟩
  · rw [hp, hc, cons_append]
  · have hm : head ∈ frontItems catalog q := by
      rw [hc]
      exact mem_cons_self
    exact month_of_unknownFirst hclock (mem_filter.mp hm).2

theorem modifiedTime_of_front (hfr : frontItems catalog q ≠ []) : q.sortKey = .modifiedTime := by
  obtain ⟨head, others, hc⟩ := exists_cons_of_ne_nil hfr
  have hm : head ∈ frontItems catalog q := by
    rw [hc]
    exact mem_cons_self
  have hf := (mem_filter.mp hm).2
  rw [unknownFirst, Bool.and_eq_true, decide_eq_true_iff] at hf
  exact hf.1

/-- With items in front, the page of a jump starts too early or too late, or the item is not in its place. -/
theorem Jumped.not_landsRight_of_front (h : Jumped fmt catalog q qid cap intent resolved res anchor) (hclock : UtcMonths fmt)
    (hf : frontItems catalog q ≠ []) : ¬LandsRight fmt catalog q res resolved := by
  rintro ⟨⟨first, hh, hfi⟩, row, hi, hp⟩
  have hmo := modifiedTime_of_front hf
  have hle : 0 < (frontItems catalog q).length := length_pos_of_ne_nil hf
  obtain ⟨head, others, hc, hm⟩ := listing_head_of_front hclock h.chronological hf
  obtain ⟨hl, hmk, ha⟩ := loadSnapshot_anchor_ok h.chronological h.page
  obtain ⟨month, hmon⟩ := Option.ne_none_iff_exists'.mp (hmk hmo)
  obtain ⟨hst, hof⟩ := positionIn_timeline h.window
  obtain ⟨ho, -⟩ := positionIn_timeline h.position
  rw [hmon] at ha hst hof
  rcases ha with ⟨hze, ha⟩ | ⟨hpo, prev, hpr, ha⟩
  · -- the page starts with the first item of all
    have hpa : monthOrder q.orderDirection (some month) ≤ monthOrder q.orderDirection (q.month fmt head) := by
      rw [hm]
      exact le_of_lt monthOrder_some_lt_none
    have hlh : (catalog.listing q)[0]? = some head := by rw [hc]; rfl
    have hs : res.windowStartOrdinal = 0 := by
      rw [ha, hc, filter_cons_of_pos (by simpa using hpa), head?_take, if_neg (by have := hl.1; omega)] at hh
      exact listing_index_inj (hfi.trans (hh.symm.trans rfl)) hlh
    have hn : countBefore fmt catalog q (some month) = 0 := by omega
    have hal : (catalog.listing q).filter (fun o => monthOrder q.orderDirection (some month) ≤
        monthOrder q.orderDirection (q.month fmt o)) = catalog.listing q := by
      rw [filter_eq_self]
      intro o hot
      have := countP_eq_zero.mp hn o hot
      simpa using this
    rw [ha, hal, hs, Nat.sub_zero] at hp
    have hat : (catalog.listing q)[resolved.ordinal]? = some row := by
      rw [← hp, getElem?_take_of_lt]
      have hlt := (List.getElem?_eq_some_iff.mp hp).1
      rw [length_take] at hlt
      omega
    cases hr : resolved.anchor.monthKey with
    | some month' =>
      rw [hr] at hi ho
      have := listing_index_inj hat (itemsOfMonth_some_getElem? hclock h.chronological hi)
      omega
    | none =>
      -- the first item without a month is the first item of all, but the timeline counts the items of all months before it
      rw [hr] at hi ho
      rw [h.first hr (h.asked hmo)] at hi ho
      have hro : row = head := by
        rw [itemsOfMonth, hc, filter_cons_of_pos (by simpa using hm)] at hi
        exact (Option.some.inj hi).symm
      rw [hro] at hat
      have hz := listing_index_inj hat hlh
      have hd : 0 < countBefore fmt catalog q none := by
        obtain ⟨o, hot⟩ := exists_mem_of_length_pos (Nat.lt_of_le_of_lt (Nat.zero_le _) hof)
        obtain ⟨hme, hmoo⟩ := mem_filter.mp hot
        refine countP_pos_iff.mpr ⟨o, hme, ?_⟩
        rw [of_decide_eq_true hmoo]
        exact decide_eq_true monthOrder_some_lt_none
      omega
  · -- it starts after an item that stands later than the timeline counts
    have hla := itemsOfMonth_some_getElem? hclock h.chronological hpr
    rw [ha, filter_cursor_forward hla, head?_take, if_neg (by have := hl.1; omega), head?_drop] at hh
    have := listing_index_inj hh hfi
    omega

/-! ## The result -/

/-- **A jump to a month lands on the right place exactly when no matching item stands in front of the known months.** -/
theorem time_jump_lands_iff (strftime : Int → Option String) (catalog : GalleryCatalog) (query : GalleryQuery) (queryId : String)
    (maxItems : Nat) (intent : GalleryTimeIntent) (result : GalleryTimeSnapshot) (resolved : ResolvedGalleryTimeIntent)
    (hclock : UtcMonths strftime) (hload : loadTimeSnapshot strftime catalog query queryId maxItems intent = .ok result)
    (hresolved : intent.resolve result.timeline query.sortDirection = .ok (some resolved)) :
    LandsRight strftime catalog query result resolved ↔
      ∀ row ∈ catalog.rows, query.filter row = true → unknownFirst query row = false := by
  obtain ⟨anchor, hj⟩ := loadTimeSnapshot_ok hload hresolved
  constructor
  · intro hl row hm hp
    by_contra hf
    refine hj.not_landsRight_of_front hclock ?_ hl
    refine ne_nil_of_mem (a := row) (mem_filter.mpr ⟨mem_listing.mpr ⟨hm, hp⟩, ?_⟩)
    simpa using hf
  · intro hn
    refine hj.landsRight_of_ordered (listing_ordered hclock hj.chronological ?_)
    intro row hr
    obtain ⟨hm, hp⟩ := mem_listing.mp hr
    exact hn row hm hp

/-! ## An item of the year 10000 -/

/-- A clock that has no months but January 1970; the items below are of that month, or of no known year. -/
def januaryClock (seconds : Int) : Option String :=
  if yearZero ≤ seconds ∧ seconds < yearTenThousand then some "1970-01" else none

theorem januaryClock_months : UtcMonths januaryClock where
  known := by
    intro seconds
    unfold januaryClock
    split
    · next hk => simp [hk]
    · next hu => simp [hu]
  monotone := by
    intro first second month month' _ hf hs
    unfold januaryClock at hf hs
    split at hf
    · split at hs
      · cases hf
        cases hs
        exact le_refl _
      · cases hs
    · cases hf

def januaryRow : GalleryRow := ⟨"1", "root", "1", none, none, 0, "january", 0⟩

/-- A file whose modification time is the start of the year 10000. -/
def farRow : GalleryRow := ⟨"2", "root", "2", none, none, 253402300800000, "far", 0⟩

def farCatalog : GalleryCatalog := ⟨1, [januaryRow, farRow], by decide⟩

def latestFirst : GalleryQuery where
  sortKey := .modifiedTime
  sortDirection := .descending
  organizationQueue := false
  filter := fun _ => true
  sourceFilter := fun _ => true
  anchorFilter := fun _ => true
  representative := fun _ _ => none

def toJanuary : GalleryTimeIntent := ⟨some "1970-01", 0⟩

def farCursor : CatalogCursor := ⟨1, "query", false, "", 253402300800000, "root", "2"⟩

def farResult : GalleryTimeSnapshot where
  snapshot := ⟨1, "query", [farRow], some farCursor, some farCursor, none⟩
  timeline := ⟨1, "query", 2, [⟨some "1970-01", 1⟩, ⟨none, 1⟩]⟩
  anchor := some ⟨1, "query", some "1970-01", 0⟩
  windowStartOrdinal := 0

def farResolved : ResolvedGalleryTimeIntent := ⟨⟨1, "query", some "1970-01", 0⟩, 0⟩

theorem farResult_load : loadTimeSnapshot januaryClock farCatalog latestFirst "query" 1 toJanuary = .ok farResult := by
  decide +kernel

theorem farResult_resolve : toJanuary.resolve farResult.timeline latestFirst.sortDirection = .ok (some farResolved) := by
  decide +kernel

/-- The page for January 1970 has the item of the year 10000 only. -/
theorem jump_to_january_misses :
    UtcMonths januaryClock ∧ loadTimeSnapshot januaryClock farCatalog latestFirst "query" 1 toJanuary = .ok farResult ∧
      toJanuary.resolve farResult.timeline latestFirst.sortDirection = .ok (some farResolved) ∧
      ¬LandsRight januaryClock farCatalog latestFirst farResult farResolved := by
  refine ⟨januaryClock_months, farResult_load, farResult_resolve, ?_⟩
  rintro ⟨-, row, hi, hp⟩
  have hj : (itemsOfMonth januaryClock farCatalog latestFirst (some "1970-01"))[0]? = some januaryRow := by decide +kernel
  have hf : row = farRow := (Option.some.inj hp).symm
  rw [hf] at hi
  exact absurd (Option.some.inj (hj.symm.trans hi)) (by decide)

/-- Without that item the jump lands. -/
theorem time_jump_lands_iff_january : ∃ result resolved,
    loadTimeSnapshot januaryClock ⟨1, [januaryRow], by decide⟩ latestFirst "query" 1 toJanuary = .ok result ∧
      toJanuary.resolve result.timeline latestFirst.sortDirection = .ok (some resolved) ∧
      LandsRight januaryClock ⟨1, [januaryRow], by decide⟩ latestFirst result resolved := by
  have hl : loadTimeSnapshot januaryClock ⟨1, [januaryRow], by decide⟩ latestFirst "query" 1 toJanuary =
      .ok ⟨⟨1, "query", [januaryRow], some ⟨1, "query", false, "", 0, "root", "1"⟩, none, none⟩,
        ⟨1, "query", 1, [⟨some "1970-01", 1⟩]⟩, some ⟨1, "query", some "1970-01", 0⟩, 0⟩ := by decide +kernel
  refine ⟨_, farResolved, hl, by decide +kernel, (time_jump_lands_iff _ _ _ _ _ _ _ _ januaryClock_months hl
    (by decide +kernel)).mpr ?_⟩
  intro row hr _
  rw [List.mem_singleton.mp hr]
  decide +kernel

end Aligned

end Pieces

end Ame
