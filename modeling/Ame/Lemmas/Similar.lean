import Ame.Lib.Result
import Ame.Similar.Matching

/-!
# The scan of the band index

What a window of the matching does: which rows it meets, what it stores about them, and where it leaves the cursor. The scan goes
through all the variants of a content, word by word, and through the index of each word page by page. A row is met in every word
in which it is a neighbour, and two hashes that match are neighbours in one of the words.
-/

namespace Ame

open List Result MatchWork Bits SimilarityTables

/-! ## Hashes -/

theorem candidateDistance_comm (left right : Fin 4 → BitVec 16) :
    candidateDistance left right = candidateDistance right left := by
  simp only [candidateDistance, countOnes_xor_comm]

theorem confirmedDistance_comm (left right : SimilarVariant) : confirmedDistance left right = confirmedDistance right left := by
  unfold confirmedDistance
  simp only [candidateDistance_comm left.candidate right.candidate, countOnes_xor_comm (left.confirmation _)]

theorem confirmedDistance_self (hash : SimilarVariant) : confirmedDistance hash hash = some 0 := by
  have hc : candidateDistance hash.candidate hash.candidate = 0 := by simp [candidateDistance]
  simp [confirmedDistance, hc, similarityMaxDistance]

/-- The words that differ in at most two bits are neighbours. -/
theorem mem_bandNeighbors {word o : BitVec 16} (h : countOnes (word ^^^ o) ≤ 2) : o ∈ bandNeighbors word := by
  have ho : o = word ^^^ (word ^^^ o) := by rw [← BitVec.xor_assoc, BitVec.xor_self, BitVec.zero_xor]
  unfold bandNeighbors
  rw [(perm_insertionSort _ _).mem_iff, ho]
  rcases eq_of_countOnes_le_two h with hz | ⟨i, hi, hon⟩ | ⟨i, j, hij, hj, ht⟩
  · rw [hz]
    simp
  · rw [hon]
    exact mem_cons_of_mem _ (mem_flatMap.mpr ⟨i, mem_range.mpr hi, mem_cons_self⟩)
  · rw [ht, ← BitVec.xor_assoc]
    refine mem_cons_of_mem _ (mem_flatMap.mpr ⟨i, mem_range.mpr (by omega), mem_cons_of_mem _ ?_⟩)
    exact mem_map.mpr ⟨j, mem_filter.mpr ⟨mem_range.mpr hj, by simpa using hij⟩, rfl⟩

/-- Close hashes are neighbours in one of the words: ten differing bits cannot be three in each of four words. -/
theorem exists_band_of_close {left right : Fin 4 → BitVec 16} (h : candidateDistance left right ≤ similarityMaxDistance) :
    ∃ band, right band ∈ bandNeighbors (left band) := by
  by_contra hn
  rw [not_exists] at hn
  have hf : ∀ band, 3 ≤ countOnes (left band ^^^ right band) := by
    intro band
    by_contra hlt
    exact hn band (mem_bandNeighbors (by omega))
  have hs : candidateDistance left right = countOnes (left 0 ^^^ right 0) + (countOnes (left 1 ^^^ right 1) +
        (countOnes (left 2 ^^^ right 2) + countOnes (left 3 ^^^ right 3))) := by
    simp [candidateDistance, finRange_succ]
  have h0 := hf 0
  have h1 := hf 1
  have h2 := hf 2
  have h3 := hf 3
  unfold similarityMaxDistance at h
  omega

/-- Near hashes share a near word. -/
theorem exists_band_of_confirmed {left right : SimilarVariant} {dist : Nat} (h : confirmedDistance left right = some dist) :
    ∃ band, right.candidate band ∈ bandNeighbors (left.candidate band) := by
  apply exists_band_of_close
  unfold confirmedDistance at h
  dsimp only at h
  split at h
  · cases h
  · next hle => exact Nat.not_lt.mp hle

/-- The first neighbour is the least. -/
theorem bandNeighbors_head_le (word : BitVec 16) {first : BitVec 16} (h : (bandNeighbors word)[0]? = some first) :
    ∀ o ∈ bandNeighbors word, first.toNat ≤ o.toNat := by
  intro o ho
  have hs : (bandNeighbors word).Pairwise fun a b => a.toNat ≤ b.toNat := by
    unfold bandNeighbors
    exact pairwise_insertionSort (fun a b : BitVec 16 => a.toNat ≤ b.toNat) _
  cases hn : bandNeighbors word with
  | nil =>
    rw [hn] at h
    cases h
  | cons head rest =>
    rw [hn] at h ho hs
    cases h
    rcases mem_cons.mp ho with rfl | ho
    · exact Nat.le_refl _
    · exact (pairwise_cons.mp hs).1 o ho

/-! ## The cursor -/

section Cursor

variable {Identity : Type} [LinearOrder Identity] {low : Identity} {query q : SimilarVariant} {row : VariantRow Identity}

/-- A position of the scan: a variant, a word, and the last row met in the index of that word. -/
structure Cursor (Identity : Type) where
  queryVariant : Nat
  band : Nat
  neighbor : Nat
  afterIdentity : Identity
  afterVariant : Int

section

variable (cursor : Cursor Identity)

/-- The row key a cursor stands at. -/
def Cursor.key (afterWord : BitVec 16) : Nat ×ₗ (Identity ×ₗ Int) :=
  toLex (afterWord.toNat, toLex (cursor.afterIdentity, cursor.afterVariant))

/-- The cursor has gone past a row in the index of a word. -/
def Cursor.PastRow (query : SimilarVariant) (band : Fin 4) (row : VariantRow Identity) : Prop :=
  ∃ afterWord, (bandNeighbors (query.candidate band))[cursor.neighbor]? = some afterWord ∧
    indexKey band row ≤ cursor.key afterWord

/-- The cursor has gone past a row for a variant and a word. -/
def Cursor.Passed (query : SimilarVariant) (index : Nat) (band : Fin 4) (row : VariantRow Identity) : Prop :=
  index < cursor.queryVariant ∨ index = cursor.queryVariant ∧
    (band.val < cursor.band ∨ band.val = cursor.band ∧ cursor.PastRow query band row)

/-- Every neighbour the cursor has gone past has been dealt with. -/
def Cursor.Done (queries : List SimilarVariant) (rows : List (VariantRow Identity))
    (dealt : SimilarVariant → VariantRow Identity → Prop) : Prop :=
  ∀ index query band row, queries[index]? = some query → row ∈ rows →
    row.hash.candidate band ∈ bandNeighbors (query.candidate band) → cursor.Passed query index band row → dealt query row

end

/-- Every neighbour of every variant has been dealt with. -/
def AllDone (queries : List SimilarVariant) (rows : List (VariantRow Identity))
    (dealt : SimilarVariant → VariantRow Identity → Prop) : Prop :=
  ∀ query ∈ queries, ∀ row ∈ rows, ∀ band, row.hash.candidate band ∈ bandNeighbors (query.candidate band) → dealt query row

variable {queries : List SimilarVariant} {rows : List (VariantRow Identity)} {dealt : SimilarVariant → VariantRow Identity → Prop}
  {cursor : Cursor Identity}

/-- The cursor at the start of the index of a word. -/
def Cursor.reset (low : Identity) (queryVariant band : Nat) : Cursor Identity := ⟨queryVariant, band, 0, low, -1⟩

/-- At the start of the index of a word no row has been met. -/
theorem Cursor.not_pastRow_reset {queryVariant band : Nat} {word : Fin 4} (hlo : low < row.identity)
    (hn : row.hash.candidate word ∈ bandNeighbors (q.candidate word)) :
    ¬(Cursor.reset low queryVariant band).PastRow q word row := by
  rintro ⟨first, hf, hle⟩
  have hl := bandNeighbors_head_le _ hf _ hn
  rw [indexKey, Cursor.key, Prod.Lex.toLex_le_toLex] at hle
  rcases hle with hlt | ⟨-, hle⟩
  · exact absurd hlt (Nat.not_lt.mpr hl)
  · rw [Prod.Lex.toLex_le_toLex] at hle
    rcases hle with hlt | ⟨heq, -⟩
    · exact absurd hlt (lt_asymm hlo)
    · exact absurd heq (ne_of_gt hlo)

/-- At the start of the scan nothing has been met. -/
theorem Cursor.done_start (hl : ∀ row ∈ rows, low < row.identity) : (Cursor.reset low 0 0).Done queries rows dealt := by
  rintro idx q band row - hr hn (hlt | ⟨-, hlt | ⟨-, hp⟩⟩)
  · exact absurd hlt (Nat.not_lt_zero _)
  · exact absurd hlt (Nat.not_lt_zero _)
  · exact absurd hp (not_pastRow_reset (hl row hr) hn)

/-- What is dealt with may grow, and so may the table. -/
theorem Cursor.Done.mono {rows' : List (VariantRow Identity)} {dealt' : SimilarVariant → VariantRow Identity → Prop}
    (h : cursor.Done queries rows dealt) (hd : ∀ q ∈ queries, ∀ row ∈ rows', (row ∈ rows → dealt q row) → dealt' q row) :
    cursor.Done queries rows' dealt' := by
  intro idx q band row hq hr hn hp
  apply hd q (mem_of_getElem? hq) row hr
  intro hold
  exact h idx q band row hq hold hn hp

/-- Where the cursor is after a page: at the last row of a full page, or else at the next word; `none` if there is no other. -/
def Cursor.advance (cursor : Cursor Identity) (low : Identity) (rows variants : Nat) : Option (Cursor Identity) :=
  if rows < matchWindowSize then
    if cursor.band < 3 then some (Cursor.reset low cursor.queryVariant (cursor.band + 1))
    else if cursor.queryVariant + 1 < variants then some (Cursor.reset low (cursor.queryVariant + 1) 0)
    else none
  else some cursor

/-- The cursor at a row. -/
def Cursor.moveTo (cursor : Cursor Identity) (neighbors : List (BitVec 16)) (band : Fin 4) (row : VariantRow Identity) :
    Cursor Identity :=
  { cursor with
    neighbor := neighbors.idxOf (row.hash.candidate band)
    afterIdentity := row.identity
    afterVariant := row.variant }

omit [LinearOrder Identity] in
/-- The key a cursor stands at after it was moved to a neighbour is the key of that row. -/
theorem Cursor.moveTo_key {band : Fin 4} {word : BitVec 16} (hn : row.hash.candidate band ∈ bandNeighbors (q.candidate band))
    (hw : (bandNeighbors (q.candidate band))[(cursor.moveTo (bandNeighbors (q.candidate band)) band row).neighbor]? =
      some word) : (cursor.moveTo (bandNeighbors (q.candidate band)) band row).key word = indexKey band row := by
  have hi : (bandNeighbors (q.candidate band)).idxOf (row.hash.candidate band) <
      (bandNeighbors (q.candidate band)).length := idxOf_lt_length_of_mem hn
  rw [moveTo, getElem?_eq_getElem hi, getElem_idxOf] at hw
  rw [← Option.some.inj hw]
  rfl

section Page

variable {band : Fin 4} {afterWord word : BitVec 16} {last : VariantRow Identity}

/-- The part of the scan that is done when one page more has been dealt with. -/
structure PageDone (cursor : Cursor Identity) (queries : List SimilarVariant) (rows : List (VariantRow Identity))
    (dealt : SimilarVariant → VariantRow Identity → Prop) (query : SimilarVariant) (band : Fin 4) (afterWord : BitVec 16) :
    Prop where
  before : cursor.Done queries rows dealt
  queryAt : queries[cursor.queryVariant]? = some query
  bandAt : band.val = cursor.band
  wordAt : (bandNeighbors (query.candidate band))[cursor.neighbor]? = some afterWord
  pageDealt : ∀ row ∈ loadRows rows band (bandNeighbors (query.candidate band)) (cursor.key afterWord), dealt query row
  keys : ∀ a ∈ rows, ∀ b ∈ rows, a.identity = b.identity → a.variant = b.variant → a = b

omit [LinearOrder Identity] in
/-- A row is known by its index key. -/
theorem indexKey_inj {a b : VariantRow Identity} (h : indexKey band a = indexKey band b) :
    a.identity = b.identity ∧ a.variant = b.variant := by
  simp only [indexKey, EmbeddingLike.apply_eq_iff_eq, Prod.mk.injEq, Int.natCast_inj] at h
  exact h.2

section

variable (h : PageDone cursor queries rows dealt query band word)

include h

/-- What was passed before is passed still; in the present word and variant the rest is as stated. -/
theorem PageDone.done_of {cursor' : Cursor Identity} (hc : ∀ idx query' band' row, queries[idx]? = some query' → row ∈ rows →
      row.hash.candidate band' ∈ bandNeighbors (query'.candidate band') → cursor'.Passed query' idx band' row →
      (idx < cursor.queryVariant ∨ idx = cursor.queryVariant ∧ band'.val < cursor.band) ∨
      (idx = cursor.queryVariant ∧ band' = band ∧ (query' = query → dealt query row))) :
    cursor'.Done queries rows dealt := by
  intro idx query' band' row hq' hr hn hp
  rcases hc idx query' band' row hq' hr hn hp with hb | ⟨rfl, rfl, hd⟩
  · refine h.before idx query' band' row hq' hr hn ?_
    rcases hb with hlt | ⟨heq, hlt⟩
    · exact .inl hlt
    · exact .inr ⟨heq, .inl hlt⟩
  · rw [h.queryAt] at hq'
    obtain rfl := Option.some.inj hq'
    exact hd rfl

variable {page : List (VariantRow Identity)} (hp : page = loadRows rows band (bandNeighbors (query.candidate band))
  (cursor.key word))

include hp

/-- A row the cursor had gone past, or a row of the page. -/
theorem PageDone.dealt_of_met (hr : row ∈ rows) (hn : row.hash.candidate band ∈ bandNeighbors (query.candidate band))
    (hme : indexKey band row ≤ cursor.key word ∨ row ∈ page) : dealt query row := by
  rcases hme with hle | hm
  · exact h.before cursor.queryVariant query band row h.queryAt hr hn (.inr ⟨rfl, .inr ⟨h.bandAt, word, h.wordAt, hle⟩⟩)
  · exact h.pageDealt row (hp ▸ hm)

/-- After a page that was not full the index of the word is done. -/
theorem PageDone.dealt_of_short (hshort : page.length < matchWindowSize)
    (hr : row ∈ rows) (hn : row.hash.candidate band ∈ bandNeighbors (query.candidate band)) : dealt query row := by
  subst hp
  apply h.dealt_of_met rfl hr hn
  by_cases hle : indexKey band row ≤ cursor.key word
  · exact .inl hle
  · exact .inr (Page.mem_page_of_short hshort (mem_filter.mpr ⟨hr, by simpa using hn⟩) (not_le.mp hle))

/-- After a page, everything up to one of its rows is done. -/
theorem PageDone.dealt_of_le (hl : last ∈ page)
    (hr : row ∈ rows) (hn : row.hash.candidate band ∈ bandNeighbors (query.candidate band))
    (hle : indexKey band row ≤ indexKey band last) : dealt query row := by
  subst hp
  apply h.dealt_of_met rfl hr hn
  by_cases hbe : indexKey band row ≤ cursor.key word
  · exact .inl hbe
  · refine .inr (Page.mem_page_of_le ?_ (mem_filter.mpr ⟨hr, by simpa using hn⟩) (not_le.mp hbe) hl hle)
    intro a ha b hb heq
    obtain ⟨hi, hv⟩ := indexKey_inj heq
    exact h.keys a (mem_filter.mp ha).1 b (mem_filter.mp hb).1 hi hv

/-- A full page: the cursor moves to its last row. -/
theorem PageDone.done_moveTo (hl : last ∈ page) :
    (cursor.moveTo (bandNeighbors (query.candidate band)) band last).Done queries rows dealt := by
  have hln : last.hash.candidate band ∈ bandNeighbors (query.candidate band) := by
    rw [hp] at hl
    simpa using (mem_filter.mp (Page.mem_of_mem_page hl).1).2
  apply h.done_of
  rintro idx query' band' row hq' hr hn (hlt | ⟨rfl, hlt | ⟨hb', word, hw, hle⟩⟩)
  · exact .inl (.inl hlt)
  · exact .inl (.inr ⟨rfl, hlt⟩)
  · have hbe : band' = band := Fin.ext (hb'.trans h.bandAt.symm)
    subst hbe
    refine .inr ⟨rfl, rfl, ?_⟩
    rintro rfl
    rw [Cursor.moveTo_key hln hw] at hle
    exact h.dealt_of_le hp hl hr hn hle

section

variable (hshort : page.length < matchWindowSize)

include hshort

/-- The next word of the same variant. -/
theorem PageDone.done_next_band (hl : ∀ row ∈ rows, low < row.identity) :
    (Cursor.reset low cursor.queryVariant (cursor.band + 1)).Done queries rows dealt := by
  apply h.done_of
  rintro idx q' band' row hq' hr hn (hlt | ⟨rfl, hlt | ⟨-, hp⟩⟩)
  · exact .inl (.inl hlt)
  · rcases Nat.lt_succ_iff_lt_or_eq.mp hlt with hlt | heq
    · exact .inl (.inr ⟨rfl, hlt⟩)
    · have hbe : band' = band := Fin.ext (heq.trans h.bandAt.symm)
      subst hbe
      refine .inr ⟨rfl, rfl, ?_⟩
      rintro rfl
      exact h.dealt_of_short hp hshort hr hn
  · exact absurd hp (Cursor.not_pastRow_reset (hl row hr) hn)

/-- The first word of the next variant. -/
theorem PageDone.done_next_variant (hba : ¬cursor.band < 3) (hl : ∀ row ∈ rows, low < row.identity) :
    (Cursor.reset low (cursor.queryVariant + 1) 0).Done queries rows dealt := by
  apply h.done_of
  rintro idx q' band' row hq' hr hn (hlt | ⟨-, hlt | ⟨-, hp⟩⟩)
  · rcases Nat.lt_succ_iff_lt_or_eq.mp hlt with hlt | rfl
    · exact .inl (.inl hlt)
    · by_cases hb : band'.val < cursor.band
      · exact .inl (.inr ⟨rfl, hb⟩)
      · have hbe : band' = band := Fin.ext (by have := h.bandAt; omega)
        subst hbe
        refine .inr ⟨rfl, rfl, ?_⟩
        rintro rfl
        exact h.dealt_of_short hp hshort hr hn
  · exact absurd hlt (Nat.not_lt_zero _)
  · exact absurd hp (Cursor.not_pastRow_reset (hl row hr) hn)

end

/-- What one page more makes of the scan: it goes on from the next cursor, or everything is done. -/
theorem PageDone.advance (hlo : ∀ row ∈ rows, low < row.identity) {moved : Cursor Identity}
    (hm : moved = page.getLast?.elim cursor (cursor.moveTo (bandNeighbors (query.candidate band)) band)) :
    (∀ next, moved.advance low page.length queries.length = some next → next.Done queries rows dealt) ∧
      (moved.advance low page.length queries.length = none → AllDone queries rows dealt) := by
  have hs : moved.queryVariant = cursor.queryVariant ∧ moved.band = cursor.band := by
    rw [hm]
    cases page.getLast? <;> exact ⟨rfl, rfl⟩
  unfold Cursor.advance
  rw [hs.1, hs.2]
  split
  · next hshort =>
    split
    · refine ⟨?_, nofun⟩
      rintro next hne
      exact Option.some.inj hne ▸ h.done_next_band hp hshort hlo
    · next hb =>
      split
      · refine ⟨?_, nofun⟩
        rintro next hne
        exact Option.some.inj hne ▸ h.done_next_variant hp hshort hb hlo
      · next hlv =>
        refine ⟨nofun, fun _ => ?_⟩
        intro query' hq' row hr band' hn
        obtain ⟨idx, hi, rfl⟩ := getElem_of_mem hq'
        have hd := h.done_next_variant hp hshort hb hlo
        exact hd idx _ band' row (getElem?_eq_getElem hi) hr hn (.inl (by simp [Cursor.reset]; omega))
  · next hf =>
    refine ⟨?_, nofun⟩
    rintro next hne
    obtain rfl := Option.some.inj hne
    rw [hm]
    cases hl : page.getLast? with
    | none => exact h.before
    | some last => exact h.done_moveTo hp (mem_of_getLast? hl)

end

end Page

omit [LinearOrder Identity] in
/-- When everything is done, everything that matches has been dealt with. -/
theorem AllDone.of_confirmed (h : AllDone queries rows dealt) (hq : q ∈ queries) (hr : row ∈ rows)
    {dist : Nat} (hm : confirmedDistance q row.hash = some dist) : dealt q row := by
  obtain ⟨band, hn⟩ := exists_band_of_confirmed hm
  exact h q hq row hr band hn

end Cursor

/-! ## The rows of a window -/

section Rows

variable {Content Group : Type} [LinearOrder Group] {group : Group} {evidenceId eid dist : Nat}

/-- Members are only added, and distances only get smaller. -/
def MembersGrow (members members' : Group → Nat → Option Nat) : Prop :=
  ∀ group evidenceId distance, members group evidenceId = some distance →
    ∃ distance' ≤ distance, members' group evidenceId = some distance'

/-- A content is a member at no more than a distance. -/
def MemberWithin (members : Group → Nat → Option Nat) (group : Group) (evidenceId distance : Nat) : Prop :=
  ∃ stored ≤ distance, members group evidenceId = some stored

omit [LinearOrder Group] in
theorem MembersGrow.refl (mems : Group → Nat → Option Nat) : MembersGrow mems mems :=
  fun _ _ dist h => ⟨dist, Nat.le_refl _, h⟩

omit [LinearOrder Group] in
theorem MembersGrow.within {mems mems' : Group → Nat → Option Nat} (h : MembersGrow mems mems')
    (hw : MemberWithin mems group eid dist) : MemberWithin mems' group eid dist := by
  obtain ⟨stored, hle, hs⟩ := hw
  obtain ⟨stored', hle', hs'⟩ := h group eid stored hs
  exact ⟨stored', hle'.trans hle, hs'⟩

omit [LinearOrder Group] in
theorem MembersGrow.trans {first second third : Group → Nat → Option Nat} (h : MembersGrow first second)
    (h' : MembersGrow second third) : MembersGrow first third :=
  fun group eid dist hm => h'.within (h group eid dist hm)

section

variable (tbl : SimilarityTables Content Group) (group : Group) (eid dist : Nat)

/-- Members are only added, or come nearer. -/
theorem publishMember_grow : MembersGrow tbl.members (tbl.publishMember group eid dist).members := by
  intro g e stored hs
  by_cases hsa : g = group ∧ e = eid
  · obtain ⟨rfl, rfl⟩ := hsa
    exact ⟨min stored dist, min_le_left _ _, by simp [publishMember, hs]⟩
  · exact ⟨stored, Nat.le_refl _, by simp [publishMember, hsa, hs]⟩

/-- The published member is within its distance. -/
theorem publishMember_within : MemberWithin (tbl.publishMember group eid dist).members group eid dist := by
  cases hs : tbl.members group eid with
  | none => exact ⟨dist, Nat.le_refl _, by simp [publishMember, hs]⟩
  | some stored => exact ⟨min stored dist, min_le_right _ _, by simp [publishMember, hs]⟩

end

/-- A member was there before, or is the one published. -/
theorem publishMember_some {tbl : SimilarityTables Content Group} {g : Group} {e stored : Nat}
    (h : (tbl.publishMember group eid dist).members g e = some stored) :
    tbl.members g e = some stored ∨ g = group ∧ e = eid ∧ stored = dist := by
  by_cases hs : g = group ∧ e = eid
  · obtain ⟨rfl, rfl⟩ := hs
    cases hb : tbl.members g e with
    | none =>
      simp only [publishMember, hb, and_self, if_true, Option.some.injEq] at h
      exact .inr ⟨rfl, rfl, h.symm⟩
    | some before =>
      simp only [publishMember, hb, and_self, if_true, Option.some.injEq] at h
      rcases min_choice before dist with hm | hm
      · exact .inl (by rw [← h, hm])
      · exact .inr ⟨rfl, rfl, by rw [← h, hm]⟩
  · simp only [publishMember, hs, if_false] at h
    exact .inl h

variable {query q : SimilarVariant} {nbrs : List (BitVec 16)} {band : Fin 4}
  {ref : Option Group} {tables tbl : SimilarityTables Content Group} {work : MatchWork Group} {rows : List (Posting Group)}

/-- The cursor after all the rows. -/
def MatchWork.moveThrough (work : MatchWork Group) (neighbors : List (BitVec 16)) (band : Fin 4) (rows : List (Posting Group)) :
    MatchWork Group :=
  rows.foldl (fun work row => work.moveTo neighbors band row) work

omit [LinearOrder Group] in
/-- Only the last row counts. -/
theorem MatchWork.moveThrough_eq (work : MatchWork Group) (nbrs : List (BitVec 16)) (band : Fin 4)
    (rows : List (Posting Group)) : work.moveThrough nbrs band rows = rows.getLast?.elim work (work.moveTo nbrs band) := by
  induction rows using List.reverseRecOn with
  | nil => rfl
  | append_singleton rows row ih =>
    rw [moveThrough, foldl_append, foldl_cons, foldl_nil, ← moveThrough, ih, getLast?_concat]
    cases rows.getLast? <;> rfl

/-- Whether a row matches. -/
def Posting.Matches (query : SimilarVariant) (row : Posting Group) : Prop :=
  ∃ distance, confirmedDistance query row.hash = some distance

/-- Publish a member for every row that matches; `target` tells which. -/
def publishMatches (query : SimilarVariant) (target : Posting Group → Group × Nat) (rows : List (Posting Group))
    (tables : SimilarityTables Content Group) : SimilarityTables Content Group :=
  rows.foldl (fun tables row =>
    match confirmedDistance query row.hash with
    | none => tables
    | some distance => tables.publishMember (target row).1 (target row).2 distance) tables

section

variable {target : Posting Group → Group × Nat} {row : Posting Group}

theorem publishMatches_none (h : confirmedDistance q row.hash = none) :
    publishMatches q target (row :: rows) tbl = publishMatches q target rows tbl := by
  simp [publishMatches, h]

theorem publishMatches_some (h : confirmedDistance q row.hash = some dist) : publishMatches q target (row :: rows) tbl =
      publishMatches q target rows (tbl.publishMember (target row).1 (target row).2 dist) := by
  simp [publishMatches, h]

end

/-- What publishing the matches changes. -/
structure PublishedMatches (query : SimilarVariant) (target : Posting Group → Group × Nat) (rows : List (Posting Group))
    (tables tables' : SimilarityTables Content Group) : Prop where
  only_members : tables' = { tables with members := tables'.members }
  grow : MembersGrow tables.members tables'.members
  within : ∀ row ∈ rows, ∀ distance, confirmedDistance query row.hash = some distance →
    MemberWithin tables'.members (target row).1 (target row).2 distance
  only : ∀ group evidenceId distance, tables'.members group evidenceId = some distance →
    tables.members group evidenceId = some distance ∨
      ∃ row ∈ rows, target row = (group, evidenceId) ∧ confirmedDistance query row.hash = some distance

/-- What publishing all matches leaves. -/
theorem publishMatches_spec (query : SimilarVariant) (target : Posting Group → Group × Nat) (rows : List (Posting Group))
    (tbl : SimilarityTables Content Group) :
    PublishedMatches query target rows tbl (publishMatches query target rows tbl) := by
  induction rows generalizing tbl with
  | nil => exact ⟨rfl, .refl _, by simp, fun _ _ _ h => .inl h⟩
  | cons row rows ih =>
    cases hm : confirmedDistance query row.hash with
    | none =>
      rw [publishMatches_none hm]
      refine ⟨(ih tbl).only_members, (ih tbl).grow, ?_, ?_⟩
      · intro o ho dist hd
        rcases mem_cons.mp ho with rfl | ho
        · rw [hm] at hd
          cases hd
        · exact (ih tbl).within o ho dist hd
      · intro group eid dist hme
        rcases (ih tbl).only group eid dist hme with h | ⟨o, ho, hr⟩
        · exact .inl h
        · exact .inr ⟨o, mem_cons_of_mem _ ho, hr⟩
    | some first =>
      rw [publishMatches_some hm]
      have hr := ih (tbl.publishMember (target row).1 (target row).2 first)
      refine ⟨hr.only_members, (publishMember_grow tbl _ _ _).trans hr.grow, ?_, ?_⟩
      · intro o ho dist hd
        rcases mem_cons.mp ho with rfl | ho
        · rw [hm] at hd
          obtain rfl := Option.some.inj hd
          exact hr.grow.within (publishMember_within tbl _ _ _)
        · exact hr.within o ho dist hd
      · intro group eid dist hme
        rcases hr.only group eid dist hme with h | ⟨o, ho, ht⟩
        · rcases publishMember_some h with h | ⟨rfl, rfl, rfl⟩
          · exact .inl h
          · exact .inr ⟨row, mem_cons_self, rfl, hm⟩
        · exact .inr ⟨o, mem_cons_of_mem _ ho, ht⟩

omit [LinearOrder Group] in
theorem MatchWork.moveThrough_cons (work : MatchWork Group) (nbrs : List (BitVec 16)) (band : Fin 4)
    (row : Posting Group) (rows : List (Posting Group)) :
    work.moveThrough nbrs band (row :: rows) = (work.moveTo nbrs band row).moveThrough nbrs band rows := rfl

variable [OrderBot Group] {names : GroupNames Content Group}

section

variable {res : SimilarityTables Content Group × MatchWork Group × Bool}

/-- In the references phase every row that matches makes the content a member of the row's group. -/
theorem matchRows_references (h : matchRows names q nbrs band ref rows tbl work = .ok res) (hp : work.phase = .references) :
    ∃ found, res = (publishMatches q (fun row => (row.groupId, work.evidenceId)) rows tbl,
        { work.moveThrough nbrs band rows with foundReference := found }, false) ∧
      (found = true ↔ work.foundReference = true ∨ ∃ row ∈ rows, row.Matches q) := by
  induction rows generalizing tbl work with
  | nil =>
    cases h
    exact ⟨work.foundReference, rfl, by simp⟩
  | cons row rows ih =>
    rw [matchRows] at h
    cases hm : confirmedDistance q row.hash with
    | none =>
      rw [hm] at h
      obtain ⟨found, hr, hf⟩ := ih h hp
      refine ⟨found, ?_, ?_⟩
      · rw [publishMatches_none hm]
        exact hr
      · rw [hf]
        simp [Posting.Matches, hm, moveTo]
    | some dist =>
      rw [hm] at h
      have hro : matchRow names ref tbl work row dist =
          .ok (tbl.publishMember row.groupId work.evidenceId dist, { work with foundReference := true }, false) := by
        simp only [matchRow, hp]
      dsimp only at h
      rw [hro] at h
      obtain ⟨found, hr, hf⟩ := ih h hp
      refine ⟨found, ?_, ?_⟩
      · rw [hr, publishMatches_some hm, moveThrough_cons, moveThrough_eq, moveThrough_eq]
        cases rows.getLast? <;> rfl
      · rw [hf]
        simp [Posting.Matches, hm, moveTo]

/-- In the members phase every row that matches becomes a member of the reference's group. -/
theorem matchRows_members (h : matchRows names q nbrs band (some group) rows tbl work = .ok res) (hp : work.phase = .members) :
    res = (publishMatches q (fun row => (group, row.evidenceId)) rows tbl, work.moveThrough nbrs band rows, false) := by
  induction rows generalizing tbl work with
  | nil =>
    cases h
    rfl
  | cons row rows ih =>
    rw [matchRows] at h
    cases hm : confirmedDistance q row.hash with
    | none =>
      rw [hm] at h
      rw [publishMatches_none hm]
      exact ih h hp
    | some dist =>
      rw [hm] at h
      simp only [matchRow, hp] at h
      rw [publishMatches_some hm]
      exact ih h hp

/-- In the peer phase nothing happens unless a row of another content matches; then the content becomes a reference. -/
theorem matchRows_peer (h : matchRows names q nbrs band ref rows tbl work = .ok res) (hp : work.phase = .peer) :
    (res = (tbl, work.moveThrough nbrs band rows, false) ∧ ∀ row ∈ rows, row.evidenceId ≠ work.evidenceId → ¬row.Matches q) ∨
    ∃ established group, establishReference names tbl work.evidenceId = .ok (established, group) ∧
      res = (established.publishMember group work.evidenceId 0, work.restart .members, true) := by
  induction rows generalizing work with
  | nil =>
    cases h
    exact .inl ⟨rfl, by simp⟩
  | cons row rows ih =>
    rw [matchRows] at h
    cases hm : confirmedDistance q row.hash with
    | none =>
      rw [hm] at h
      rcases ih h hp with ⟨hr, hn⟩ | he
      · refine .inl ⟨hr, ?_⟩
        intro o ho hne
        rcases mem_cons.mp ho with rfl | ho
        · simp [Posting.Matches, hm]
        · exact hn o ho hne
      · exact .inr he
    | some dist =>
      rw [hm] at h
      simp only [matchRow, hp] at h
      by_cases hs : row.evidenceId = work.evidenceId
      · rw [if_neg (by simpa using hs)] at h
        rcases ih h hp with ⟨hr, hn⟩ | he
        · refine .inl ⟨hr, ?_⟩
          intro o ho hne
          rcases mem_cons.mp ho with rfl | ho
          · exact absurd hs hne
          · exact hn o ho hne
        · exact .inr he
      · rw [if_pos hs] at h
        cases hes : establishReference names tbl work.evidenceId with
        | error error =>
          rw [hes] at h
          cases h
        | ok established =>
          rw [hes] at h
          cases h
          exact .inr ⟨established.1, established.2, rfl, rfl⟩

end

end Rows

/-! ## A window -/

section Window

variable {Content Group : Type} [LinearOrder Group]

/-- The cursor of a work in the table of the references. -/
def MatchWork.groupCursor (work : MatchWork Group) : Cursor Group :=
  ⟨work.queryVariant, work.band, work.neighbor, work.afterGroupId, work.afterVariant⟩

/-- The cursor of a work in the table of the contents. -/
def MatchWork.contentCursor (work : MatchWork Group) : Cursor Nat :=
  ⟨work.queryVariant, work.band, work.neighbor, work.afterEvidenceId, work.afterVariant⟩

/-- A row of the references as a posting. -/
def referencePosting (row : VariantRow Group) : Posting Group := ⟨0, row.identity, row.variant, row.hash⟩

omit [LinearOrder Group] in
theorem moveThrough_groupCursor (work : MatchWork Group) (nbrs : List (BitVec 16)) (band : Fin 4)
    (rows : List (VariantRow Group)) :
    (work.moveThrough nbrs band (rows.map referencePosting)).groupCursor =
      rows.getLast?.elim work.groupCursor (work.groupCursor.moveTo nbrs band) := by
  rw [moveThrough_eq, getLast?_map]
  cases rows.getLast? <;> rfl

variable [OrderBot Group]

/-- A row of the contents as a posting. -/
def contentPosting (row : VariantRow Nat) : Posting Group := ⟨row.identity, ⊥, row.variant, row.hash⟩

theorem moveThrough_contentCursor (work : MatchWork Group) (nbrs : List (BitVec 16)) (band : Fin 4)
    (rows : List (VariantRow Nat)) :
    (work.moveThrough nbrs band (rows.map contentPosting)).contentCursor =
      rows.getLast?.elim work.contentCursor (work.contentCursor.moveTo nbrs band) := by
  rw [moveThrough_eq, getLast?_map]
  cases rows.getLast? <;> rfl

/-- The same work in the same phase, maybe at another position. -/
structure MatchWork.SameScan (work work' : MatchWork Group) : Prop where
  evidenceId : work'.evidenceId = work.evidenceId
  phase : work'.phase = work.phase
  referenceRevision : work'.referenceRevision = work.referenceRevision
  foundReference : work'.foundReference = work.foundReference

omit [LinearOrder Group] [OrderBot Group] in
theorem MatchWork.moveThrough_same (work : MatchWork Group) (nbrs : List (BitVec 16)) (band : Fin 4)
    (rows : List (Posting Group)) : work.SameScan (work.moveThrough nbrs band rows) := by
  rw [moveThrough_eq]
  cases rows.getLast? <;> exact ⟨rfl, rfl, rfl, rfl⟩

/-- The cursor after a window: it goes on in the same phase, or the scan of the phase is exhausted. -/
theorem MatchWork.finish_cases (work : MatchWork Group) (rows variants : Nat) :
    (work.groupCursor.advance ⊥ rows variants = some (work.finish rows variants).groupCursor ∧
      work.contentCursor.advance 0 rows variants = some (work.finish rows variants).contentCursor ∧
      work.SameScan (work.finish rows variants)) ∨
    (work.groupCursor.advance ⊥ rows variants = none ∧ work.contentCursor.advance 0 rows variants = none ∧
      work.finish rows variants = work.restart (work.phase.exhausted work.foundReference)) := by
  unfold finish nextBand Cursor.advance
  split
  · by_cases hb : work.band < 3
    · left
      simp only [resetPosting, groupCursor, contentCursor, hb, Cursor.reset, if_true]
      exact ⟨trivial, trivial, rfl, rfl, rfl, rfl⟩
    · by_cases hv : work.queryVariant + 1 < variants
      · left
        simp only [resetPosting, groupCursor, contentCursor, hb, hv, Cursor.reset, if_true, if_false]
        exact ⟨trivial, trivial, rfl, rfl, rfl, rfl⟩
      · simp [resetPosting, restart, groupCursor, contentCursor, hb, hv]
  · left
    exact ⟨rfl, rfl, rfl, rfl, rfl, rfl⟩

section Finish

variable {queries : List SimilarVariant} {q : SimilarVariant} {band : Fin 4} {word : BitVec 16} {work moved : MatchWork Group}

/-- After a page of the references the scan goes on, or everything is done. -/
theorem MatchWork.finish_references {rows page : List (VariantRow Group)} {dealt : SimilarVariant → VariantRow Group → Prop}
    (h : PageDone work.groupCursor queries rows dealt q band word) (hl : ∀ row ∈ rows, ⊥ < row.identity)
    (hp : page = loadRows rows band (bandNeighbors (q.candidate band)) (work.groupCursor.key word))
    (hm : moved.groupCursor = (work.moveThrough (bandNeighbors (q.candidate band)) band
      (page.map referencePosting)).groupCursor) :
    (moved.finish page.length queries.length).groupCursor.Done queries rows dealt ∧
        moved.SameScan (moved.finish page.length queries.length) ∨
      AllDone queries rows dealt ∧
        moved.finish page.length queries.length = moved.restart (moved.phase.exhausted moved.foundReference) := by
  rw [moveThrough_groupCursor] at hm
  obtain ⟨hgo, he⟩ := h.advance hp hl hm
  rcases moved.finish_cases page.length queries.length with ⟨hn, -, hs⟩ | ⟨hno, -, hr⟩
  · exact .inl ⟨hgo _ hn, hs⟩
  · exact .inr ⟨he hno, hr⟩

/-- After a page of the contents the scan goes on, or everything is done. -/
theorem MatchWork.finish_contents {rows page : List (VariantRow Nat)} {dealt : SimilarVariant → VariantRow Nat → Prop}
    (h : PageDone work.contentCursor queries rows dealt q band word) (hl : ∀ row ∈ rows, 0 < row.identity)
    (hp : page = loadRows rows band (bandNeighbors (q.candidate band)) (work.contentCursor.key word))
    (hm : moved.contentCursor = (work.moveThrough (bandNeighbors (q.candidate band)) band
      (page.map contentPosting)).contentCursor) :
    (moved.finish page.length queries.length).contentCursor.Done queries rows dealt ∧
        moved.SameScan (moved.finish page.length queries.length) ∨
      AllDone queries rows dealt ∧
        moved.finish page.length queries.length = moved.restart (moved.phase.exhausted moved.foundReference) := by
  rw [moveThrough_contentCursor] at hm
  obtain ⟨hgo, he⟩ := h.advance hp hl hm
  rcases moved.finish_cases page.length queries.length with ⟨-, hn, hs⟩ | ⟨-, hno, hr⟩
  · exact .inl ⟨hgo _ hn, hs⟩
  · exact .inr ⟨he hno, hr⟩

end Finish

variable {names : GroupNames Content Group} {tables tbl : SimilarityTables Content Group} {work : MatchWork Group}

/-- What a window reads: a variant of the content, and a page of the index of a word. -/
structure WindowRows (tables : SimilarityTables Content Group) (work : MatchWork Group) (query : SimilarVariant)
    (afterWord : BitVec 16) : Prop where
  queryAt : (tables.variantsOf work.evidenceId)[work.queryVariant]? = some query
  wordAt : (bandNeighbors (query.candidate work.bandIndex))[work.neighbor]? = some afterWord

section

variable (tables : SimilarityTables Content Group) (work : MatchWork Group) (query : SimilarVariant) (afterWord : BitVec 16)

/-- The page of the references. -/
def referencePage : List (VariantRow Group) :=
  loadRows tables.referenceRows work.bandIndex (bandNeighbors (query.candidate work.bandIndex)) (work.groupCursor.key afterWord)

/-- The page of the contents. -/
def contentPage : List (VariantRow Nat) :=
  loadRows tables.variantRows work.bandIndex (bandNeighbors (query.candidate work.bandIndex)) (work.contentCursor.key afterWord)

end

/-- What a window does. -/
theorem advanceWork_ok (h : advanceWork names tbl work = .ok tbl') :
    ∃ q word, WindowRows tbl work q word ∧ ∃ rows after work' stopped,
      (work.phase = .references → rows = (referencePage tbl work q word).map referencePosting) ∧
      (work.phase ≠ .references → rows = (contentPage tbl work q word).map contentPosting) ∧
      (work.phase = .members → tbl.referenceGroup work.evidenceId ≠ none) ∧
      matchRows names q (bandNeighbors (q.candidate work.bandIndex)) work.bandIndex
        (tbl.referenceGroup work.evidenceId) rows tbl work = .ok (after, work', stopped) ∧
      tbl' = after.saveWork (if stopped then work' else work'.finish rows.length (tbl.variantsOf work'.evidenceId).length) := by
  unfold advanceWork at h
  split at h
  · cases h
  · next q hq =>
    dsimp only at h
    cases hl : loadPostings tbl work work.bandIndex (bandNeighbors (q.candidate work.bandIndex)) with
    | error error =>
      rw [hl] at h
      cases h
    | ok rows =>
      rw [hl] at h
      dsimp only at h
      split at h
      · cases h
      · next hr =>
        unfold loadPostings at hl
        split at hl
        · cases hl
        · next word hw =>
          refine ⟨q, word, ⟨hq, hw⟩, rows, ?_⟩
          have hro : (work.phase = .references → rows = (referencePage tbl work q word).map referencePosting) ∧
              (work.phase ≠ .references → rows = (contentPage tbl work q word).map contentPosting) := by
            split at hl
            · next hp => exact ⟨fun _ => (Except.ok.inj hl).symm, fun hne => absurd hp hne⟩
            · next hp => exact ⟨fun heq => absurd heq hp, fun _ => (Except.ok.inj hl).symm⟩
          split at h
          · cases h
          · next after work' hru =>
            cases h
            exact ⟨after, work', true, hro.1, hro.2, fun hp hn => hr ⟨hp, hn⟩, hru, rfl⟩
          · next after work' hru =>
            cases h
            exact ⟨after, work', false, hro.1, hro.2, fun hp hn => hr ⟨hp, hn⟩, hru, rfl⟩

end Window

end Ame
