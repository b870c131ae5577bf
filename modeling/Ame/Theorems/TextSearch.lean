import Ame.Gallery.Search
import Mathlib

/-!
# The indexed text search is the plain one

The index is asked for some trigrams of the text. Every row that holds the text, up to the case of ASCII letters, holds all of
them, so that the index takes away no row that the plain search accepts.
-/

namespace Ame

open List

variable {fold : Char → Char} {text path term rest : List Char} {terms : List (List Char)} {row : SearchedRow}

/-! ## Trigrams -/

/-- The trigrams of a text are its parts of three characters. -/
theorem mem_trigrams : term ∈ trigrams text ↔ term <:+: text ∧ term.length = 3 := by
  induction text using trigrams.induct with
  | case1 a b c rest ih =>
    rw [trigrams, mem_cons, ih]
    constructor
    · rintro (rfl | ⟨hi, hl⟩)
      · exact ⟨infix_cons_iff.mpr (.inl ⟨rest, rfl⟩), rfl⟩
      · exact ⟨infix_cons_iff.mpr (.inr hi), hl⟩
    · rintro ⟨hi, hl⟩
      rcases infix_cons_iff.mp hi with ⟨tail, ht⟩ | hi
      · left
        obtain ⟨x, y, z, rfl⟩ := length_eq_three.mp hl
        simp_all
      · exact .inr ⟨hi, hl⟩
  | case2 text h =>
    have hlen : text.length < 3 := by
      rcases text with _ | ⟨a, _ | ⟨b, _ | ⟨c, rest⟩⟩⟩
      · simp
      · simp
      · simp
      · exact absurd rfl (h a b c rest)
    constructor
    · intro hm
      rw [trigrams] at hm
      · cases hm
      · exact h
    · rintro ⟨hi, hl⟩
      have := hi.length_le
      omega

/-- A trigram of a text that occurs in a path, up to case, is in the index of the path. -/
theorem fold_mem_trigrams (hf : ∀ c, fold c.toLower = fold c) (h : asciiLower text <:+: asciiLower path)
    (ht : term ∈ trigrams text) : term.map fold ∈ trigrams (path.map fold) := by
  obtain ⟨hi, hl⟩ := mem_trigrams.mp ht
  refine mem_trigrams.mpr ⟨?_, by rw [length_map, hl]⟩
  have hlower : ∀ s : List Char, (asciiLower s).map fold = s.map fold := by
    intro s
    rw [asciiLower, map_map]
    exact map_congr_left fun c _ => hf c
  rw [← hlower term, ← hlower path]
  exact ((hi.map Char.toLower).trans h).map fold

/-! ## The expression and its terms -/

/-- Quoting can be undone. -/
theorem unquote_quoted (hr : rest.head? ≠ some '"') : unquote (doubleQuotes term ++ '"' :: rest) = some (term, rest) := by
  induction term with
  | nil =>
    cases rest with
    | nil => rfl
    | cons c rest =>
      have hc : c ≠ '"' := fun h => hr (by simp [h])
      simp [doubleQuotes, unquote, hc]
  | cons c term ih =>
    by_cases hc : c = '"'
    · subst hc
      have hd : doubleQuotes ('"' :: term) = '"' :: '"' :: doubleQuotes term := by simp [doubleQuotes]
      rw [hd, cons_append, cons_append, unquote, ih]
      rfl
    · have hd : doubleQuotes (c :: term) = c :: doubleQuotes term := by simp [doubleQuotes, hc]
      rw [hd, cons_append, unquote, ih]
      · rfl
      · exact fun _ h => absurd h hc
      · exact hc

/-- The expression is read back as its terms. -/
theorem matchTerms_intercalate (hne : terms ≠ []) {fuel : Nat} (hfuel : terms.length ≤ fuel) :
    matchTerms fuel (" AND ".toList.intercalate (terms.map quoted)) = some terms := by
  induction terms generalizing fuel with
  | nil => exact absurd rfl hne
  | cons term terms ih =>
    obtain ⟨fuel, rfl⟩ : ∃ n, fuel = n + 1 := Nat.exists_eq_add_one.mpr (by simp at hfuel; omega)
    cases terms with
    | nil =>
      rw [map_singleton, intercalate_singleton, quoted, matchTerms, unquote_quoted (by simp)]
      rfl
    | cons next terms =>
      have hi := ih (by simp) (Nat.le_of_succ_le_succ hfuel)
      rw [map_cons] at hi
      have hd : (" AND ".toList ++ " AND ".toList.intercalate (quoted next :: terms.map quoted)).dropPrefix? " AND ".toList =
          some (" AND ".toList.intercalate (quoted next :: terms.map quoted)) := dropPrefix?_append_of_beq _ (by simp)
      rw [map_cons, map_cons, intercalate_cons_cons, quoted, cons_append, cons_append, append_assoc, append_assoc,
        singleton_append, matchTerms, unquote_quoted (by simp)]
      simp only [Option.bind_eq_bind, Option.bind_some, hd, hi]
      rfl

section

variable {stride count index : Nat} {first second : Char}

theorem mem_insertedTerms {inserted : List Char} (h : inserted ∈ insertedTerms stride count first second index rest) :
    ∃ term ∈ trigrams (first :: second :: rest), quoted term = inserted := by
  induction rest generalizing first second index with
  | nil => cases h
  | cons last rest ih =>
    have hlater (h : inserted ∈ insertedTerms stride count second last (index + 1) rest) :
        ∃ term ∈ trigrams (first :: second :: last :: rest), quoted term = inserted := by
      obtain ⟨term, ht, rfl⟩ := ih h
      exact ⟨term, mem_cons_of_mem _ ht, rfl⟩
    rw [insertedTerms] at h
    split at h
    · rcases mem_cons.mp h with rfl | h
      · exact ⟨_, mem_cons_self, rfl⟩
      · exact hlater h
    · exact hlater h

theorem length_insertedTerms : (insertedTerms stride count first second index rest).length =
      (range' index rest.length).countP fun i => i % stride = 0 ∨ i + 1 = count := by
  induction rest generalizing first second index with
  | nil => rfl
  | cons last rest ih =>
    rw [insertedTerms, length_cons, range'_succ, countP_cons]
    split
    · next h => rw [length_cons, ih, if_pos (decide_eq_true h)]
    · next h =>
      rw [ih, if_neg (by simpa using h)]
      rfl

end

/-- Every `stride`-th of some numbers, where `stride` numbers fit in `limit` times. -/
theorem countP_multiples_le {stride count limit : Nat} (h : count ≤ stride * limit) :
    (range count).countP (fun i => decide (i % stride = 0)) ≤ limit := by
  have hsub : ((range count).filter fun i => decide (i % stride = 0)) ⊆ (range limit).map (stride * ·) := by
    intro i hi
    obtain ⟨hi, hs⟩ := mem_filter.mp hi
    rw [mem_range] at hi
    obtain ⟨k, rfl⟩ := Nat.dvd_of_mod_eq_zero (of_decide_eq_true hs)
    exact mem_map_of_mem (mem_range.mpr (lt_of_mul_lt_mul_left (hi.trans_le h) (Nat.zero_le _)))
  calc (range count).countP _ = ((range count).filter fun i => decide (i % stride = 0)).length := countP_eq_length_filter
    _ ≤ ((range limit).map (stride * ·)).length := ((nodup_range.filter _).subperm hsub).length_le
    _ = limit := by rw [length_map, length_range]

/-- The sampled trigrams: every `stride`-th one, and the last. -/
theorem length_sampled_le {count : Nat} : (range count).countP (fun i => decide
      (i % ((count + (maxIndexedTerms - 1) - 1) / (maxIndexedTerms - 1)) = 0 ∨ i + 1 = count)) ≤ maxIndexedTerms := by
  cases count with
  | zero => simp
  | succ n =>
    set stride := (n + 1 + (maxIndexedTerms - 1) - 1) / (maxIndexedTerms - 1) with hs
    have hle : n ≤ stride * 63 := by
      rw [hs, maxIndexedTerms]
      omega
    have hfront : (range n).countP (fun i => decide (i % stride = 0 ∨ i + 1 = n + 1)) =
        (range n).countP fun i => decide (i % stride = 0) := by
      refine countP_congr fun i hi => ?_
      have := mem_range.mp hi
      simp only [decide_eq_true_eq]
      omega
    have hlast : ([n].countP fun i => decide (i % stride = 0 ∨ i + 1 = n + 1)) ≤ 1 := countP_le_length
    have hm := countP_multiples_le hle
    rw [range_succ, countP_append, hfront, maxIndexedTerms]
    omega

/-- Strings that are all quoted terms of a kind are the quoted terms of a list. -/
theorem exists_map_quoted {P : List Char → Prop} {inserted : List (List Char)}
    (h : ∀ x ∈ inserted, ∃ term, P term ∧ quoted term = x) :
    ∃ terms : List (List Char), inserted = terms.map quoted ∧ ∀ term ∈ terms, P term := by
  induction inserted with
  | nil => exact ⟨[], rfl, by simp⟩
  | cons x inserted ih =>
    obtain ⟨⟨term, ht, rfl⟩, hrest⟩ := forall_mem_cons.mp h
    obtain ⟨terms, rfl, hts⟩ := ih hrest
    exact ⟨term :: terms, rfl, forall_mem_cons.mpr ⟨ht, hts⟩⟩

/-- The terms of the expression are trigrams of the text, one at least and at most as many as are allowed. -/
theorem candidateTerms_some {expression : List Char} (h : candidateTerms text = some expression) :
    ∃ terms : List (List Char), expression = " AND ".toList.intercalate (terms.map quoted) ∧ terms ≠ [] ∧ terms.length ≤ maxIndexedTerms ∧
      ∀ term ∈ terms, term ∈ trigrams text := by
  unfold candidateTerms at h
  split at h
  · next first second third rest =>
    split at h
    · cases h
    set stride := (rest.length + 1 + (maxIndexedTerms - 1) - 1) / (maxIndexedTerms - 1) with hs
    set inserted := insertedTerms stride (rest.length + 1) first second 0 (third :: rest) with hi
    have hall : ∀ x ∈ inserted.toFinset.sort (· ≤ ·), ∃ term, term ∈ trigrams (first :: second :: third :: rest) ∧
        quoted term = x :=
      fun x hx => mem_insertedTerms (mem_toFinset.mp ((Finset.mem_sort _).mp hx))
    obtain ⟨terms, hsort, hterms⟩ := exists_map_quoted hall
    have hlen : terms.length = inserted.toFinset.card := by
      rw [← Finset.length_sort (· ≤ ·), hsort, length_map]
    refine ⟨terms, ?_, ?_, ?_, hterms⟩
    · rw [← hsort]
      exact (Option.some.inj h).symm
    · rintro rfl
      have hfirst : quoted [first, second, third] ∈ inserted := by
        rw [hi, insertedTerms, if_pos (.inl (Nat.zero_mod _))]
        exact mem_cons_self
      rw [length_nil, eq_comm, Finset.card_eq_zero] at hlen
      exact Finset.notMem_empty _ (hlen ▸ mem_toFinset.mpr hfirst)
    · rw [hlen]
      refine (toFinset_card_le inserted).trans ?_
      rw [hi, length_insertedTerms, ← range_eq_range']
      exact length_sampled_le
  · cases h

/-! ## The filter -/

/-- What a literal clause accepts. -/
theorem accepts_literal : (SearchClause.literal text text).accepts fold row = true ↔
    asciiLower text <:+: asciiLower row.absolutePath ∨ asciiLower text <:+: asciiLower row.relativePath := by
  simp [SearchClause.accepts]

/-- The index holds the terms of every row that holds the text. -/
theorem accepts_indexed (hf : ∀ c, fold c.toLower = fold c) {expression : List Char} (h : candidateTerms text = some expression)
    (ht : asciiLower text <:+: asciiLower row.absolutePath ∨ asciiLower text <:+: asciiLower row.relativePath) :
    (SearchClause.indexed expression).accepts fold row = true := by
  obtain ⟨terms, rfl, hne, -, hterms⟩ := candidateTerms_some h
  have hfuel : terms.length ≤ (" AND ".toList.intercalate (terms.map quoted)).length := by
    clear h hne hterms
    induction terms with
    | nil => simp
    | cons term terms ih =>
      cases terms with
      | nil => simp [quoted]
      | cons next terms =>
        rw [map_cons, map_cons, intercalate_cons_cons, length_append, length_append]
        rw [map_cons] at ih
        simp only [length_cons] at ih ⊢
        have : 1 ≤ (quoted term).length := by simp [quoted]
        omega
  rw [SearchClause.accepts, matchTerms_intercalate hne hfuel, Option.any_some, all_eq_true]
  intro term hterm
  rw [decide_eq_true_iff, SearchedRow.index, mem_append]
  rcases ht with ht | ht
  · exact .inl (fold_mem_trigrams hf ht (hterms term hterm))
  · exact .inr (fold_mem_trigrams hf ht (hterms term hterm))

/-- With an index that does not tell the cases of ASCII letters apart, the filter accepts a row exactly when one of its paths
holds the trimmed text, up to the case of ASCII letters, and it asks the index for at most 64 quoted trigrams of the text. -/
theorem text_filter_exact (fold : Char → Char) (hf : ∀ c, fold c.toLower = fold c) (text : List Char) (row : SearchedRow) :
    ((pushTextFilter text).all (·.accepts fold row) = true ↔
      asciiLower (trim text) <:+: asciiLower row.absolutePath ∨ asciiLower (trim text) <:+: asciiLower row.relativePath) ∧
    ∀ expression, .indexed expression ∈ pushTextFilter text →
      ∃ terms : List (List Char), expression = " AND ".toList.intercalate (terms.map quoted) ∧ terms.length ≤ 64 ∧
        ∀ term ∈ terms, term.length = 3 ∧ term <:+: trim text := by
  unfold pushTextFilter
  by_cases hempty : trim text = []
  · simp [hempty, asciiLower]
  rw [if_neg hempty]
  constructor
  · rw [all_append, Bool.and_eq_true, all_cons, all_nil, Bool.and_true, accepts_literal]
    refine ⟨And.right, fun ht => ⟨?_, ht⟩⟩
    rw [all_map, all_eq_true]
    intro expression he
    exact accepts_indexed hf (Option.mem_toList.mp he) ht
  · intro expression he
    have hc : candidateTerms (trim text) = some expression := by
      simpa using he
    obtain ⟨terms, rfl, -, hlen, hterms⟩ := candidateTerms_some hc
    refine ⟨terms, rfl, hlen, fun term hterm => ?_⟩
    exact (mem_trigrams.mp (hterms term hterm)).symm

/-- A text with a quote in it, and a row that holds it in other letters. -/
theorem text_filter_exact_quote :
    ((pushTextFilter " a\"B ".toList).all (·.accepts Char.toLower ⟨"x/A\"b.jpg".toList, []⟩) = true ↔
      asciiLower (trim " a\"B ".toList) <:+: asciiLower "x/A\"b.jpg".toList ∨ asciiLower (trim " a\"B ".toList) <:+: []) ∧
    ∀ expression, .indexed expression ∈ pushTextFilter " a\"B ".toList →
      ∃ terms : List (List Char), expression = " AND ".toList.intercalate (terms.map quoted) ∧ terms.length ≤ 64 ∧
        ∀ term ∈ terms, term.length = 3 ∧ term <:+: trim " a\"B ".toList :=
  text_filter_exact Char.toLower (by simp) " a\"B ".toList ⟨"x/A\"b.jpg".toList, []⟩

end Ame
