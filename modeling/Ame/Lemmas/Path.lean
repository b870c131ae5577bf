import Ame.Broker.Path
import Ame.Lib.Result
import Ame.Lib.Separated

/-!
# Paths as drives and names

`normalize_absolute_path` accepts exactly the texts `X:\` followed by valid names with backslashes between them
(`normalizeAbsolutePath_iff`), and the rest of such a path under a root, with slashes between the names, is a valid relative
path.
-/

namespace Ame

open List Result Separated Utf16

/-! ## The texts that are accepted -/

/-- A name that may stand between the backslashes of a path. -/
structure WindowsName (name : List Char) : Prop where
  valid : validateComponent (String.ofList name) = .ok ()
  noBackslash : '\\' ∉ name
  noSlash : '/' ∉ name

/-- The text of a drive and its names. -/
def absoluteText (drive : Char) (names : List (List Char)) : List Char := drive :: ':' :: '\\' :: ['\\'].intercalate names

section

variable {name : List Char} {names : List (List Char)} {comps : List PathComponent} {p : NormalizedWindowsPath}

/-- What a valid name is not and does not hold. -/
theorem validateComponent_ok (h : validateComponent (String.ofList name) = .ok ()) :
    name ≠ [] ∧ ∀ c ∈ name, isForbiddenInName c = false := by
  unfold validateComponent at h
  split at h
  · cases h
  · rename_i hn
    simp only [String.toList_ofList, Bool.or_eq_true, not_or, Bool.not_eq_true, any_eq_false] at hn
    exact ⟨by simpa using hn.1.1.1.1.1, hn.1.2⟩

/-- A name is not empty. -/
theorem WindowsName.ne_nil (h : WindowsName name) : name ≠ [] := (validateComponent_ok h.valid).1

/-- A name holds no zero character. -/
theorem WindowsName.noZero (h : WindowsName name) : '\x00' ∉ name := by
  intro h0
  exact absurd ((validateComponent_ok h.valid).2 _ h0) (by decide)

/-- The names are read back from their text. -/
theorem splitOn_names (hna : ∀ n ∈ names, WindowsName n) (hne : names ≠ []) : (['\\'].intercalate names).splitOn '\\' = names :=
  splitOn_intercalate '\\' (fun n hn => (hna n hn).noBackslash) hne

/-- The text of the names is empty only if there are none. -/
theorem intercalate_names_eq_nil {sep : Char} (hna : ∀ n ∈ names, WindowsName n) :
    [sep].intercalate names = [] ↔ names = [] := by
  constructor
  · intro h
    cases names with
    | nil => rfl
    | cons n ns =>
      have hn := (hna n (by simp)).ne_nil
      cases ns with
      | nil => simp [hn] at h
      | cons m ms => simp at h
  · rintro rfl
    rfl

/-- The loop over the names succeeds when every name is valid. -/
theorem mapM_validate_iff {raw : List (List Char)} : (raw.mapM fun name => do
        validateComponent (String.ofList name)
        return pathComponent name) = (.ok comps : Except WireError (List PathComponent)) ↔
      (∀ n ∈ raw, validateComponent (String.ofList n) = .ok ()) ∧ comps = raw.map pathComponent := by
  have hr : ∀ (n : List Char) (c : PathComponent),
      (do validateComponent (String.ofList n); return pathComponent n : Except WireError PathComponent) = .ok c ↔
        validateComponent (String.ofList n) = .ok () ∧ c = pathComponent n := by
    intro n c
    cases validateComponent (String.ofList n) with
    | error e => simp [bind, Except.bind]
    | ok u => simp [bind, Except.bind, pure, Except.pure, eq_comm]
  rw [mapM_ok_iff]
  simp only [hr]
  constructor
  · intro h
    induction h with
    | nil => simp
    | cons hc _ ih => exact ⟨forall_mem_cons.mpr ⟨hc.1, ih.1⟩, by rw [hc.2, ih.2, map_cons]⟩
  · rintro ⟨hv, rfl⟩
    rw [List.forall₂_map_right_iff, List.forall₂_same]
    exact fun n hn => ⟨hv n hn, rfl⟩

/-- `normalize_remainder` accepts the names and no others. -/
theorem normalizeRemainder_iff {remainder : List Char} (hs : '/' ∉ remainder) : normalizeRemainder remainder = .ok comps ↔
      ∃ names, (∀ n ∈ names, WindowsName n) ∧ names.length ≤ maxPathDepth ∧ remainder = ['\\'].intercalate names ∧
        comps = names.map pathComponent := by
  unfold normalizeRemainder
  constructor
  · intro h
    split at h
    · rename_i he
      refine ⟨[], by simp, by simp, by simpa using he, ?_⟩
      simpa [eq_comm] using h
    · simp only at h
      split at h
      · cases h
      · rename_i hr
        simp only [Bool.or_eq_true, not_or, Bool.not_eq_true, decide_eq_false_iff_not, Nat.not_lt] at hr
        obtain ⟨hv, rfl⟩ := mapM_validate_iff.mp h
        exact ⟨remainder.splitOn '\\', fun n hn => ⟨hv n hn, not_mem_of_mem_splitOn hn,
          fun hx => hs (mem_of_mem_splitOn hn hx)⟩, hr.2, by simp, rfl⟩
  · rintro ⟨names, hna, hd, rfl, rfl⟩
    by_cases hne : names = []
    · simp [hne]
    · have hp := splitOn_names hna hne
      have hni : names.any (·.isEmpty) = false := by
        simpa using fun n hn => (hna n hn).ne_nil
      rw [if_neg (by simpa using fun h => hne ((intercalate_names_eq_nil hna).mp h))]
      simp only [hp, hni, Bool.false_or, decide_eq_true_eq, Nat.not_lt.mpr hd, if_false]
      exact mapM_validate_iff.mpr ⟨fun n hn => (hna n hn).valid, rfl⟩

/-- The text of a drive and valid names holds neither a slash nor a zero character. -/
theorem not_mem_absoluteText {drive : Char} (hd : drive.isAlpha = true) (hna : ∀ n ∈ names, WindowsName n) :
    '/' ∉ absoluteText drive names ∧ '\x00' ∉ absoluteText drive names := by
  have hin : ∀ x, x ∈ absoluteText drive names → x = drive ∨ x = ':' ∨ x = '\\' ∨ ∃ n ∈ names, x ∈ n := by
    intro x hx
    simp only [absoluteText, mem_cons] at hx
    rcases hx with hx | hx | hx | hx
    · exact Or.inl hx
    · exact Or.inr (Or.inl hx)
    · exact Or.inr (Or.inr (Or.inl hx))
    · exact Or.inr (Or.inr (mem_intercalate hx))
  constructor
  · intro hx
    rcases hin _ hx with rfl | hx | hx | ⟨n, hn, hx⟩
    · revert hd; decide
    · revert hx; decide
    · revert hx; decide
    · exact (hna n hn).noSlash hx
  · intro hx
    rcases hin _ hx with rfl | hx | hx | ⟨n, hn, hx⟩
    · revert hd; decide
    · revert hx; decide
    · revert hx; decide
    · exact (hna n hn).noZero hx

/-- The decoded texts that are accepted. -/
theorem normalizeDecoded_iff {decoded : List Char} : normalizeDecoded decoded = .ok p ↔
      ∃ drive names, drive.isAlpha = true ∧ (∀ n ∈ names, WindowsName n) ∧ names.length ≤ maxPathDepth ∧
        decoded = absoluteText drive names ∧ p = ⟨drive.toUpper, names.map pathComponent⟩ := by
  constructor
  · intro h
    unfold normalizeDecoded at h
    split at h
    · cases h
    rename_i hch
    simp only [contains_eq_mem, Bool.or_eq_true, decide_eq_true_eq, not_or] at hch
    split at h
    · cases h
    split at h
    · cases h
    rename_i drive rest hd
    split at h
    · split at h
      · cases h
      · rename_i remainder _
        obtain ⟨comps, hc, h⟩ := bind_ok h
        have hs : '/' ∉ remainder := fun hx => hch.2 (by simp [hx])
        obtain ⟨names, hn, hde, rfl, rfl⟩ := (normalizeRemainder_iff hs).mp hc
        exact ⟨drive, names, by simpa using hd, hn, hde, rfl, (Except.ok.inj h).symm⟩
    · cases h
  · rintro ⟨drive, names, hd, hn, hde, rfl, rfl⟩
    obtain ⟨hs, hz⟩ := not_mem_absoluteText hd hn
    have hr : '/' ∉ ['\\'].intercalate names := fun hx => hs (by simp [absoluteText, hx])
    have he : ∀ c, (['\\'].intercalate names).head? = some c ∨ (['\\'].intercalate names).getLast? = some c → c ≠ '\\' := by
      rintro c hc rfl
      have hni : [] ∈ (['\\'].intercalate names).splitOn '\\' := by
        rcases hc with hc | hc
        · exact nil_mem_splitOn_of_head hc
        · exact nil_mem_splitOn_of_getLast hc
      by_cases hne : names = []
      · simp [hne] at hc
      · rw [splitOn_names hn hne] at hni
        exact (hn [] hni).ne_nil rfl
    have hco := (normalizeRemainder_iff hr).mpr ⟨names, hn, hde, rfl, rfl⟩
    have hh : ((['\\'].intercalate names).head? == some '\\') = false := by
      simpa using fun hx => he _ (Or.inl hx) rfl
    have hl : ((['\\'].intercalate names).getLast? == some '\\') = false := by
      simpa using fun hx => he _ (Or.inr hx) rfl
    unfold normalizeDecoded
    rw [if_neg (by simpa using ⟨hz, hs⟩)]
    simp only [absoluteText, hd, hh, hl, hco, Bool.not_true, Bool.or_self, Bool.false_eq_true, if_false]
    rfl

/-- `normalize_absolute_path` accepts the text of a drive and valid names, and keeps both. -/
theorem normalizeAbsolutePath_iff {path : List UInt16} : normalizeAbsolutePath path = .ok p ↔
      ∃ drive names, drive.isAlpha = true ∧ (∀ n ∈ names, WindowsName n) ∧ names.length ≤ maxPathDepth ∧
        path = encode (absoluteText drive names) ∧ path.length ≤ maxPathUtf16Units ∧
        p = ⟨drive.toUpper, names.map pathComponent⟩ := by
  unfold normalizeAbsolutePath
  constructor
  · intro h
    split at h
    · cases h
    rename_i hl
    simp only [Bool.or_eq_true, decide_eq_true_eq, not_or, Nat.not_lt] at hl
    split at h
    · cases h
    · rename_i decoded hd
      obtain ⟨drive, names, h1, h2, h3, rfl, h5⟩ := normalizeDecoded_iff.mp h
      exact ⟨drive, names, h1, h2, h3, (encode_of_decode hd).symm, hl.2, h5⟩
  · rintro ⟨drive, names, h1, h2, h3, rfl, h4, h5⟩
    have hne : (encode (absoluteText drive names)).isEmpty = false := by
      simp [absoluteText, encodeChar]
    rw [if_neg (by simpa [hne] using h4), decode_encode]
    exact normalizeDecoded_iff.mpr ⟨drive, names, h1, h2, h3, rfl, h5⟩

end

/-! ## The rest of a path under a root -/

section

variable {oeq : OrdinalEquals} {root rest : List (List Char)} {names : List (List Char)}

/-- Names are told apart by their code units. -/
theorem encode_injective {a b : List Char} (h : encode a = encode b) : a = b := by
  have hd := decode_encode a
  rw [h, decode_encode] at hd
  exact (Option.some.inj hd).symm

/-- Compared case by case, the components match when the root's names come first. -/
theorem componentsMatch_ordinal_iff (hl : root.length ≤ names.length) :
    componentsMatch oeq (names.map pathComponent) (root.map pathComponent)
      (List.replicate root.length .ordinalCaseSensitive) = .ok true ↔ root <+: names := by
  induction root generalizing names with
  | nil => simp [componentsMatch]
  | cons r root ih =>
    match names, hl with
    | n :: names, hl =>
      have hl' : root.length ≤ names.length := by simpa using hl
      rw [length_cons, replicate_succ, cons_prefix_cons, ← ih hl']
      by_cases h : n = r
      · simp [componentsMatch, componentEquals, pathComponent, h, bind, Except.bind]
      · have hne : encode n ≠ encode r := fun hx => h (encode_injective hx)
        simp [componentsMatch, componentEquals, pathComponent, hne, Ne.symm h, bind, Except.bind, pure, Except.pure]

/-- A relative scope is what follows the root's names, with slashes. -/
theorem scopeUnderRoot_relative {dp dr : Char} {s : String}
    (h : scopeUnderRoot oeq ⟨dp, names.map pathComponent⟩ ⟨dr, root.map pathComponent⟩
      (List.replicate (root.map pathComponent).length .ordinalCaseSensitive) = .ok (some (.relative s))) :
    dp = dr ∧ ∃ rest, rest ≠ [] ∧ names = root ++ rest ∧ s = String.ofList (['/'].intercalate rest) := by
  unfold scopeUnderRoot at h
  rw [if_neg (by simp)] at h
  split at h
  · cases h
  rename_i hin
  simp only [length_map, not_or, not_not, Nat.not_lt] at hin
  obtain ⟨hdr, hl⟩ := hin
  obtain ⟨b, hb, h⟩ := bind_ok h
  cases b with
  | false => cases h
  | true =>
    rw [length_map] at hb
    obtain ⟨rest, rfl⟩ := (componentsMatch_ordinal_iff hl).mp hb
    simp only [if_true] at h
    split at h
    · cases h
    · rename_i hne
      refine ⟨hdr, rest, ?_, rfl, ?_⟩
      · rintro rfl
        simp at hne
      · have hd : ((rest.map pathComponent).map fun c => c.display.toList) = rest := by
          rw [map_map]
          exact (map_congr_left fun n _ => by simp [pathComponent]).trans (map_id _)
        have hs := Except.ok.inj h
        rw [map_append, length_map, drop_left' (length_map _), hd] at hs
        exact (RootRelativeScope.relative.inj (Option.some.inj hs)).symm

/-- The loop over the components passes when every name is valid and there are not too many. -/
theorem validateRelativeComponents_ok (hn : ∀ n ∈ names, WindowsName n) (depth : Nat)
    (h : depth + names.length ≤ maxPathDepth) : validateRelativeComponents depth (names.map String.ofList) = .ok () := by
  induction names generalizing depth with
  | nil => rfl
  | cons n names ih =>
    rw [length_cons] at h
    rw [map_cons, validateRelativeComponents, (hn n (by simp)).valid, if_neg (by omega)]
    exact ih (fun m hm => hn m (mem_cons_of_mem _ hm)) (depth + 1) (by omega)

/-- Names with slashes between them are a valid relative path. -/
theorem validateRelativePath_names (hna : ∀ n ∈ rest, WindowsName n) (hne : rest ≠ []) (hd : rest.length ≤ maxPathDepth)
    (hl : (encode (['/'].intercalate rest)).length ≤ maxPathUtf16Units) :
    validateRelativePath (String.ofList (['/'].intercalate rest)) = .ok () := by
  have hp : (['/'].intercalate rest).splitOn '/' = rest :=
    splitOn_intercalate '/' (fun n hn => (hna n hn).noSlash) hne
  have hf : [] ∉ (['/'].intercalate rest).splitOn '/' := by
    rw [hp]
    exact fun hx => (hna [] hx).ne_nil rfl
  have hb : '\\' ∉ ['/'].intercalate rest := by
    intro hx
    rcases mem_intercalate hx with hx | ⟨n, hn, hx⟩
    · revert hx; decide
    · exact (hna n hn).noBackslash hx
  unfold validateRelativePath
  rw [if_neg]
  · simpa only [split, String.toList_ofList, hp] using validateRelativeComponents_ok hna 0 (by omega)
  · simp only [startsWith, contains, String.toList_ofList, Bool.or_eq_true, not_or, decide_eq_true_eq, beq_iff_eq, Nat.not_lt,
      contains_eq_mem, List.isEmpty_iff]
    exact ⟨⟨⟨⟨⟨fun hx => hne ((intercalate_names_eq_nil hna).mp hx), hl⟩, fun hx => hf (nil_mem_splitOn_of_head hx)⟩,
      fun hx => hf (nil_mem_splitOn_of_getLast hx)⟩, fun hx => hf (nil_mem_splitOn_of_double hx)⟩, hb⟩

end

end Ame
