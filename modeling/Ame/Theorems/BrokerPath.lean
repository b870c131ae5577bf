import Ame.Lemmas.Path

/-!
# Naming a path relative to its root, and back

A path under a root is stored as the rest of its names with slashes between them, and rebuilt by
appending that text to the root's. The slashes are not turned back into backslashes, so what is rebuilt is the path again
exactly when there are none: when the path lies directly in the root.
-/

namespace Ame

open List Result Separated Utf16

/-! ## The path rebuilt -/

section

variable {drive : Char} {root rest : List (List Char)}

/-- What stands between the root's text and the rest: nothing after a bare drive, which ends in a backslash already. -/
def rootSeparator (root : List (List Char)) : List Char := if root = [] then [] else ['\\']

/-- The text of a path under a root continues the root's text. -/
theorem absoluteText_append (hne : rest ≠ []) :
    absoluteText drive (root ++ rest) = absoluteText drive root ++ rootSeparator root ++ ['\\'].intercalate rest := by
  by_cases hr : root = []
  · simp [absoluteText, rootSeparator, hr]
  · simp [absoluteText, rootSeparator, hr, intercalate_append hr hne]

/-- A root's text ends in a backslash only for a bare drive. -/
theorem getLast?_absoluteText (hn : ∀ n ∈ root, WindowsName n) :
    (absoluteText drive root).getLast? = some '\\' ↔ root = [] := by
  constructor
  · intro h
    by_contra hne
    have hf : ['\\'].intercalate root ≠ [] := fun hx => hne ((intercalate_names_eq_nil hn).mp hx)
    have hl : (['\\'].intercalate root).getLast? = some '\\' := by
      obtain ⟨c, cs, hcs⟩ := exists_cons_of_ne_nil hf
      rw [absoluteText, hcs] at h
      rw [hcs]
      simpa using h
    have hni := nil_mem_splitOn_of_getLast hl
    rw [splitOn_names hn hne] at hni
    exact (hn [] hni).ne_nil rfl
  · rintro rfl
    rfl

/-- The text `join_root_relative` builds over a valid root. -/
theorem joinedPath_eq (hn : ∀ n ∈ root, WindowsName n) (relative : List Char) :
    joinedPath (encode (absoluteText drive root)) (String.ofList relative) =
      encode (absoluteText drive root ++ rootSeparator root ++ relative) := by
  have hl : (encode (absoluteText drive root)).getLast? = some backslashUnit ↔ root = [] :=
    (getLast?_encode_iff (c := '\\') (by decide) (absoluteText drive root)).trans (getLast?_absoluteText hn)
  unfold joinedPath rootSeparator
  rw [String.toList_ofList]
  by_cases hr : root = []
  · rw [if_pos (hl.mpr hr), if_pos hr]
    simp
  · rw [if_neg (fun hx => hr (hl.mp hx)), if_neg hr, encode_append, encode_append]
    rfl

/-- A letter is one code unit. -/
theorem length_encodeChar_of_isAlpha (h : drive.isAlpha = true) : (encodeChar drive).length = 1 := by
  have hlt : drive.toNat < 0x10000 := by
    simp only [Char.isAlpha, Char.isUpper, Char.isLower, Bool.or_eq_true, Bool.and_eq_true, decide_eq_true_eq, ge_iff_le,
      UInt32.le_iff_toNat_le] at h
    rcases h with ⟨_, h⟩ | ⟨_, h⟩
    · exact Nat.lt_of_le_of_lt h (by decide)
    · exact Nat.lt_of_le_of_lt h (by decide)
  simp [encodeChar, hlt]

/-- The length of a text of names does not depend on which of the two separators is written. -/
theorem length_encode_intercalate (rest : List (List Char)) :
    (encode (['/'].intercalate rest)).length = (encode (['\\'].intercalate rest)).length := by
  induction rest with
  | nil => rfl
  | cons n rest ih =>
    cases rest with
    | nil => simp
    | cons m rest =>
      rw [intercalate_cons_cons, intercalate_cons_cons]
      simp only [encode_append, length_append, ih]
      rfl

end

/-! ## The round trip -/

/-- A relative path is valid, and joined to its root it is the path it was taken from. -/
def RoundTrips (root : List UInt16) (relative : String) (path : NormalizedWindowsPath) : Prop :=
  validateRelativePath relative = .ok () ∧
    ∃ joined, joinRootRelative root relative = .ok joined ∧ normalizeAbsolutePath joined = .ok path

/-- A path named relative to its root is found again exactly when it lies directly in the root. -/
theorem root_relative_roundTrips_iff {ordinalEquals : OrdinalEquals}
    {path root : List UInt16} {p r : NormalizedWindowsPath} {s : String} (hp : normalizeAbsolutePath path = .ok p)
    (hr : normalizeAbsolutePath root = .ok r)
    (hs : scopeUnderRoot ordinalEquals p r (List.replicate r.components.length .ordinalCaseSensitive) =
      .ok (some (.relative s))) :
    RoundTrips root s p ↔ p.components.length = r.components.length + 1 := by
  obtain ⟨dp, names, hdp, hna, hde, rfl, hle, rfl⟩ := normalizeAbsolutePath_iff.mp hp
  obtain ⟨dr, rootNames, hdr, hro, _, rfl, _, rfl⟩ := normalizeAbsolutePath_iff.mp hr
  obtain ⟨hdri, rest, hne, rfl, rfl⟩ := scopeUnderRoot_relative hs
  have hre : ∀ n ∈ rest, WindowsName n := fun n hn => hna n (mem_append_right _ hn)
  -- the drive's letter is one unit whichever case it is in
  have hl' : (encode (absoluteText dr (rootNames ++ rest))).length ≤ maxPathUtf16Units := by
    have h1 := length_encodeChar_of_isAlpha hdp
    have h2 := length_encodeChar_of_isAlpha hdr
    simp only [absoluteText, encode_cons, length_append, h1, h2] at hle ⊢
    exact hle
  have hta : (encode (['/'].intercalate rest)).length ≤ maxPathUtf16Units := by
    rw [length_encode_intercalate]
    rw [absoluteText_append hne, encode_append, length_append] at hl'
    omega
  have hv := validateRelativePath_names hre hne (by rw [length_append] at hde; omega) hta
  have hj : joinedPath (encode (absoluteText dr rootNames)) _ = _ := joinedPath_eq hro (['/'].intercalate rest)
  have hc : (rootNames ++ rest).length = rootNames.length + 1 ↔ rest.length = 1 := by
    rw [length_append]
    omega
  simp only [length_map, hc]
  constructor
  · rintro ⟨-, joined, hjo, -⟩
    by_contra hl
    have htw : 2 ≤ rest.length := by
      have := length_pos_iff.mpr hne
      omega
    -- the slash of the rest is in the joined text, and no text with a slash is accepted
    unfold joinRootRelative at hjo
    simp only [hj] at hjo
    split at hjo
    · cases hjo
    split at hjo
    · rename_i n hn
      obtain ⟨d, ns, hd, hns, -, ht, -, -⟩ := normalizeAbsolutePath_iff.mp hn
      have heq := encode_injective ht
      have hsl : '/' ∈ absoluteText d ns := by
        rw [← heq]
        exact mem_append_right _ (sep_mem_intercalate htw)
      exact (not_mem_absoluteText hd hns).1 hsl
    · cases hjo
  · intro ho
    obtain ⟨n, rfl⟩ := length_eq_one_iff.mp ho
    have ht : joinedPath (encode (absoluteText dr rootNames)) (String.ofList (['/'].intercalate [n])) =
        encode (absoluteText dr (rootNames ++ [n])) := by
      rw [hj, absoluteText_append hne, intercalate_singleton, intercalate_singleton]
    have hno : normalizeAbsolutePath (encode (absoluteText dr (rootNames ++ [n]))) =
        .ok ⟨dp.toUpper, (rootNames ++ [n]).map pathComponent⟩ :=
      normalizeAbsolutePath_iff.mpr ⟨dr, rootNames ++ [n], hdr, hna, hde, rfl, hl', by rw [hdri]⟩
    refine ⟨hv, _, ?_, hno⟩
    unfold joinRootRelative
    simp only [ht, hno]
    rw [if_neg (by omega)]

/-- The code units of a text. -/
def utf16Text (text : String) : List UInt16 := Utf16.encode text.toList

/-- A root directory, normalized. -/
def photosRoot : NormalizedWindowsPath := ⟨'C', ["photos".toList].map pathComponent⟩

/-- A system that has no comparison without regard to case. -/
def noOrdinalEquals (_ _ : List UInt16) : Except WireError Bool := .error .nameComparisonUnavailable

/-- A file directly in the root is found again. -/
theorem root_relative_roundTrips_iff_child :
    RoundTrips (utf16Text "C:\\photos") "a.jpg" ⟨'C', ["photos".toList, "a.jpg".toList].map pathComponent⟩ ↔
      (["photos".toList, "a.jpg".toList].map pathComponent).length = photosRoot.components.length + 1 :=
  root_relative_roundTrips_iff (show normalizeAbsolutePath (utf16Text "C:\\photos\\a.jpg") = .ok _ by decide +kernel)
    (show normalizeAbsolutePath _ = .ok photosRoot by decide +kernel)
    (show scopeUnderRoot noOrdinalEquals _ _ _ = .ok _ by decide +kernel)

/-- A file one directory further down is not: its relative path joins to a text with a slash, which is refused. -/
theorem root_relative_not_roundTrips : normalizeAbsolutePath (utf16Text "C:\\photos\\2024\\a.jpg") =
        .ok ⟨'C', ["photos".toList, "2024".toList, "a.jpg".toList].map pathComponent⟩ ∧
      normalizeAbsolutePath (utf16Text "C:\\photos") = .ok photosRoot ∧
      scopeUnderRoot noOrdinalEquals ⟨'C', ["photos".toList, "2024".toList, "a.jpg".toList].map pathComponent⟩ photosRoot
        [.ordinalCaseSensitive] = .ok (some (.relative "2024/a.jpg")) ∧
      ¬RoundTrips (utf16Text "C:\\photos") "2024/a.jpg"
        ⟨'C', ["photos".toList, "2024".toList, "a.jpg".toList].map pathComponent⟩ := by
  refine ⟨by decide +kernel, by decide +kernel, by decide +kernel, ?_⟩
  rintro ⟨-, joined, hj, -⟩
  have hr : joinRootRelative (utf16Text "C:\\photos") "2024/a.jpg" = .error .recordUnsupported := by decide +kernel
  rw [hr] at hj
  cases hj

end Ame
