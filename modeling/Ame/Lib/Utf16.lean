import Mathlib

/-!
# UTF-16

Strings as sequences of 16-bit code units: a character of the basic plane is one unit, any other a pair of surrogates. Decoding
fails on a surrogate that stands alone. The two directions are inverse to each other.
-/

namespace Utf16

open List

/-- The code units of a character. -/
def encodeChar (c : Char) : List UInt16 :=
  if c.toNat < 0x10000 then [UInt16.ofNat c.toNat]
  else [UInt16.ofNat (0xD800 + (c.toNat - 0x10000) / 0x400), UInt16.ofNat (0xDC00 + (c.toNat - 0x10000) % 0x400)]

/-- The code units of a string. -/
def encode (cs : List Char) : List UInt16 := cs.flatMap encodeChar

/-- The string that code units stand for, if every surrogate is one of a pair. -/
def decode : List UInt16 → Option (List Char)
  | [] => some []
  | u :: us =>
    if u.toNat < 0xD800 ∨ 0xE000 ≤ u.toNat then (decode us).map (Char.ofNat u.toNat :: ·)
    else
      match us with
      | [] => none
      | v :: vs =>
        if u.toNat < 0xDC00 ∧ 0xDC00 ≤ v.toNat ∧ v.toNat < 0xE000 then
          (decode vs).map (Char.ofNat (0x10000 + (u.toNat - 0xD800) * 0x400 + (v.toNat - 0xDC00)) :: ·)
        else none

@[simp] theorem encode_nil : encode [] = [] := rfl

@[simp] theorem encode_cons (c : Char) (cs : List Char) : encode (c :: cs) = encodeChar c ++ encode cs := rfl

@[simp] theorem encode_append (cs ds : List Char) : encode (cs ++ ds) = encode cs ++ encode ds := flatMap_append

/-- The numbers of characters: below the surrogates, or above them and below the limit. -/
theorem toNat_valid (c : Char) : c.toNat < 0xD800 ∨ 0xE000 ≤ c.toNat ∧ c.toNat < 0x110000 := by
  rcases c.valid with h | ⟨h1, h2⟩
  · exact Or.inl h
  · exact Or.inr ⟨h1, h2⟩

/-- A character is determined by a number it has. -/
theorem toNat_ofNat {n : Nat} (h : n < 0xD800 ∨ 0xE000 ≤ n ∧ n < 0x110000) : (Char.ofNat n).toNat = n := by
  have hv : n.isValidChar := by
    rcases h with h | ⟨h1, h2⟩
    · exact Or.inl h
    · exact Or.inr ⟨h1, h2⟩
  rw [Char.ofNat, dif_pos hv]
  rfl

/-- A unit that is no surrogate is a character. -/
theorem decode_plain {u : UInt16} (h : u.toNat < 0xD800 ∨ 0xE000 ≤ u.toNat) (us : List UInt16) :
    decode (u :: us) = (decode us).map (Char.ofNat u.toNat :: ·) := by
  rw [decode.eq_def]
  simp only [if_pos h]

/-- A pair of surrogates is a character. -/
theorem decode_pair {u v : UInt16} (hu : 0xD800 ≤ u.toNat ∧ u.toNat < 0xDC00) (hv : 0xDC00 ≤ v.toNat ∧ v.toNat < 0xE000)
    (us : List UInt16) : decode (u :: v :: us) =
      (decode us).map (Char.ofNat (0x10000 + (u.toNat - 0xD800) * 0x400 + (v.toNat - 0xDC00)) :: ·) := by
  rw [decode, if_neg (by omega), if_pos ⟨hu.2, hv⟩]

/-- Decoding takes one encoded character off the front. -/
theorem decode_encodeChar_append (c : Char) (us : List UInt16) : decode (encodeChar c ++ us) = (decode us).map (c :: ·) := by
  have hv := toNat_valid c
  unfold encodeChar
  split
  · have hn : (UInt16.ofNat c.toNat).toNat = c.toNat := by simp; omega
    have hp : c.toNat < 0xD800 ∨ 0xE000 ≤ c.toNat := by omega
    rw [singleton_append, decode_plain (by rw [hn]; exact hp), hn, Char.ofNat_toNat]
  · have hh : (UInt16.ofNat (0xD800 + (c.toNat - 0x10000) / 0x400)).toNat = 0xD800 + (c.toNat - 0x10000) / 0x400 := by
      simp; omega
    have hl : (UInt16.ofNat (0xDC00 + (c.toNat - 0x10000) % 0x400)).toNat = 0xDC00 + (c.toNat - 0x10000) % 0x400 := by
      simp; omega
    have hs : 0x10000 + (0xD800 + (c.toNat - 0x10000) / 0x400 - 0xD800) * 0x400 +
        (0xDC00 + (c.toNat - 0x10000) % 0x400 - 0xDC00) = c.toNat := by omega
    rw [cons_append, singleton_append, decode_pair (by omega) (by omega), hh, hl, hs, Char.ofNat_toNat]

/-- Decoding undoes encoding. -/
@[simp] theorem decode_encode (cs : List Char) : decode (encode cs) = some cs := by
  induction cs with
  | nil => rfl
  | cons c cs ih => rw [encode_cons, decode_encodeChar_append, ih, Option.map_some]

/-- Encoding undoes decoding. -/
theorem encode_of_decode {us : List UInt16} {cs : List Char} (h : decode us = some cs) : encode cs = us := by
  fun_induction decode us generalizing cs with
  | case1 =>
    cases h
    rfl
  | case2 u us hp ih =>
    obtain ⟨ds, hds, rfl⟩ := Option.map_eq_some_iff.mp h
    have hlt := u.toNat_lt
    have hn : (Char.ofNat u.toNat).toNat = u.toNat := toNat_ofNat (by omega)
    rw [encode_cons, ih hds, encodeChar, hn, if_pos (by omega)]
    simp
  | case3 => cases h
  | case4 u hp v vs hpa ih =>
    obtain ⟨ds, hds, rfl⟩ := Option.map_eq_some_iff.mp h
    have hn := toNat_ofNat (n := 0x10000 + (u.toNat - 0xD800) * 0x400 + (v.toNat - 0xDC00)) (by omega)
    rw [encode_cons, ih hds, encodeChar, hn, if_neg (by omega)]
    have hh : 0xD800 + (0x10000 + (u.toNat - 0xD800) * 0x400 + (v.toNat - 0xDC00) - 0x10000) / 0x400 = u.toNat := by omega
    have hl : 0xDC00 + (0x10000 + (u.toNat - 0xD800) * 0x400 + (v.toNat - 0xDC00) - 0x10000) % 0x400 = v.toNat := by omega
    rw [hh, hl]
    simp
  | case5 => cases h

/-- A string ends with a character that is no surrogate pair when its code units end with that character's. -/
theorem getLast?_encode_iff {c : Char} (hc : c.toNat < 0xD800) (cs : List Char) :
    (encode cs).getLast? = some (UInt16.ofNat c.toNat) ↔ cs.getLast? = some c := by
  rcases eq_nil_or_concat cs with rfl | ⟨ds, d, rfl⟩
  · simp
  · rw [concat_eq_append, encode_append, encode_cons, encode_nil, append_nil, encodeChar, getLast?_concat]
    split
    · rw [getLast?_concat, Option.some.injEq, Option.some.injEq, ← UInt16.toNat_inj, ← Char.toNat_inj]
      simp only [UInt16.toNat_ofNat']
      omega
    · rw [getLast?_append_cons]
      simp only [getLast?_cons_cons, getLast?_singleton, Option.some.injEq, ← UInt16.toNat_inj, ← Char.toNat_inj,
        UInt16.toNat_ofNat']
      omega

/-- A character takes at most three bytes in UTF-8 for each code unit. -/
theorem utf8Size_le (c : Char) : c.utf8Size ≤ 3 * (encodeChar c).length := by
  unfold encodeChar Char.utf8Size
  split
  · next hlt =>
    have hle : c.val ≤ 65535 := UInt32.le_iff_toNat_le.mpr (Nat.le_of_lt_succ hlt)
    simp only [length_singleton]
    split
    · omega
    split
    · omega
    · exact Nat.le_of_eq (if_pos hle)
  · simp only [length_cons, length_nil]
    split
    · omega
    split
    · omega
    split <;> omega

/-- A text takes at most three bytes in UTF-8 for each code unit. -/
theorem utf8ByteSize_le (s : String) : s.utf8ByteSize ≤ 3 * (encode s.toList).length := by
  suffices h : ∀ cs : List Char, (String.ofList cs).utf8ByteSize ≤ 3 * (encode cs).length by
    have := h s.toList
    rwa [String.ofList_toList] at this
  intro cs
  induction cs with
  | nil => simp
  | cons c cs ih =>
    have hc := utf8Size_le c
    rw [String.ofList_cons, String.utf8ByteSize_append, String.utf8ByteSize_singleton, encode_cons, length_append]
    omega

end Utf16
