import Mathlib

/-!
# Strings, numbers and errors

The operations on strings the code takes from its standard library, under the standard library's names, the error value that every
fallible operation returns, and the range of the numbers the database stores.
-/

namespace Ame

/-- The error of a fallible operation: a stable code and a text for the reader. -/
structure ScanError where
  code : String
  message : String
  deriving DecidableEq, Repr

/-- The characters `trim` removes: those with the Unicode property White_Space. -/
def isWhitespace (c : Char) : Bool :=
  (0x9 ≤ c.toNat && c.toNat ≤ 0xD) || c.toNat == 0x20 || c.toNat == 0x85 || c.toNat == 0xA0 || c.toNat == 0x1680 ||
    (0x2000 ≤ c.toNat && c.toNat ≤ 0x200A) || c.toNat == 0x2028 || c.toNat == 0x2029 || c.toNat == 0x202F ||
    c.toNat == 0x205F || c.toNat == 0x3000

/-- `s.trim().is_empty()`: nothing is left of the string once white space is trimmed. -/
def trimIsEmpty (s : String) : Bool := s.toList.all isWhitespace

/-- `s.split(c)`: the pieces between the occurrences of a character. -/
def split (c : Char) (s : String) : List String := (s.toList.splitOn c).map String.ofList

/-- `s.strip_prefix(p)`: what follows the prefix, if the string starts with it. -/
def stripPrefix (s p : String) : Option String := (s.toList.dropPrefix? p.toList).map String.ofList

/-- `s.starts_with(c)` -/
def startsWith (s : String) (c : Char) : Bool := s.toList.head? == some c

/-- `s.contains(c)` -/
def contains (s : String) (c : Char) : Bool := s.toList.contains c

/-- The largest number a column can hold. -/
def i64Max : Nat := 2 ^ 63 - 1

/-- `sqlite_integer` -/
def sqliteInteger (value : Nat) (field : String) : Except ScanError Nat :=
  if value ≤ i64Max then .ok value
  else .error ⟨"catalog_integer_overflow", "The " ++ field ++ " exceeds the SQLite integer range"⟩

/-- A statement that returns no row where one is asked for. -/
def queryReturnedNoRows : ScanError := ⟨"catalog_database_error", "Query returned no rows"⟩

end Ame
