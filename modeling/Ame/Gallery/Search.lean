import Ame.Domain.Text
import Mathlib

/-!
# The text filter of the gallery (`sqlite_catalog/gallery/search.rs`)

The filter asks the full-text index for rows that hold trigrams of the text, and the rows for the text itself. A text is its
list of characters.
-/

namespace Ame

/-- `asset_locations`: the columns that the filter reads. -/
structure SearchedRow where
  absolutePath : List Char
  relativePath : List Char
  deriving DecidableEq, Repr

/-- A clause of the query, with its parameters. -/
inductive SearchClause where
  /-- `gallery_search_id IN (SELECT rowid FROM gallery_search_terms WHERE gallery_search_terms MATCH ?)` -/
  | indexed (expression : List Char)
  /-- `instr(lower(absolute_path), lower(?)) > 0 OR instr(lower(relative_path), lower(?)) > 0` -/
  | literal (absolute relative : List Char)
  deriving DecidableEq, Repr

/-- `MAX_INDEXED_TERMS` -/
def maxIndexedTerms : Nat := 64

/-- `str::trim` -/
def trim (text : List Char) : List Char := (text.dropWhile isWhitespace).rdropWhile isWhitespace

/-- `term.replace('"', "\"\"")` -/
def doubleQuotes (term : List Char) : List Char := term.flatMap fun c => if c = '"' then ['"', '"'] else [c]

/-- `format!("\"{}\"", ..)` -/
def quoted (term : List Char) : List Char := '"' :: (doubleQuotes term ++ ['"'])

/-- The loop of `candidate_terms`: the terms it inserts after the characters `first` and `second`. -/
def insertedTerms (stride termCount : Nat) (first second : Char) : Nat → List Char → List (List Char)
  | _, [] => []
  | index, last :: rest =>
    let later := insertedTerms stride termCount second last (index + 1) rest
    if index % stride = 0 ∨ index + 1 = termCount then quoted [first, second, last] :: later else later

/-- `candidate_terms` -/
def candidateTerms : List Char → Option (List Char)
  | first :: second :: third :: rest =>
    let termCount := rest.length + 1
    let stride := (termCount + (maxIndexedTerms - 1) - 1) / (maxIndexedTerms - 1)
    let terms := insertedTerms stride termCount first second 0 (third :: rest)
    if '\x00' ∈ first :: second :: third :: rest then none
    else some (List.intercalate " AND ".toList (terms.toFinset.sort (· ≤ ·)))
  | _ => none

/-- `push_text_filter` -/
def pushTextFilter (text : List Char) : List SearchClause :=
  let search := trim text
  if search = [] then []
  else (candidateTerms search).toList.map .indexed ++ [.literal search search]

/-! ## What the clauses ask -/

/-- A quoted string of a `MATCH` expression after its first quote, and what follows it. -/
def unquote : List Char → Option (List Char × List Char)
  | '"' :: '"' :: rest => (unquote rest).map fun (term, rest) => ('"' :: term, rest)
  | '"' :: rest => some ([], rest)
  | c :: rest => (unquote rest).map fun (term, rest) => (c :: term, rest)
  | [] => none

/-- The strings of a `MATCH` expression that is a conjunction of quoted strings. -/
def matchTerms : Nat → List Char → Option (List (List Char))
  | fuel + 1, '"' :: rest => do
    let (term, rest) ← unquote rest
    if rest = [] then return [term]
    let rest ← rest.dropPrefix? " AND ".toList
    return term :: (← matchTerms fuel rest)
  | _, _ => none

/-- The trigrams of a text. -/
def trigrams : List Char → List (List Char)
  | first :: second :: third :: rest => [first, second, third] :: trigrams (second :: third :: rest)
  | _ => []

variable (fold : Char → Char) (row : SearchedRow)

/-- `gallery_search_terms`: the folded trigrams of both paths. -/
def SearchedRow.index : List (List Char) :=
  trigrams (row.absolutePath.map fold) ++ trigrams (row.relativePath.map fold)

/-- `lower`, which knows the letters of ASCII. -/
def asciiLower (text : List Char) : List Char := text.map Char.toLower

/-- Whether a row satisfies a clause. A string of three characters is one token of the index. -/
def SearchClause.accepts : SearchClause → Bool
  | .indexed expression => (matchTerms expression.length expression).any (·.all fun term => term.map fold ∈ row.index fold)
  | .literal absolute relative =>
    decide (asciiLower absolute <:+: asciiLower row.absolutePath) ||
      decide (asciiLower relative <:+: asciiLower row.relativePath)

end Ame
