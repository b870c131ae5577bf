import Ame.Domain.Text
import Ame.Lib.Bits
import Ame.Lib.Iter
import Ame.Lib.Page
import Mathlib

/-!
# Matching similar images

`domain/similar_images/matching.rs` and `sqlite_catalog/similar_images` (`evidence.rs`, `matching.rs`, `matching/cursor.rs`,
`matching/postings.rs`). Every analysed content has up to eight variants of its perceptual hash. A content is first compared with
the references of the existing groups; if it matches none, with all contents; and if one matches, it becomes the reference of a
new group, whose members are then looked for. The work is done in windows: a window reads at most 128 rows of the index of one of
the four hash words, and its position is stored between windows.

The tables are lists of rows. The variant tables hold what `publish` and `admit_reference` put there, so they are views of the
evidence and of the references. Contents are any type; group identifiers are any linear order, with the empty text of a fresh
cursor at the bottom. Rows without a confirmation hash, which only a migration leaves, are left out, and so are run identifiers.
-/

namespace Ame

/-! ## Hashes -/

/-- One perceptual hash: four words to find candidates by, and 32 bytes to confirm them. -/
structure SimilarVariant where
  candidate : Fin 4 → BitVec 16
  confirmation : Fin 32 → BitVec 8
  deriving DecidableEq

def similarityMaxDistance : Nat := 10

/-- `matching::distance`. -/
def candidateDistance (left right : Fin 4 → BitVec 16) : Nat :=
  ((List.finRange 4).map fun word => Bits.countOnes (left word ^^^ right word)).sum

def confirmedDistance (left right : SimilarVariant) : Option Nat :=
  let candidate := candidateDistance left.candidate right.candidate
  if similarityMaxDistance < candidate then none
  else
    let confirmation :=
      ((List.finRange 32).map fun byte => Bits.countOnes (left.confirmation byte ^^^ right.confirmation byte)).sum
    if confirmation ≤ 44 then some candidate else none

/-- The words that differ in at most two bits, in ascending order. -/
@[irreducible]
def bandNeighbors (word : BitVec 16) : List (BitVec 16) :=
  (word :: (List.range 16).flatMap fun first =>
    (word ^^^ 1#16 <<< first) ::
      ((List.range 16).filter (first < ·)).map fun second => word ^^^ 1#16 <<< first ^^^ 1#16 <<< second).insertionSort
    fun a b => a.toNat ≤ b.toNat

inductive MatchPhase where
  | references | peer | members | complete
  deriving DecidableEq, Repr

/-- The phase after a scan has come to its end. -/
def MatchPhase.exhausted (phase : MatchPhase) (foundReference : Bool) : MatchPhase :=
  match phase with
  | .references => if foundReference then .complete else .peer
  | _ => .complete

/-! ## Tables -/

inductive SimilarEvidence where
  | ready (variants : List SimilarVariant)
  | insufficientStructure
  | decodeFailed (issueCode : String)

def SimilarEvidence.variants : SimilarEvidence → List SimilarVariant
  | .ready variants => variants
  | _ => []

/-- The stored position of the match work of one content. -/
structure MatchWork (Group : Type) where
  evidenceId : Nat
  phase : MatchPhase
  referenceRevision : Nat
  queryVariant : Nat
  band : Nat
  neighbor : Nat
  afterEvidenceId : Nat
  afterGroupId : Group
  afterVariant : Int
  foundReference : Bool
  deriving DecidableEq, Repr

structure EvidenceRow (Content : Type) where
  evidenceId : Nat
  content : Content
  evidence : SimilarEvidence

/-- A row of a variant table: of the contents, or of the references. -/
structure VariantRow (Identity : Type) where
  identity : Identity
  variant : Nat
  hash : SimilarVariant
  deriving DecidableEq

structure SimilarityTables (Content Group : Type) where
  evidence : List (EvidenceRow Content)
  groups : List Group
  references : List (Group × Nat)
  /-- the distance of a member, by group and content -/
  members : Group → Nat → Option Nat
  work : List (MatchWork Group)
  referenceRevision : Nat

/-- `group_id`: the identifier of the group around a content. It is not the empty text. -/
structure GroupNames (Content Group : Type) [LT Group] [Bot Group] where
  groupId : Content → Group
  bot_lt : ∀ content, ⊥ < groupId content

section Tables

variable {Content Group Identity : Type}

/-- The rows of some variants, numbered from zero. -/
def numberVariants (identity : Identity) (variants : List SimilarVariant) : List (VariantRow Identity) :=
  variants.zipIdx.map fun entry => ⟨identity, entry.2, entry.1⟩

section

variable (tables : SimilarityTables Content Group)

/-- The variants of a content. -/
def SimilarityTables.variantsOf (evidenceId : Nat) : List SimilarVariant :=
  ((tables.evidence.find? fun row => row.evidenceId = evidenceId).map (·.evidence.variants)).getD []

/-- `similarity_variants`. -/
def SimilarityTables.variantRows : List (VariantRow Nat) :=
  tables.evidence.flatMap fun row => numberVariants row.evidenceId row.evidence.variants

/-- `similarity_reference_variants`. -/
def SimilarityTables.referenceRows : List (VariantRow Group) :=
  tables.references.flatMap fun reference => numberVariants reference.1 (tables.variantsOf reference.2)

end

end Tables

def similarityCursorInvalid : ScanError :=
  ⟨"similarity_cursor_invalid", "Similarity matching requires a valid bounded continuation"⟩

/-- A statement the database refuses. -/
def similarityDatabaseError : ScanError := ⟨"catalog_database_error", "The catalog database operation failed"⟩

/-! ## The cursor -/

section Cursor

variable {Group : Type} [LinearOrder Group] [OrderBot Group]

section

variable (work : MatchWork Group)

def MatchWork.resetPosting : MatchWork Group :=
  { work with neighbor := 0, afterEvidenceId := 0, afterGroupId := ⊥, afterVariant := -1 }

/-- The band the cursor is at. -/
def MatchWork.bandIndex : Fin 4 :=
  Fin.ofNat 4 work.band

def MatchWork.restart (phase : MatchPhase) : MatchWork Group :=
  { work with phase, queryVariant := 0, band := 0 }.resetPosting

/-- Go to the next word, or to the next variant; `false` if there is none. -/
def MatchWork.nextBand (variants : Nat) : MatchWork Group × Bool :=
  let work := work.resetPosting
  if work.band < 3 then ({ work with band := work.band + 1 }, true)
  else if work.queryVariant + 1 < variants then ({ work with band := 0, queryVariant := work.queryVariant + 1 }, true)
  else ({ work with band := 0 }, false)

/-- What was compared with other references is compared again. -/
def MatchWork.refresh (revision : Nat) : MatchWork Group :=
  if work.phase ≠ .members ∧ work.referenceRevision ≠ revision then
    { work.restart .references with foundReference := false, referenceRevision := revision }
  else work

end

end Cursor

/-! ## Publication -/

section Publish

variable {Content Group : Type} [DecidableEq Content] [LinearOrder Group] [OrderBot Group]

/-- `admit_reference`. -/
def SimilarityTables.admitReference (tables : SimilarityTables Content Group) (evidenceId : Nat) (group : Group) :
    Except ScanError (SimilarityTables Content Group) :=
  if tables.references.any fun reference => reference.1 = group ∨ reference.2 = evidenceId then .error similarityDatabaseError
  else .ok { tables with
    references := tables.references ++ [(group, evidenceId)]
    referenceRevision := tables.referenceRevision + 1 }

/-- The match work of a new content. -/
def initialWork (evidenceId revision : Nat) (phase : MatchPhase) : MatchWork Group :=
  { evidenceId, phase, referenceRevision := revision, queryVariant := 0, band := 0, neighbor := 0, afterEvidenceId := 0,
    afterGroupId := ⊥, afterVariant := -1, foundReference := false }

/-- `evidence::publish`. A content that has evidence keeps it. -/
def publishEvidence (names : GroupNames Content Group) (tables : SimilarityTables Content Group) (content : Content)
    (evidence : SimilarEvidence) : Except ScanError (SimilarityTables Content Group × Bool) :=
  if tables.evidence.any fun row => row.content = content then .ok (tables, false)
  else
    let evidenceId := tables.evidence.length + 1
    let inserted := { tables with evidence := tables.evidence ++ [⟨evidenceId, content, evidence⟩] }
    match evidence with
    | .ready variants =>
      if 8 < variants.length ∨ ¬variants.Nodup then .error similarityDatabaseError
      else if tables.groups.contains (names.groupId content) then
        (inserted.admitReference evidenceId (names.groupId content)).map fun admitted =>
          ({ admitted with work := admitted.work ++ [initialWork evidenceId admitted.referenceRevision .members] }, true)
      else .ok ({ inserted with work := inserted.work ++ [initialWork evidenceId inserted.referenceRevision .references] }, true)
    | _ => .ok (inserted, true)

/-- `publish_member`: the smaller distance is kept. -/
def SimilarityTables.publishMember (tables : SimilarityTables Content Group) (group : Group) (evidenceId distance : Nat) :
    SimilarityTables Content Group :=
  { tables with
    members := fun g e =>
      if g = group ∧ e = evidenceId then
        some (match tables.members group evidenceId with
          | none => distance
          | some stored => min stored distance)
      else tables.members g e }

end Publish

/-! ## Windows -/

section Advance

variable {Content Group Identity : Type} [DecidableEq Content] [LinearOrder Group] [OrderBot Group] [LinearOrder Identity]

/-- `postings::WINDOW_SIZE`. -/
def matchWindowSize : Nat := 128

structure Posting (Group : Type) where
  evidenceId : Nat
  groupId : Group
  variant : Nat
  hash : SimilarVariant

/-- The order of the rows in the index of one word. -/
def indexKey (band : Fin 4) (row : VariantRow Identity) : Nat ×ₗ (Identity ×ₗ Int) :=
  toLex ((row.hash.candidate band).toNat, toLex (row.identity, (row.variant : Int)))

/-- The next rows of a variant table whose word is one of the neighbours. -/
def loadRows (rows : List (VariantRow Identity)) (band : Fin 4) (neighbors : List (BitVec 16))
    (after : Nat ×ₗ (Identity ×ₗ Int)) : List (VariantRow Identity) :=
  Page.page (indexKey band) matchWindowSize after (rows.filter fun row => row.hash.candidate band ∈ neighbors)

/-- `postings::load`. -/
def loadPostings (tables : SimilarityTables Content Group) (work : MatchWork Group) (band : Fin 4)
    (neighbors : List (BitVec 16)) : Except ScanError (List (Posting Group)) :=
  match neighbors[work.neighbor]? with
  | none => .error similarityCursorInvalid
  | some afterWord =>
    if work.phase = .references then
      .ok ((loadRows tables.referenceRows band neighbors
        (toLex (afterWord.toNat, toLex (work.afterGroupId, work.afterVariant)))).map
          fun row => ⟨0, row.identity, row.variant, row.hash⟩)
    else
      .ok ((loadRows tables.variantRows band neighbors
        (toLex (afterWord.toNat, toLex (work.afterEvidenceId, work.afterVariant)))).map
          fun row => ⟨row.identity, ⊥, row.variant, row.hash⟩)

/-- `establish_reference`. -/
def establishReference (names : GroupNames Content Group) (tables : SimilarityTables Content Group) (evidenceId : Nat) :
    Except ScanError (SimilarityTables Content Group × Group) :=
  match tables.evidence.find? fun row => row.evidenceId = evidenceId with
  | none => .error similarityDatabaseError
  | some row =>
    let group := names.groupId row.content
    if tables.groups.contains group then .error similarityDatabaseError
    else ({ tables with groups := tables.groups ++ [group] }.admitReference evidenceId group).map fun admitted =>
      (admitted, group)

/-- `cursor::save`. -/
def SimilarityTables.saveWork (tables : SimilarityTables Content Group) (work : MatchWork Group) :
    SimilarityTables Content Group :=
  { tables with work := tables.work.map fun stored => if stored.evidenceId = work.evidenceId then work else stored }

/-- The cursor after a row. -/
def MatchWork.moveTo (work : MatchWork Group) (neighbors : List (BitVec 16)) (band : Fin 4) (row : Posting Group) :
    MatchWork Group :=
  { work with
    neighbor := neighbors.idxOf (row.hash.candidate band)
    afterEvidenceId := row.evidenceId
    afterGroupId := row.groupId
    afterVariant := row.variant }

/-- What one row that matches by `distance` does. In the peer phase another content makes this one a reference, which ends the
window: the last component says so. -/
def matchRow (names : GroupNames Content Group) (reference : Option Group) (tables : SimilarityTables Content Group)
    (work : MatchWork Group) (row : Posting Group) (distance : Nat) :
    Except ScanError (SimilarityTables Content Group × MatchWork Group × Bool) :=
  match work.phase with
  | .references =>
    .ok (tables.publishMember row.groupId work.evidenceId distance, { work with foundReference := true }, false)
  | .peer =>
    if row.evidenceId ≠ work.evidenceId then
      (establishReference names tables work.evidenceId).map fun established =>
        (established.1.publishMember established.2 work.evidenceId 0, work.restart .members, true)
    else .ok (tables, work, false)
  | .members =>
    match reference with
    | none => .error similarityCursorInvalid
    | some group => .ok (tables.publishMember group row.evidenceId distance, work, false)
  | .complete => .ok (tables, work, false)

/-- The rows of a window. -/
def matchRows (names : GroupNames Content Group) (query : SimilarVariant) (neighbors : List (BitVec 16)) (band : Fin 4)
    (reference : Option Group) : List (Posting Group) → SimilarityTables Content Group → MatchWork Group →
      Except ScanError (SimilarityTables Content Group × MatchWork Group × Bool)
  | [], tables, work => .ok (tables, work, false)
  | row :: rows, tables, work =>
    match confirmedDistance query row.hash with
    | none => matchRows names query neighbors band reference rows tables (work.moveTo neighbors band row)
    | some distance =>
      match matchRow names reference tables work row distance with
      | .error error => .error error
      | .ok (tables, work, true) => .ok (tables, work, true)
      | .ok (tables, work, false) =>
        matchRows names query neighbors band reference rows tables (work.moveTo neighbors band row)

/-- The cursor after all the rows of a window. -/
def MatchWork.finish (work : MatchWork Group) (rows variants : Nat) : MatchWork Group :=
  if rows < matchWindowSize then
    match work.nextBand variants with
    | (work, true) => work
    | (work, false) => work.restart (work.phase.exhausted work.foundReference)
  else work

/-- The pending work with the least evidence identifier. -/
def loadWork (tables : SimilarityTables Content Group) : Option (MatchWork Group) :=
  Iter.minByKey (·.evidenceId) (tables.work.filter fun work => work.phase ≠ .complete)

/-- The group of a reference. -/
def SimilarityTables.referenceGroup (tables : SimilarityTables Content Group) (evidenceId : Nat) : Option Group :=
  (tables.references.find? fun reference => reference.2 = evidenceId).map (·.1)

section

variable (names : GroupNames Content Group) (tables : SimilarityTables Content Group)

/-- A window of the given work. -/
def advanceWork (work : MatchWork Group) : Except ScanError (SimilarityTables Content Group) :=
  match (tables.variantsOf work.evidenceId)[work.queryVariant]? with
  | none => .error similarityCursorInvalid
  | some query =>
    let band := work.bandIndex
    let neighbors := bandNeighbors (query.candidate band)
    match loadPostings tables work band neighbors with
    | .error error => .error error
    | .ok rows =>
      if work.phase = .members ∧ tables.referenceGroup work.evidenceId = none then .error similarityDatabaseError
      else
        match matchRows names query neighbors band (tables.referenceGroup work.evidenceId) rows tables work with
        | .error error => .error error
        | .ok (tables, work, true) => .ok (tables.saveWork work)
        | .ok (after, work, false) =>
          .ok (after.saveWork (work.finish rows.length (tables.variantsOf work.evidenceId).length))

/-- `matching::advance`; the result says whether there was work. -/
def advanceMatching : Except ScanError (SimilarityTables Content Group × Bool) :=
  match loadWork tables with
  | none => .ok (tables, false)
  | some work =>
    if 3 < work.band ∨ 7 < work.queryVariant ∨ 136 < work.neighbor then .error similarityCursorInvalid
    else (advanceWork names tables (work.refresh tables.referenceRevision)).map fun tables => (tables, true)

end

end Advance

end Ame
