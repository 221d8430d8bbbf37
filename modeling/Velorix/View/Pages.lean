import Velorix.Delta.Consolidated
import Velorix.Foundation.Paging
import Velorix.Storage.Digest
import Velorix.View.Epoch

/-!
Snapshot pages of published outputs.

Outputs whose rows all have weight one are paged by key, the others as bags of copies. A page is
modelled by the values of its rows, in the order of the columns. Tokens are read back as they were
written: the nesting that the reader of JSON refuses (128 levels) is not modelled.
-/

namespace Velorix.View

open Json Delta Result List

structure SnapshotPageRequest where
  committedEpoch : Option UInt64
  pageToken : Option String
  maxRows : Option ℕ

inductive SnapshotPageError
  | unavailableCommittedEpoch (requested current : UInt64)
  | runtime (error : RuntimeError)
  /-- An unchecked operation on machine words fails. -/
  | overflow

abbrev SnapshotPage := Except SnapshotPageError (OutputBatch × Option String)

/-- How JSON texts are read, and a binary search for the end of the rows that meet a condition:
the row it stops at fails it, and the one before meets it. -/
structure PageFormat where
  readJson : String → Option Value
  readJson_canonicalJson : ∀ value, readJson (String.ofList (canonicalJson value)) = some value
  partitionPoint : (DeltaRecord → Bool) → List DeltaRecord → ℕ
  stops : ∀ meets rows, ∀ row ∈ rows[partitionPoint meets rows]?, meets row = false
  passes : ∀ meets rows n, partitionPoint meets rows = n + 1 → ∃ row ∈ rows[n]?, meets row = true

theorem ofU64_lo (n : UInt64) : -2 ^ 63 ≤ (n.toNat : ℤ) := by omega

theorem ofU64_hi (n : UInt64) : (n.toNat : ℤ) < 2 ^ 64 := by exact_mod_cast n.toNat_lt

def ofU64 (n : UInt64) : Value :=
  ⟨.number (.int n.toNat (ofU64_lo n) (ofU64_hi n)), rfl⟩

def readU64 (value : Value) : Option UInt64 :=
  match value.tree with
  | .number (.int i _ _) => if 0 ≤ i then some (UInt64.ofNat i.toNat) else none
  | _ => none

def PageFormat.readTuple (format : PageFormat) (token : String) : Option (List Value) :=
  (format.readJson token).bind Value.asArray

def tupleText (fields : List Value) : String := String.ofList (canonicalJson (.array fields))

def pageError : SnapshotPageError := .runtime invalidRuntimeState

def invalidMaxRows : SnapshotPageError :=
  .runtime (.invalidProgramIdentity "snapshot_page.max_rows")

def orRuntime {α : Type} (result : Except RuntimeError α) : Except SnapshotPageError α :=
  result.mapError .runtime

variable (format : PageFormat) (epoch : UInt64) (page : SnapshotPageRequest) (arrow : ArrowFormat)
  (schema : RelationSchema)

def checkCommittedEpoch : Except SnapshotPageError Unit :=
  match page.committedEpoch with
  | some requested =>
    if requested ≠ epoch then .error (.unavailableCommittedEpoch requested epoch) else .ok ()
  | none => .ok ()

def netRowsOf (output : DeltaBatch) : Except SnapshotPageError (List DeltaRecord) :=
  output.netRows.mapError fun _ => pageError

def keyEncoding (key : Value) : List Char := encodeKvOrdered key .null

def resumeAfter (rows : List DeltaRecord) : Except SnapshotPageError (List DeltaRecord) :=
  match page.pageToken with
  | none => .ok rows
  | some token =>
    match format.readJson token with
    | none => .error pageError
    | some key => .ok (rows.drop (format.partitionPoint
        (fun row => keyEncoding row.key ≤ keyEncoding key) rows))

/-- The part that the three functions below have in common, which convert their rows each in its
own way. -/
def keyedPage (convert : DeltaBatch → Except RuntimeError OutputBatch) (rows : List DeltaRecord) :
    SnapshotPage := do
  let rows ← resumeAfter format page rows
  let limit := page.maxRows.getD rows.length
  if page.maxRows = some 0 then .error invalidMaxRows
  else
    let taken := rows.take limit
    let nextPageToken := if rows.length > limit then
      taken.getLast?.map fun row => String.ofList (canonicalJson row.key) else none
    let batch ← orRuntime (convert ⟨taken⟩)
    return (batch, nextPageToken)

def materializedDeltaPageBatch (output : DeltaBatch)
    (aggregates : List (SortedMap String Value → Except RuntimeError Value)) : SnapshotPage := do
  checkCommittedEpoch epoch page
  keyedPage format page (materializedDeltaToRecordBatch arrow schema · aggregates)
    (← netRowsOf output)

def materializedTumblingDeltaPageBatch (output : DeltaBatch)
    (aggregates : List (SortedMap String Value → Except RuntimeError Value)) : SnapshotPage := do
  checkCommittedEpoch epoch page
  keyedPage format page (materializedTumblingDeltaToRecordBatch arrow schema · aggregates)
    (← netRowsOf output)

/-- One past the largest `usize`. -/
def usizeBound : ℕ := 2 ^ 64

def checkedAddUsize (a b : ℕ) : Except SnapshotPageError ℕ :=
  if a + b < usizeBound then .ok (a + b) else .error pageError

def addUsize (a b : ℕ) : Except SnapshotPageError ℕ :=
  if a + b < usizeBound then .ok (a + b) else .error .overflow

def subUsize (a b : ℕ) : Except SnapshotPageError ℕ :=
  if b ≤ a then .ok (a - b) else .error .overflow

/-- `usize::try_from` of a weight. -/
def copiesOf (row : DeltaRecord) : Except SnapshotPageError ℕ :=
  if 0 ≤ row.weight.val then .ok row.weight.val.toNat else .error pageError

def totalCopies (rows : List DeltaRecord) : Except SnapshotPageError ℕ :=
  rows.foldlM (fun total row => do
    let copies ← copiesOf row
    if copies = 0 then .error pageError else checkedAddUsize total copies) 0

def fieldOf (value : Value) (column : ColumnSchema) : Option Value :=
  value.asObject.bind (·.find? column.name)

def primaryKeyOf (row : DeltaRecord) (column : ColumnSchema) : Option Value :=
  if schema.primaryKey = [column.name] then some row.key else none

/-- Where a bag looks for the value of a column. -/
def bagColumnValue (row : DeltaRecord) (column : ColumnSchema) : Option Value :=
  ((fieldOf row.key column).or (primaryKeyOf schema row column)).or (fieldOf row.value column)

/-- Where other outputs look for it. -/
def outputColumnValue (row : DeltaRecord) (column : ColumnSchema) : Option Value :=
  ((fieldOf row.value column).or (fieldOf row.key column)).or (primaryKeyOf schema row column)

section Slices
variable (columnValue : DeltaRecord → ColumnSchema → Option Value)

def columnValues (row : DeltaRecord) : Except RuntimeError (List Value) :=
  schema.columns.mapM fun column => orMissing (columnValue row column)

/-- The columns of a row are looked up only if the slice has a copy of it. -/
def takenCopies (row : DeltaRecord) (take : ℕ) : Except SnapshotPageError OutputBatch :=
  if take > 0 then do
    return List.replicate take (← orRuntime (columnValues schema columnValue row))
  else return []

/-- The loop of `materialized_bag_canonical_rows_batch` and of
`materialized_canonical_output_rows_batch`. -/
def sliceFrom (offset stop position : ℕ) : List DeltaRecord →
    Except SnapshotPageError OutputBatch
  | [] => .ok []
  | row :: rows => do
    let copies ← copiesOf row
    let next ← checkedAddUsize position copies
    let taken ← takenCopies schema columnValue row (min next stop - max position offset)
    if next ≥ stop then return taken
    return taken ++ (← sliceFrom offset stop next rows)

def canonicalRowsBatch (rows : List DeltaRecord) (offset count : ℕ) :
    Except SnapshotPageError OutputBatch := do
  let values ← sliceFrom schema columnValue offset (← checkedAddUsize offset count) 0 rows
  orRuntime (buildArrays arrow schema.columns values)
  return values

end Slices

def materializedBagCanonicalRowsBatch (rows : List DeltaRecord) (offset count : ℕ) :
    Except SnapshotPageError OutputBatch :=
  canonicalRowsBatch arrow schema (bagColumnValue schema) rows offset count

def materializedCanonicalOutputRowsBatch (rows : List DeltaRecord) (offset count : ℕ) :
    Except SnapshotPageError OutputBatch :=
  canonicalRowsBatch arrow schema (outputColumnValue schema) rows offset count

def bagToken (epoch : UInt64) (stop : ℕ) : String := tupleText [ofU64 epoch, ofU64 (.ofNat stop)]

def bagOffset (token : Option String) : Except SnapshotPageError ℕ :=
  match token with
  | none => .ok 0
  | some token =>
    match format.readTuple token with
    | some [tokenEpoch, offset] =>
      match readU64 tokenEpoch, readU64 offset with
      | some tokenEpoch, some offset =>
        if tokenEpoch ≠ epoch then .error pageError else .ok offset.toNat
      | _, _ => .error pageError
    | _ => .error pageError

def materializedBagDeltaPageBatch (output : DeltaBatch) : SnapshotPage := do
  checkCommittedEpoch epoch page
  if page.maxRows = some 0 then .error pageError
  let offset ← bagOffset format epoch page.pageToken
  let rows ← netRowsOf output
  let total ← totalCopies rows
  if offset > total then .error pageError
  let stop := min (min (offset + page.maxRows.getD total) (usizeBound - 1)) total
  let batch ← materializedBagCanonicalRowsBatch arrow schema rows offset (← subUsize stop offset)
  return (batch, if stop < total then some (bagToken epoch stop) else none)

def isBag (rows : List DeltaRecord) : Bool := rows.any (·.weight.val ≠ 1)

def bagLead : String := "velorix-bag:"

def schemaBagToken (schema : String) (epoch : UInt64) (stop : ℕ) : String :=
  bagLead ++ tupleText [.string schema, ofU64 epoch, ofU64 (.ofNat stop)]

def schemaBagOffset (schemaFingerprint : String) (total : ℕ) (token : Option String) :
    Except SnapshotPageError ℕ :=
  match token with
  | none => .ok 0
  | some token =>
    match (Storage.stripPrefix bagLead token).bind format.readTuple with
    | some [schema, tokenEpoch, offset] =>
      match schema.asStr, readU64 tokenEpoch, readU64 offset with
      | some schema, some tokenEpoch, some offset =>
        if schema ≠ schemaFingerprint ∨ tokenEpoch ≠ epoch ∨ offset.toNat ≥ total then
          .error pageError
        else .ok offset.toNat
      | _, _, _ => .error pageError
    | _ => .error pageError

def materializedGenericDeltaPageBatch (output : DeltaBatch) : SnapshotPage := do
  checkCommittedEpoch epoch page
  let rows ← netRowsOf output
  if isBag rows then
    let total ← totalCopies rows
    let offset ← schemaBagOffset format epoch schema.schemaFingerprint total page.pageToken
    let limit := page.maxRows.getD total
    if limit = 0 then .error invalidMaxRows
    let count := min limit (← subUsize total offset)
    let stop ← addUsize offset count
    let batch ← materializedCanonicalOutputRowsBatch arrow schema rows offset count
    return (batch, if stop < total then
      some (schemaBagToken schema.schemaFingerprint epoch stop) else none)
  else keyedPage format page (materializedGenericDeltaToRecordBatch arrow schema) rows

/-- The request for a page at the epoch of the output, which it may name. -/
def pageRequest (named : Bool) (token : Option String) (size : ℕ) : SnapshotPageRequest :=
  ⟨if named then some epoch else none, token, some size⟩

def expanded (rows : List DeltaRecord) : List DeltaRecord :=
  rows.flatMap fun row => List.replicate row.weight.val.toNat row

variable {format epoch page arrow schema} {rows : List DeltaRecord} {output : DeltaBatch}

@[simp]
theorem readTuple_tupleText (format : PageFormat) (fields : List Value) :
    format.readTuple (tupleText fields) = some fields := by
  rw [PageFormat.readTuple, tupleText, format.readJson_canonicalJson, Option.bind_some,
    Value.asArray_array]

@[simp]
theorem readU64_ofU64 (n : UInt64) : readU64 (ofU64 n) = some n := by
  simp [readU64, ofU64]

variable {tokenEpoch : UInt64} {offset : ℕ}

theorem bagOffset_bagToken (format : PageFormat)
    (hfits : offset < usizeBound) :
    bagOffset format epoch (some (bagToken tokenEpoch offset)) =
      if tokenEpoch ≠ epoch then .error pageError else .ok offset := by
  simp only [bagOffset, bagToken, readTuple_tupleText, readU64_ofU64]
  rw [UInt64.toNat_ofNat_of_lt' hfits]

theorem schemaBagOffset_schemaBagToken (format : PageFormat) {schema tokenSchema : String}
    {total : ℕ} (hfits : offset < usizeBound) :
    schemaBagOffset format epoch schema total
        (some (schemaBagToken tokenSchema tokenEpoch offset)) =
      if tokenSchema ≠ schema ∨ tokenEpoch ≠ epoch ∨ offset ≥ total then .error pageError
      else .ok offset := by
  simp only [schemaBagOffset, schemaBagToken, Storage.stripPrefix_append, Option.bind_some,
    readTuple_tupleText, readU64_ofU64, Value.asStr_string]
  rw [UInt64.toNat_ofNat_of_lt' hfits]

@[simp]
theorem checkCommittedEpoch_pageRequest (named : Bool) (t : Option String) (size : ℕ) :
    checkCommittedEpoch epoch (pageRequest epoch named t size) = .ok () := by
  cases named <;> simp [checkCommittedEpoch, pageRequest]

theorem checkCommittedEpoch_error {error : SnapshotPageError}
    (h : checkCommittedEpoch epoch page = .error error) : error ≠ .overflow := by
  unfold checkCommittedEpoch at h
  split at h
  · split_ifs at h
    cases h
    nofun
  · cases h

theorem totalCopies_eq (hpos : ∀ row ∈ rows, 0 < row.weight.val)
    (hfits : (expanded rows).length < usizeBound) :
    totalCopies rows = .ok (expanded rows).length := by
  have hf (total : ℕ) (hfits : total + (expanded rows).length < usizeBound) :
      rows.foldlM (fun total row => do
        let copies ← copiesOf row
        if copies = 0 then .error pageError else checkedAddUsize total copies) total =
        .ok (total + (expanded rows).length) := by
    induction rows generalizing total with
    | nil => rfl
    | cons row rows ih =>
      obtain ⟨hr, hpos⟩ := forall_mem_cons.mp hpos
      have hl : (expanded (row :: rows)).length =
          row.weight.val.toNat + (expanded rows).length := by simp [expanded]
      have hc : row.weight.val.toNat ≠ 0 := by omega
      rw [hl, ← add_assoc] at hfits ⊢
      rw [foldlM_cons, copiesOf, if_pos hr.le, ok_bind, if_neg hc,
        checkedAddUsize, if_pos (by omega), ok_bind, ih hpos (by omega) _ hfits]
  simpa [totalCopies] using hf 0 (by simpa using hfits)

/-- What an array is built of, arrays are built of part by part: values are converted one by
one. -/
def ArrowFormat.Partwise (arrow : ArrowFormat) : Prop :=
  ∀ column values part, List.Sublist part values → arrow.builds column values = true →
    arrow.builds column part = true

theorem ArrowFormat.Partwise.buildArrays (harrow : arrow.Partwise) {columns : List ColumnSchema}
    {values part : OutputBatch} (hpart : List.Sublist part values)
    (h : View.buildArrays arrow columns values = .ok ()) :
    View.buildArrays arrow columns part = .ok () := by
  refine forM_ok fun column hcolumn => ?_
  have hok := of_forM_ok h hcolumn
  obtain ⟨column, index⟩ := column
  have hsub : List.Sublist (part.filterMap (·[index]?)) (values.filterMap (·[index]?)) :=
    hpart.filterMap _
  simp only [outputColumnValueArray] at hok ⊢
  split_ifs at hok with hnull hbuilds
  rw [if_neg, if_pos (harrow _ _ _ hsub hbuilds)]
  simp only [Bool.and_eq_true, any_eq_true, not_and, not_exists] at hnull ⊢
  exact fun hn v hv => hnull hn v (hsub.subset hv)

variable {columnValue : DeltaRecord → ColumnSchema → Option Value}
  {values : DeltaRecord → List Value}

/-- The rows have a value in every column, and arrays can be built of all their copies. -/
structure Converts (arrow : ArrowFormat) (schema : RelationSchema)
    (columnValue : DeltaRecord → ColumnSchema → Option Value) (rows : List DeltaRecord)
    (values : DeltaRecord → List Value) : Prop where
  found : ∀ row ∈ rows, columnValues schema columnValue row = .ok (values row)
  built : buildArrays arrow schema.columns ((expanded rows).map values) = .ok ()

theorem sliceFrom_eq {stop position : ℕ} (hpos : ∀ row ∈ rows, 0 < row.weight.val)
    (hvalues : ∀ row ∈ rows, columnValues schema columnValue row = .ok (values row))
    (hfits : position + (expanded rows).length < usizeBound) (hle : position ≤ stop) :
    sliceFrom schema columnValue offset stop position rows =
      .ok ((((expanded rows).map values).take (stop - position)).drop (offset - position)) := by
  induction rows generalizing position with
  | nil => simp [sliceFrom, expanded]
  | cons row rows ih =>
    obtain ⟨hr, hpos⟩ := forall_mem_cons.mp hpos
    obtain ⟨hv, hvalues⟩ := forall_mem_cons.mp hvalues
    have hcons : (expanded (row :: rows)).map values =
        List.replicate row.weight.val.toNat (values row) ++ (expanded rows).map values := by
      simp [expanded]
    have hlen : (expanded (row :: rows)).length =
        row.weight.val.toNat + (expanded rows).length := by simp [expanded]
    rw [hlen] at hfits
    have htaken (take : ℕ) : takenCopies schema columnValue row take =
        .ok (List.replicate take (values row)) := by
      rw [takenCopies, hv]
      rcases take with _ | take <;> rfl
    rw [sliceFrom, copiesOf, if_pos hr.le, ok_bind, checkedAddUsize, if_pos (by omega), ok_bind,
      htaken, ok_bind, hcons, take_append, drop_append, take_replicate, drop_replicate,
      length_replicate, length_replicate]
    generalize hc : row.weight.val.toNat = copies at hfits ⊢
    have ht : min (position + copies) stop - max position offset =
        min (stop - position) copies - (offset - position) := by omega
    split_ifs with hs
    · simp [ht, show stop - position - copies = 0 by omega]
    · rw [ih hpos hvalues (by omega) (by omega), ht]
      simp [Nat.sub_sub]
      omega

theorem canonicalRowsBatch_eq {count : ℕ} (harrow : arrow.Partwise)
    (hc : Converts arrow schema columnValue rows values) (hpos : ∀ row ∈ rows, 0 < row.weight.val)
    (hfits : (expanded rows).length < usizeBound) (hle : offset + count ≤ (expanded rows).length) :
    canonicalRowsBatch arrow schema columnValue rows offset count =
      .ok ((((expanded rows).map values).drop offset).take count) := by
  rw [canonicalRowsBatch, checkedAddUsize, if_pos (by omega), ok_bind,
    sliceFrom_eq hpos hc.found (by omega) (by omega), ok_bind, Nat.sub_zero, Nat.sub_zero,
    drop_take, Nat.add_sub_cancel_left,
    harrow.buildArrays ((take_sublist ..).trans (drop_sublist ..)) hc.built]
  rfl

variable {size : ℕ}

theorem length_expanded_pos (hpos : ∀ row ∈ rows, 0 < row.weight.val) (hbag : isBag rows = true) :
    0 < (expanded rows).length := by
  obtain ⟨row, hr, -⟩ := any_eq_true.mp hbag
  refine length_pos_of_mem (a := row) (mem_flatMap.mpr ⟨row, hr, ?_⟩)
  exact mem_replicate.mpr ⟨by have := hpos row hr; omega, rfl⟩

section Bags

variable (harrow : arrow.Partwise) (hrows : output.netRows = .ok rows)
  (hpos : ∀ row ∈ rows, 0 < row.weight.val) (hfits : (expanded rows).length < usizeBound)

include harrow hrows hpos hfits

variable {offset : ℕ}

theorem bagPage_eq_slice (hc : Converts arrow schema (bagColumnValue schema) rows values)
    (he : checkCommittedEpoch epoch page = .ok ())
    (hm : page.maxRows ≠ some 0) (ht : bagOffset format epoch page.pageToken = .ok offset)
    (ho : offset ≤ (expanded rows).length) :
    materializedBagDeltaPageBatch format epoch page arrow schema output =
      .ok (Paging.slice ((expanded rows).map values) (fun offset => bagToken epoch offset) offset
        (page.maxRows.getD (expanded rows).length)) := by
  have hs (size : ℕ) : min (min (offset + size) (usizeBound - 1)) (expanded rows).length =
      min (offset + size) (expanded rows).length := by omega
  rw [materializedBagDeltaPageBatch, he, Paging.slice_eq, length_map]
  simp only [ok_bind, ht, netRowsOf, hrows, Except.mapError, totalCopies_eq hpos hfits,
    hs, hm, if_false, not_lt.mpr ho]
  rw [subUsize, if_pos (by omega), ok_bind, materializedBagCanonicalRowsBatch,
    canonicalRowsBatch_eq harrow hc hpos hfits (by omega)]
  rfl

theorem genericPage_eq_slice (hc : Converts arrow schema (outputColumnValue schema) rows values)
    (hbag : isBag rows = true) (he : checkCommittedEpoch epoch page = .ok ())
    (hm : page.maxRows ≠ some 0)
    (ht : schemaBagOffset format epoch schema.schemaFingerprint (expanded rows).length
      page.pageToken = .ok offset)
    (ho : offset < (expanded rows).length) :
    materializedGenericDeltaPageBatch format epoch page arrow schema output =
      .ok (Paging.slice ((expanded rows).map values)
        (fun offset => schemaBagToken schema.schemaFingerprint epoch offset) offset
        (page.maxRows.getD (expanded rows).length)) := by
  have hl : page.maxRows.getD (expanded rows).length ≠ 0 := by
    cases hsize : page.maxRows with
    | none => exact (offset.zero_le.trans_lt ho).ne'
    | some size => simpa [hsize] using hm
  rw [materializedGenericDeltaPageBatch, he, Paging.slice_eq, length_map]
  simp only [ok_bind, netRowsOf, hrows, Except.mapError, hbag, if_true,
    totalCopies_eq hpos hfits, ht, hl, if_false]
  generalize page.maxRows.getD (expanded rows).length = size
  have hcount : min size ((expanded rows).length - offset) =
      min (offset + size) (expanded rows).length - offset := by omega
  rw [subUsize, if_pos ho.le, ok_bind, hcount, addUsize, if_pos (by omega), ok_bind,
    materializedCanonicalOutputRowsBatch, canonicalRowsBatch_eq harrow hc hpos hfits (by omega),
    show offset + (min (offset + size) (expanded rows).length - offset) =
      min (offset + size) (expanded rows).length by omega]
  rfl

theorem bagPage_answers (hc : Converts arrow schema (bagColumnValue schema) rows values)
    (format : PageFormat) (epoch : UInt64) (page : SnapshotPageRequest) :
    (∃ offset answer, bagOffset format epoch page.pageToken = .ok offset ∧
      materializedBagDeltaPageBatch format epoch page arrow schema output = .ok answer) ∨
    ∃ error, error ≠ .overflow ∧
      materializedBagDeltaPageBatch format epoch page arrow schema output = .error error := by
  have ht : ∀ error, bagOffset format epoch page.pageToken = .error error → error = pageError := by
    unfold bagOffset
    grind
  cases he : checkCommittedEpoch epoch page with
  | error error =>
    exact .inr ⟨error, checkCommittedEpoch_error he, by
      rw [materializedBagDeltaPageBatch, he]; rfl⟩
  | ok =>
    by_cases hm : page.maxRows = some 0
    · exact .inr ⟨pageError, nofun, by simp [materializedBagDeltaPageBatch, he, hm]⟩
    · cases ho : bagOffset format epoch page.pageToken with
      | error error =>
        exact .inr ⟨pageError, nofun, by
          simp [materializedBagDeltaPageBatch, he, hm, ho, ht error ho]⟩
      | ok offset =>
        rcases le_or_gt offset (expanded rows).length with hle | hlt
        · exact .inl ⟨offset, _, rfl, bagPage_eq_slice harrow hrows hpos hfits hc he hm ho hle⟩
        · exact .inr ⟨pageError, nofun, by
            simp [materializedBagDeltaPageBatch, he, hm, ho, netRowsOf, hrows,
              Except.mapError, totalCopies_eq hpos hfits, hlt]⟩

theorem genericPage_answers (hc : Converts arrow schema (outputColumnValue schema) rows values)
    (format : PageFormat) (epoch : UInt64) (page : SnapshotPageRequest)
    (hbag : isBag rows = true) :
    (∃ offset answer,
      schemaBagOffset format epoch schema.schemaFingerprint (expanded rows).length
        page.pageToken = .ok offset ∧
      materializedGenericDeltaPageBatch format epoch page arrow schema output = .ok answer) ∨
    ∃ error, error ≠ .overflow ∧
      materializedGenericDeltaPageBatch format epoch page arrow schema output = .error error := by
  have ht : ∀ error, schemaBagOffset format epoch schema.schemaFingerprint
      (expanded rows).length page.pageToken =
      .error error → error = pageError := by
    unfold schemaBagOffset
    grind
  have hb : ∀ offset, schemaBagOffset format epoch schema.schemaFingerprint (expanded rows).length
      page.pageToken = .ok offset → offset < (expanded rows).length := by
    have := length_expanded_pos hpos hbag
    unfold schemaBagOffset
    grind
  cases he : checkCommittedEpoch epoch page with
  | error error =>
    exact .inr ⟨error, checkCommittedEpoch_error he, by
      rw [materializedGenericDeltaPageBatch, he]; rfl⟩
  | ok =>
    cases ho : schemaBagOffset format epoch schema.schemaFingerprint (expanded rows).length
      page.pageToken with
    | error error =>
      exact .inr ⟨pageError, nofun, by
        simp [materializedGenericDeltaPageBatch, he, netRowsOf, hrows, Except.mapError, hbag,
          totalCopies_eq hpos hfits, ho, ht error ho]⟩
    | ok offset =>
      by_cases hm : page.maxRows = some 0
      · exact .inr ⟨invalidMaxRows, nofun, by
          simp [materializedGenericDeltaPageBatch, he, netRowsOf, hrows, Except.mapError, hbag,
            totalCopies_eq hpos hfits, ho, hm]⟩
      · exact .inl ⟨offset, _, rfl,
          genericPage_eq_slice harrow hrows hpos hfits hc hbag he hm ho (hb offset ho)⟩

end Bags

/-- The pages of a bag, in the two forms that outputs have. -/
structure BagPagesExact (format : PageFormat) (epoch : UInt64) (arrow : ArrowFormat)
    (schema : RelationSchema) (output : DeltaBatch) (rows : List DeltaRecord)
    (bagValues outputValues : DeltaRecord → List Value) : Prop where
  bag : ∀ named, Paging.Exact (fun token size => materializedBagDeltaPageBatch format epoch
    (pageRequest epoch named token size) arrow schema output) ((expanded rows).map bagValues)
  generic : isBag rows = true → ∀ named, Paging.Exact (fun token size =>
    materializedGenericDeltaPageBatch format epoch (pageRequest epoch named token size) arrow
      schema output) ((expanded rows).map outputValues)
  bag_token : ∀ page tokenEpoch offset, offset < usizeBound → tokenEpoch ≠ epoch →
    page.pageToken = some (bagToken tokenEpoch offset) →
    ∃ error, materializedBagDeltaPageBatch format epoch page arrow schema output = .error error
  generic_token : isBag rows = true → ∀ page tokenSchema tokenEpoch offset,
    offset < usizeBound → tokenSchema ≠ schema.schemaFingerprint ∨ tokenEpoch ≠ epoch →
    page.pageToken = some (schemaBagToken tokenSchema tokenEpoch offset) →
    ∃ error, materializedGenericDeltaPageBatch format epoch page arrow schema output = .error error
  no_overflow : ∀ page,
    materializedBagDeltaPageBatch format epoch page arrow schema output ≠ .error .overflow ∧
    (isBag rows = true →
      materializedGenericDeltaPageBatch format epoch page arrow schema output ≠ .error .overflow)

/-- Pages of a bag whose rows convert show each copy of each row once, in the order of the net
rows. -/
theorem bagPages_exact (format : PageFormat) (epoch : UInt64) (harrow : arrow.Partwise)
    (hrows : output.netRows = .ok rows) (hpos : ∀ row ∈ rows, 0 < row.weight.val)
    (hfits : (expanded rows).length < usizeBound) {bagValues outputValues : DeltaRecord → List Value}
    (hbagValues : Converts arrow schema (bagColumnValue schema) rows bagValues)
    (houtputValues : Converts arrow schema (outputColumnValue schema) rows outputValues) :
    BagPagesExact format epoch arrow schema output rows bagValues outputValues := by
  have hsize {size : ℕ} (h : 1 ≤ size) : some size ≠ some 0 := by simp; omega
  constructor
  · intro named
    refine Paging.exact_of_slice (fun offset => bagToken epoch offset)
      (fun size h => ?_) fun offset size _ hlt h => ?_
    · exact bagPage_eq_slice harrow hrows hpos hfits hbagValues
        (checkCommittedEpoch_pageRequest ..) (hsize h) rfl (Nat.zero_le _)
    · rw [length_map] at hlt
      exact bagPage_eq_slice harrow hrows hpos hfits hbagValues
        (checkCommittedEpoch_pageRequest ..) (hsize h)
        (by simp [pageRequest, bagOffset_bagToken format (hlt.trans hfits)]) hlt.le
  · intro hbag named
    refine Paging.exact_of_slice
      (fun offset => schemaBagToken schema.schemaFingerprint epoch offset)
      (fun size h => ?_) fun offset size _ hlt h => ?_
    · exact genericPage_eq_slice harrow hrows hpos hfits houtputValues hbag
        (checkCommittedEpoch_pageRequest ..) (hsize h) rfl
        (length_expanded_pos hpos hbag)
    · rw [length_map] at hlt
      exact genericPage_eq_slice harrow hrows hpos hfits houtputValues hbag
        (checkCommittedEpoch_pageRequest ..) (hsize h)
        (by simp [pageRequest, schemaBagOffset_schemaBagToken format (hlt.trans hfits), hlt]) hlt
  · intro page tokenEpoch offset hoff hne htoken
    rcases bagPage_answers harrow hrows hpos hfits hbagValues format epoch page with
      ⟨_, _, hoffset, -⟩ | ⟨error, -, h⟩
    · simp [htoken, bagOffset_bagToken format hoff, hne] at hoffset
    · exact ⟨error, h⟩
  · intro hbag page tokenSchema tokenEpoch offset hoff hne htoken
    rcases genericPage_answers harrow hrows hpos hfits houtputValues format epoch page hbag with
      ⟨_, _, hoffset, -⟩ | ⟨error, -, h⟩
    · simp only [htoken, schemaBagOffset_schemaBagToken format hoff] at hoffset
      grind
    · exact ⟨error, h⟩
  · refine fun page => ⟨?_, fun hbag => ?_⟩
    · rcases bagPage_answers harrow hrows hpos hfits hbagValues format epoch page with
        ⟨_, _, -, h⟩ | ⟨error, hne, h⟩ <;> simp [*]
    · rcases genericPage_answers harrow hrows hpos hfits houtputValues format epoch page hbag with
        ⟨_, _, -, h⟩ | ⟨error, hne, h⟩ <;> simp [*]

def keyToken (rows : List DeltaRecord) (offset : ℕ) : String :=
  match rows[offset - 1]? with
  | some row => String.ofList (canonicalJson row.key)
  | none => ""

/-- The conversions of a whole output have this in common. -/
def batchOf (arrow : ArrowFormat) (columns : List ColumnSchema)
    (rowValues : DeltaRecord → Except RuntimeError (List Value)) (output : DeltaBatch) :
    Except RuntimeError OutputBatch := do
  let rows ← orInvalidState output.netRows
  let rows ← rows.mapM rowValues
  buildArrays arrow columns rows
  return rows

/-- A part of the net rows of a batch that converts, converts to that part of its values. -/
theorem batchOf_part {columns : List ColumnSchema} {batch : OutputBatch}
    {rowValues : DeltaRecord → Except RuntimeError (List Value)} (harrow : arrow.Partwise)
    (hrows : output.netRows = .ok rows) (h : batchOf arrow columns rowValues output = .ok batch) :
    batch.length = rows.length ∧ ∀ offset size,
      batchOf arrow columns rowValues ⟨(rows.drop offset).take size⟩ =
        .ok ((batch.drop offset).take size) := by
  simp only [batchOf, hrows, orInvalidState, Except.mapError, ok_bind] at h
  obtain ⟨values, hvalues, h⟩ := bind_eq_ok.mp h
  obtain ⟨⟨⟩, hbuilt, h⟩ := bind_eq_ok.mp h
  cases h
  have hall := mapM_eq_ok.mp hvalues
  refine ⟨hall.length_eq.symm, fun offset size => ?_⟩
  have hsub {α : Type} (xs : List α) : List.Sublist ((xs.drop offset).take size) xs :=
    (take_sublist ..).trans (drop_sublist ..)
  have hcons := DeltaBatch.consolidated_netRows hrows
  have hnet : (DeltaBatch.mk ((rows.drop offset).take size)).netRows = .ok _ :=
    DeltaBatch.Consolidated.netRows ⟨hcons.ascending.sublist (hsub rows),
      fun row hrow => hcons.nonzero row ((hsub rows).subset hrow)⟩
  have hpart : ((rows.drop offset).take size).mapM rowValues = .ok _ :=
    mapM_eq_ok.mpr (forall₂_take _ (forall₂_drop _ hall))
  simp only [batchOf, hnet, orInvalidState, Except.mapError, ok_bind, hpart,
    harrow.buildArrays (hsub batch) hbuilt, pure_eq_ok]

/-- The outputs that are paged by key, with the aggregates of their rows. -/
inductive KeyedOutput
  | delta (aggregates : List (SortedMap String Value → Except RuntimeError Value))
  | tumbling (aggregates : List (SortedMap String Value → Except RuntimeError Value))
  | generic

namespace KeyedOutput

def toRecordBatch (arrow : ArrowFormat) (schema : RelationSchema) (kind : KeyedOutput)
    (output : DeltaBatch) : Except RuntimeError OutputBatch :=
  match kind with
  | delta aggregates => materializedDeltaToRecordBatch arrow schema output aggregates
  | tumbling aggregates => materializedTumblingDeltaToRecordBatch arrow schema output aggregates
  | generic => materializedGenericDeltaToRecordBatch arrow schema output

def pageBatch (format : PageFormat) (epoch : UInt64) (page : SnapshotPageRequest)
    (arrow : ArrowFormat) (schema : RelationSchema) (kind : KeyedOutput) (output : DeltaBatch) :
    SnapshotPage :=
  match kind with
  | delta aggregates => materializedDeltaPageBatch format epoch page arrow schema output aggregates
  | tumbling aggregates =>
    materializedTumblingDeltaPageBatch format epoch page arrow schema output aggregates
  | generic => materializedGenericDeltaPageBatch format epoch page arrow schema output

/-- What converts passes the checks of the schema. -/
theorem toRecordBatch_eq_batchOf {kind : KeyedOutput} {batch : OutputBatch}
    (h : kind.toRecordBatch arrow schema output = .ok batch) :
    ∃ columns rowValues, ∀ part,
      kind.toRecordBatch arrow schema part = batchOf arrow columns rowValues part := by
  cases kind with
  | delta aggregates =>
    simp only [toRecordBatch, materializedDeltaToRecordBatch] at h ⊢
    split_ifs at h with hlen
    exact ⟨_, _, fun part => by rw [if_neg hlen]; rfl⟩
  | tumbling aggregates =>
    simp only [toRecordBatch, materializedTumblingDeltaToRecordBatch] at h ⊢
    split at h
    · split_ifs at h with hlen
      exact ⟨_, _, fun part => by rw [if_neg hlen]; rfl⟩
    · cases h
  | generic =>
    simp only [toRecordBatch, materializedGenericDeltaToRecordBatch] at h ⊢
    cases hcolumns : schema.columns with
    | nil =>
      rw [hcolumns] at h
      obtain ⟨_, -, h⟩ := bind_eq_ok.mp h
      cases h
    | cons keyColumn valueColumns => exact ⟨_, _, fun part => rfl⟩

theorem pageBatch_eq_keyedPage (kind : KeyedOutput) (hrows : output.netRows = .ok rows)
    (hones : ∀ row ∈ rows, row.weight.val = 1) (named : Bool) (token : Option String) (size : ℕ) :
    kind.pageBatch format epoch (pageRequest epoch named token size) arrow schema output =
      keyedPage format (pageRequest epoch named token size) (kind.toRecordBatch arrow schema)
        rows := by
  have hbag : isBag rows = false := by simpa [isBag] using hones
  cases kind <;>
    simp [pageBatch, materializedDeltaPageBatch, materializedTumblingDeltaPageBatch,
      materializedGenericDeltaPageBatch, checkCommittedEpoch_pageRequest, netRowsOf, hrows,
      Except.mapError, hbag] <;>
    rfl

end KeyedOutput

section Keyed
variable {named : Bool} {convert : DeltaBatch → Except RuntimeError OutputBatch}
  {batch : OutputBatch} (hlen : batch.length = rows.length)
  (hconvert : ∀ offset size,
    convert ⟨(rows.drop offset).take size⟩ = .ok ((batch.drop offset).take size))

include hlen hconvert

theorem keyedPage_eq_slice {t : Option String} (hsize : 1 ≤ size)
    (h : resumeAfter format (pageRequest epoch named t size) rows = .ok (rows.drop offset)) :
    keyedPage format (pageRequest epoch named t size) convert rows =
      .ok (Paging.slice batch (keyToken rows) offset size) := by
  have hz : size ≠ 0 := by omega
  rw [keyedPage, h, ok_bind]
  simp only [pageRequest, Option.getD_some, Option.some.injEq, hz, if_false, Paging.slice,
    length_drop, hconvert, orRuntime, Except.mapError, ok_bind, pure_eq_ok, hlen]
  refine congrArg (fun token => Except.ok (_, token)) ?_
  split_ifs with hm hlt hlt
  · have hl : ((rows.drop offset).take size).getLast? = rows[offset + size - 1]? := by
      rw [getLast?_eq_getElem?, length_take, length_drop, getElem?_take,
        getElem?_drop, if_pos (by omega)]
      congr 1
      omega
    have hr := getElem?_eq_getElem (show offset + size - 1 < rows.length by omega)
    simp [hl, keyToken, hr]
  · omega
  · omega
  · rfl

omit hlen hconvert

/-- Where the search for the key of a row stops. -/
def resumePoint (format : PageFormat) (rows : List DeltaRecord) (row : DeltaRecord) : ℕ :=
  format.partitionPoint (fun other => keyEncoding other.key ≤ keyEncoding row.key) rows

variable {i : ℕ}

theorem resumeAfter_keyToken (hi : i < rows.length) :
    resumeAfter format (pageRequest epoch named (some (keyToken rows (i + 1))) size) rows =
      .ok (rows.drop (resumePoint format rows rows[i])) := by
  simp [resumeAfter, pageRequest, keyToken, hi, format.readJson_canonicalJson, resumePoint]

theorem resumePoint_le (row : DeltaRecord) : resumePoint format rows row ≤ rows.length := by
  have hp := format.passes (fun other => keyEncoding other.key ≤ keyEncoding row.key) rows
  rw [← resumePoint] at hp
  cases hk : resumePoint format rows row with
  | zero => exact Nat.zero_le _
  | succ n =>
    obtain ⟨_, hr, -⟩ := hp n hk
    exact (List.getElem?_eq_some_iff.mp hr).choose

theorem resumePoint_eq (hinc : rows.Pairwise fun a b => keyEncoding a.key < keyEncoding b.key)
    (hi : i < rows.length) : resumePoint format rows rows[i] = i + 1 := by
  have hs := format.stops (fun other => keyEncoding other.key ≤ keyEncoding rows[i].key) rows
  have hp := format.passes (fun other => keyEncoding other.key ≤ keyEncoding rows[i].key) rows
  rw [← resumePoint] at hs hp
  rw [pairwise_iff_getElem] at hinc
  rcases lt_trichotomy (resumePoint format rows rows[i]) (i + 1) with hlt | heq | hgt
  · have hk : resumePoint format rows rows[i] < rows.length := by omega
    have hf := hs _ (getElem?_eq_getElem hk)
    rcases (Nat.lt_succ_iff.mp hlt).eq_or_lt with heq | hlt
    · simp [heq] at hf
    · exact absurd (hinc _ _ hk hi hlt).le (by simpa using hf)
  · exact heq
  · obtain ⟨n, hn⟩ := Nat.exists_eq_succ_of_ne_zero
      (show resumePoint format rows rows[i] ≠ 0 by omega)
    obtain ⟨row, hr, hle⟩ := hp n hn
    obtain ⟨hl, rfl⟩ := List.getElem?_eq_some_iff.mp hr
    exact absurd (hinc i n hi hl (by omega)) (by simpa using hle)

include hlen hconvert

/-- Pages by key are exact just when the keys go up with the rows. -/
theorem keyedPage_exact_iff :
    Paging.Exact (fun t size => keyedPage format (pageRequest epoch named t size) convert rows)
      batch ↔ rows.Pairwise fun a b => keyEncoding a.key < keyEncoding b.key := by
  constructor
  · intro he
    refine isChain_iff_pairwise.mp (isChain_iff_getElem.mpr fun i hi => ?_)
    -- a page that ends with row `i`, and one for all the rest
    obtain ⟨pages, t, hf, hpages, -⟩ := he [i + 1, rows.length] (by simp)
      (by simp; omega)
    have hfirst : keyedPage format (pageRequest epoch named none (i + 1)) convert rows =
        .ok (Paging.slice batch (keyToken rows) 0 (i + 1)) :=
      keyedPage_eq_slice hlen hconvert (by omega) rfl
    have hsecond : keyedPage format
        (pageRequest epoch named (some (keyToken rows (i + 1))) rows.length) convert rows =
        .ok (Paging.slice batch (keyToken rows) (resumePoint format rows rows[i]) rows.length) :=
      keyedPage_eq_slice hlen hconvert (by omega) (resumeAfter_keyToken (by omega))
    have hs := format.stops (fun other => keyEncoding other.key ≤ keyEncoding rows[i].key) rows
    rw [← resumePoint] at hs
    have hb : resumePoint format rows rows[i] ≤ rows.length := resumePoint_le _
    generalize resumePoint format rows rows[i] = k at hsecond hs hb
    simp [Paging.follow, hfirst, hsecond, Paging.slice, hlen, hi] at hf
    obtain ⟨rfl, -⟩ := hf
    have hk : k = i + 1 := by
      have hl := congrArg List.length hpages
      simp at hl
      omega
    subst hk
    simpa using hs _ (getElem?_eq_getElem hi)
  · intro hinc
    refine Paging.exact_of_slice (keyToken rows) (fun size hsize => ?_)
      fun offset size hpos hlt hsize => ?_
    · exact keyedPage_eq_slice hlen hconvert hsize rfl
    · rw [hlen] at hlt
      obtain ⟨i, rfl⟩ := Nat.exists_eq_succ_of_ne_zero hpos.ne'
      refine keyedPage_eq_slice hlen hconvert hsize ?_
      rw [resumeAfter_keyToken (by omega), resumePoint_eq hinc]

end Keyed

/-- The pages of an output show the rows of a batch. -/
def KeyedPagesExact (format : PageFormat) (epoch : UInt64) (arrow : ArrowFormat)
    (schema : RelationSchema) (kind : KeyedOutput) (output : DeltaBatch) (batch : OutputBatch) :
    Prop :=
  ∀ named, Paging.Exact (fun token size =>
    kind.pageBatch format epoch (pageRequest epoch named token size) arrow schema output) batch

/-- Pages by key skip or repeat rows of an output that converts, unless the keys alone tell the
rows apart, in their order. -/
theorem keyedPages_exact_iff (format : PageFormat) (epoch : UInt64) (harrow : arrow.Partwise)
    (kind : KeyedOutput) {batch : OutputBatch} (hrows : output.netRows = .ok rows)
    (hones : ∀ row ∈ rows, row.weight.val = 1)
    (hbatch : kind.toRecordBatch arrow schema output = .ok batch) :
    KeyedPagesExact format epoch arrow schema kind output batch ↔
      rows.Pairwise fun a b => keyEncoding a.key < keyEncoding b.key := by
  obtain ⟨columns, rowValues, heq⟩ := KeyedOutput.toRecordBatch_eq_batchOf hbatch
  rw [heq] at hbatch
  obtain ⟨hlen, hpart⟩ := batchOf_part harrow hrows hbatch
  have hconvert (offset size : ℕ) :
      kind.toRecordBatch arrow schema ⟨(rows.drop offset).take size⟩ =
        .ok ((batch.drop offset).take size) := (heq _).trans (hpart offset size)
  simp only [KeyedPagesExact, KeyedOutput.pageBatch_eq_keyedPage kind hrows hones,
    keyedPage_exact_iff hlen hconvert, forall_const]

/-- Texts are read by looking for the value that was written, rows by looking at each. -/
noncomputable def pageFormat : PageFormat where
  readJson := Function.partialInv fun value => String.ofList (canonicalJson value)
  readJson_canonicalJson := Function.partialInv_left fun _ _ h =>
    canonicalJson_injective (String.ofList_injective h)
  partitionPoint meets rows := rows.findIdx fun row => !meets row
  stops meets rows row hrow := by
    obtain ⟨hlt, rfl⟩ := List.getElem?_eq_some_iff.mp hrow
    simpa using findIdx_getElem (w := hlt)
  passes meets rows n hn := by
    have hlt : n < rows.findIdx fun row => !meets row := by omega
    exact ⟨_, getElem?_eq_getElem (hlt.trans_le findIdx_le_length),
      by simpa using not_of_lt_findIdx hlt⟩

/-- Columns of texts are built of texts and null. -/
def textFormat : ArrowFormat where
  builds column values := values.all fun value =>
    column.dataType ≠ .utf8 || value.asStr.isSome || value = .null
  compareDoubles _ _ := none

theorem textFormat_partwise : textFormat.Partwise := by
  intro column values part hpart h
  simp only [textFormat, all_eq_true] at h ⊢
  exact fun value hvalue => h value (hpart.subset hvalue)

def textSchema (names primaryKey : List String) : RelationSchema :=
  ⟨"fills", "1", "schema", names.map fun name => ⟨name, .utf8, true⟩, primaryKey⟩

def fill (key : Value) (value : String) (weight : I64) : DeltaRecord :=
  ⟨key, .object (SortedMap.empty.insert "v" (.string value)), weight⟩

def once : I64 := 1

theorem twice_lo : -((2 ^ (64 - 1) : ℕ) : ℤ) ≤ 2 := by decide

theorem twice_hi : (2 : ℤ) < ((2 ^ (64 - 1) : ℕ) : ℤ) := by decide

def twice : I64 := ⟨2, twice_lo, twice_hi⟩

def fillRow (row : DeltaRecord) : List Value :=
  [row.key, ((fieldOf row.value ⟨"v", .utf8, true⟩).getD .null)]

theorem twice_pages_exact :
    let rows := [fill (.string "a") "x" twice, fill (.string "a") "y" once,
      fill (.string "b") "x" twice]
    BagPagesExact pageFormat 0 textFormat (textSchema ["k", "v"] ["k"]) ⟨rows⟩ rows fillRow
      fillRow :=
  bagPages_exact pageFormat 0 textFormat_partwise (by decide) (by decide) (by decide)
    ⟨by decide, by decide⟩ ⟨by decide, by decide⟩

/-- Keys of a window are the group and its bounds. -/
def windowKey (group start stop : String) : Value :=
  .array [.string group, .string start, .string stop]

theorem keys_pages_exact :
    KeyedPagesExact pageFormat 0 textFormat (textSchema ["k", "v"] ["k"]) .generic
      ⟨[fill (.string "a") "x" once, fill (.string "b") "x" once]⟩
      [[.string "a", .string "x"], [.string "b", .string "x"]] ∧
    KeyedPagesExact pageFormat 0 textFormat (textSchema ["k", "start", "end", "v"] ["k"])
      (.tumbling [fun value => orMissing (value.find? "v")])
      ⟨[fill (windowKey "a" "0" "5") "x" once, fill (windowKey "a" "5" "9") "x" once]⟩
      [[.string "a", .string "0", .string "5", .string "x"],
        [.string "a", .string "5", .string "9", .string "x"]] :=
  ⟨(keyedPages_exact_iff pageFormat 0 textFormat_partwise .generic rfl (by decide)
    (by decide)).mpr (by decide),
  (keyedPages_exact_iff pageFormat 0 textFormat_partwise (.tumbling _) rfl (by decide)
    (by decide)).mpr (by decide)⟩

/-- Of two rows with one key, a page that ends with the first loses the second. -/
theorem sharedKey_skipped :
    let schema := textSchema ["k", "v"] ["k"]
    let output : DeltaBatch :=
      ⟨[fill (.string "a") "x" once, fill (.string "a") "y" once]⟩
    materializedGenericDeltaToRecordBatch textFormat schema output =
        .ok [[.string "a", .string "x"], [.string "a", .string "y"]] ∧
      materializedGenericDeltaPageBatch pageFormat 0 ⟨none, none, some 1⟩ textFormat schema output =
        .ok ([[.string "a", .string "x"]], some "\"a\"") ∧
      materializedGenericDeltaPageBatch pageFormat 0 ⟨none, some "\"a\"", some 1⟩ textFormat schema
        output = .ok ([], none) := by
  have hread : pageFormat.readJson "\"a\"" = some (.string "a") :=
    pageFormat.readJson_canonicalJson (.string "a")
  refine ⟨rfl, rfl, ?_⟩
  simp only [materializedGenericDeltaPageBatch, keyedPage, resumeAfter, hread]
  rfl

end Velorix.View
