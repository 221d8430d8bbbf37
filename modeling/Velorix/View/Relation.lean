import Velorix.Delta.Batch
import Velorix.Json.Access

/-! Input relations of view runtimes: catalogs, batches of rows, and the conversion of rows to
weighted records. -/
namespace Velorix.View

open Json Delta

/-- The errors of view runtimes. A field is named where the source names it. -/
inductive RuntimeError
  | invalidProgramIdentity (field : String)
  | nonMonotonicLogicalEpoch (current attempted : UInt64)
  | idempotencyKeyConflict (idempotencyKey : String) (firstEpoch attemptedEpoch : UInt64)
  deriving DecidableEq

def invalidRuntimeState : RuntimeError := .invalidProgramIdentity "generic_runtime_state"

inductive DictionaryKeyType
  | int8
  | int16
  | int32
  | int64
  deriving DecidableEq

/-- Nested types are told apart by their layout only: no conversion looks into them. -/
inductive ArrowPhysicalType
  | boolean
  | int8
  | int16
  | int32
  | int64
  | uint8
  | uint16
  | uint32
  | uint64
  | float32
  | float64
  | decimal128 (precision scale : UInt8)
  | utf8
  | binary
  | date32
  | time64Nanosecond
  | timestampNanosecond (timezone : Option String)
  | dictionaryUtf8 (keyType : DictionaryKeyType)
  | jsonUtf8
  | nested (layout : String)
  deriving DecidableEq

def ArrowPhysicalType.stored : ArrowPhysicalType → ArrowPhysicalType
  | .jsonUtf8 => .utf8
  | physicalType => physicalType

structure RelationColumn where
  columnId : String
  name : String
  physicalType : ArrowPhysicalType
  nullable : Bool
  deriving DecidableEq

/-- What the runtimes read of a catalog. `supported` says whether the catalog passes its own checks
and names a supported adapter. -/
structure Catalog where
  relationId : String
  relationVersion : String
  schemaFingerprint : String
  columns : List RelationColumn
  primaryKeyColumnIds : List String
  weightColumnId : String
  supported : Bool
  eventTimeColumnId : Option String := none
  deriving DecidableEq

variable (catalog : Catalog)

def Catalog.column (columnId : String) : Option RelationColumn :=
  catalog.columns.find? (·.columnId = columnId)

structure ArrowField where
  name : String
  dataType : ArrowPhysicalType
  nullable : Bool
  deriving DecidableEq

/-- What an array holds at a row, as the JSON value it is converted to. A value that cannot be
converted (a double that is not finite, a text that is not JSON) is unreadable. -/
inductive Cell
  | null
  | json (value : Value)
  | unreadable
  deriving DecidableEq

structure RecordBatch where
  fields : List ArrowField
  rows : List (List Cell)
  deriving DecidableEq

def Catalog.fields : List ArrowField :=
  catalog.columns.map fun column => ⟨column.name, column.physicalType.stored, column.nullable⟩

variable (batch : RecordBatch)

def RecordBatch.matchesCatalog (catalog : Catalog) : Bool :=
  batch.fields = catalog.fields

def RecordBatch.cell (row : List Cell) (name : String) : Cell :=
  ((batch.fields.findIdx? (·.name = name)).bind (row[·]?)).getD .null

structure InputEventTimeWatermark where
  streamId : String
  partitionId : UInt32
  eventTimeColumnId : String
  maxObservedEventTimeNs : I64
  watermarkNs : I64
  deriving DecidableEq

inductive RelationInputEncoding
  | sourceRelation
  | publishedRelationDelta (deltaCodecIdentity weightFieldName : String) (weightFieldIndex : ℕ)
  deriving DecidableEq

structure RelationInputBatch where
  relationId : String
  relationVersion : String
  streamId : String
  partitionId : UInt32
  schemaFingerprint : String
  startOffsetInclusive : UInt64
  endOffsetExclusive : UInt64
  eventTimeWatermark : Option InputEventTimeWatermark
  encoding : RelationInputEncoding
  batches : List RecordBatch
  deriving DecidableEq

inductive SqlDataType
  | bool
  | int8
  | int16
  | int32
  | int64
  | uint8
  | uint16
  | uint32
  | uint64
  | float32
  | float64
  | decimal (precision scale : UInt8)
  | char (length : Option UInt32)
  | utf8
  | binary (length : UInt32)
  | varbinary
  | time
  | date
  | timestamp (timezone : Option String)
  | json
  | uuid
  | other (layout : String)
  deriving DecidableEq

structure ColumnSchema where
  name : String
  dataType : SqlDataType
  nullable : Bool
  deriving DecidableEq

structure RelationSchema where
  relationId : String
  relationVersion : String
  schemaFingerprint : String
  columns : List ColumnSchema
  primaryKey : List String
  deriving DecidableEq

def validateInputMatchesSchema (input : RelationInputBatch) (schema : RelationSchema)
    (field : String) : Except RuntimeError Unit :=
  if input.relationId ≠ schema.relationId ∨ input.relationVersion ≠ schema.relationVersion ∨
      input.schemaFingerprint ≠ schema.schemaFingerprint then
    .error (.invalidProgramIdentity field)
  else .ok ()

def publishedRelationDeltaCodec : String := "velorix-published-relation-delta-v1"

/-- The weight stands in the last column, and is never null. -/
def validateWeightField (weightFieldName : String) (weightFieldIndex : ℕ)
    (batch : RecordBatch) : Except RuntimeError Unit :=
  if !batch.matchesCatalog catalog then
    .error (.invalidProgramIdentity "published_input.batch_schema")
  else if batch.fields[weightFieldIndex]? ≠ some ⟨weightFieldName, .int64, false⟩ then
    .error (.invalidProgramIdentity "published_input.weight_field")
  else .ok ()

/-- A published input that carries no rows gives the empty delta. -/
def publishedInputEmptyDelta (input : RelationInputBatch) (catalog : Catalog) :
    Except RuntimeError (Option DeltaBatch) :=
  match input.encoding with
  | .sourceRelation => .ok none
  | .publishedRelationDelta deltaCodecIdentity weightFieldName weightFieldIndex => do
    if deltaCodecIdentity ≠ publishedRelationDeltaCodec then
      .error (.invalidProgramIdentity "published_input.delta_codec_identity")
    else if weightFieldName ≠ catalog.weightColumnId then
      .error (.invalidProgramIdentity "published_input.weight_field_name")
    else if catalog.columns = [] ∨ weightFieldIndex ≠ catalog.columns.length - 1 then
      .error (.invalidProgramIdentity "published_input.weight_field_index")
    else
      input.batches.forM (validateWeightField catalog weightFieldName weightFieldIndex)
      if input.batches.all (·.rows.isEmpty) then return some .empty else return none

def ArrowPhysicalType.isKeyType : ArrowPhysicalType → Bool
  | .nested _ => false
  | _ => true

def ArrowPhysicalType.isValueType : ArrowPhysicalType → Bool
  | .boolean => true
  | .utf8 => true
  | .int64 => true
  | .float64 => true
  | .decimal128 _ _ => true
  | _ => false

def normalizeZero (value : Value) : Value :=
  match value.tree with
  | .number (.float f) =>
    if f.isZero then .number (.float ⟨['0', '.', '0'], rfl, rfl, rfl⟩) else value
  | _ => value

def keyValue (row : List Cell) (column : RelationColumn) : Option Value :=
  match batch.cell row column.name with
  | .json value =>
    match column.physicalType with
    | .float32 => some (normalizeZero value)
    | .float64 => some (normalizeZero value)
    | _ => some value
  | .null => none
  | .unreadable => none

/-- The key of one column is its value, and that of several an object. -/
def deltaKeyFromColumns (row : List Cell) :
    List RelationColumn → Option Value
  | [column] => keyValue batch row column
  | columns => do
    let fields ← columns.mapM fun column => do
      return (column.columnId, ← keyValue batch row column)
    return .object (.ofList fields)

def nullableValue (row : List Cell) (column : RelationColumn) : Option Value :=
  match batch.cell row column.name with
  | .json value => some value
  | .null => if column.nullable then some .null else none
  | .unreadable => none

def weightOf (row : List Cell) (column : RelationColumn) : Option I64 :=
  match batch.cell row column.name with
  | .json value => value.asI64
  | _ => none

/-- Which columns become the key, and how the value of a record is read. -/
structure RecordShape where
  keyColumns : List RelationColumn
  valueColumns : List RelationColumn
  weightColumn : RelationColumn

def RecordShape.record (shape : RecordShape) (batch : RecordBatch) (row : List Cell) :
    Option DeltaRecord := do
  let weight ← weightOf batch row shape.weightColumn
  let values ← shape.valueColumns.mapM fun column => do
    return (column.columnId, ← nullableValue batch row column)
  let key ← deltaKeyFromColumns batch row shape.keyColumns
  return ⟨key, .object (.ofList values), weight⟩

def RelationInputBatch.isOf (input : RelationInputBatch) (catalog : Catalog) : Bool :=
  input.relationId = catalog.relationId ∧ input.relationVersion = catalog.relationVersion ∧
    input.schemaFingerprint = catalog.schemaFingerprint

def Catalog.shape (keyColumnIds valueColumnIds : List String) :
    Option RecordShape := do
  let keyColumns ← keyColumnIds.mapM catalog.column
  let valueColumns ← valueColumnIds.mapM catalog.column
  let weightColumn ← catalog.column catalog.weightColumnId
  if valueColumns.any (·.columnId = catalog.weightColumnId) then none
  else if weightColumn.physicalType ≠ .int64 then none
  else return ⟨keyColumns, valueColumns, weightColumn⟩

/-- Every row becomes a record that holds the values of several columns. Which error occurred is
dropped by every caller. -/
def keyMultiValueDelta (input : RelationInputBatch)
    (keyColumnIds valueColumnIds : List String) : Option DeltaBatch := do
  if !catalog.supported ∨ !input.isOf catalog ∨ keyColumnIds.isEmpty ∨ valueColumnIds.isEmpty ∨
      input.batches.isEmpty then none
  else
    let shape ← catalog.shape keyColumnIds valueColumnIds
    let records ← input.batches.mapM fun batch =>
      if !batch.matchesCatalog catalog ∨ !shape.keyColumns.all (·.physicalType.isKeyType) ∨
          !shape.valueColumns.all (·.physicalType.isValueType) then none
      else batch.rows.mapM (shape.record batch)
    return ⟨records.flatten⟩

/-- The records of an input, where `field` names the input in errors. -/
def inputDelta (input : RelationInputBatch)
    (keyColumnIds valueColumnIds : List String) (field : String) :
    Except RuntimeError DeltaBatch := do
  match ← publishedInputEmptyDelta input catalog with
  | some delta => return delta
  | none =>
    match keyMultiValueDelta catalog input keyColumnIds valueColumnIds with
    | some delta => return delta
    | none => .error (.invalidProgramIdentity field)

def orInvalidState {α : Type} (result : Except DeltaError α) : Except RuntimeError α :=
  result.mapError fun _ => invalidRuntimeState

theorem mapM_option_mem {α β : Type} {f : α → Option β} {as : List α} {bs : List β}
    (h : as.mapM f = some bs) {b : β} (hb : b ∈ bs) : ∃ a ∈ as, f a = some b := by
  induction as generalizing bs with
  | nil =>
    cases h
    cases hb
  | cons a as ih =>
    simp only [List.mapM_cons, Option.bind_eq_bind, Option.bind_eq_some_iff, Option.pure_def,
      Option.some.injEq] at h
    obtain ⟨b', hb', bs', hbs', rfl⟩ := h
    rcases List.mem_cons.mp hb with rfl | hb
    · exact ⟨a, List.mem_cons_self, hb'⟩
    · obtain ⟨a', ha', hfa⟩ := ih hbs' hb
      exact ⟨a', List.mem_cons_of_mem a ha', hfa⟩

end Velorix.View
