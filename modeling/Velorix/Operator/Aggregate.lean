import Velorix.Json.Access
import Velorix.Operator.Decimal
import Velorix.Operator.Side

/-! The keyed sum and count aggregate, optionally with extrema. An epoch is prepared as
the entries it replaces and then committed; the state of a key is its row. -/
namespace Velorix.Operator

open Json Delta

inductive AggregateValueMode
  | integer
  | decimal128 (precision scale : UInt8)
  deriving DecidableEq

/-- The error of a checked operation that overflowed. -/
def orOverflow {α : Type} : Option α → Except OperatorError α
  | some a => .ok a
  | none => .error .weightOverflow

def parseDecimal128Value (value : Value) (precision scale : UInt8) (error : OperatorError) :
    Except OperatorError I128 :=
  match value.asStr.bind fun text => parseDecimal128Str text.toList precision scale with
  | some amount => .ok amount
  | none => .error error

namespace AggregateValueMode

/-- Reads an amount; what cannot be read is reported as `integerError` or `decimalError`. -/
def parse (mode : AggregateValueMode) (integerError decimalError : OperatorError)
    (value : Value) : Except OperatorError I128 :=
  match mode with
  | .integer =>
    match value.asI64 with
    | some amount => .ok amount.toI128
    | none => .error integerError
  | .decimal128 precision scale => parseDecimal128Value value precision scale decimalError

def parseInput (mode : AggregateValueMode) (value : Value) : Except OperatorError I128 :=
  mode.parse .nonIntegerAggregateValue .nonDecimalAggregateValue value

def parseStateSum (mode : AggregateValueMode) (value : Value) : Except OperatorError I128 :=
  mode.parse .invalidAggregateStateValue .invalidAggregateStateValue value

end AggregateValueMode

def aggregateSumJsonValue (sum : I128) : AggregateValueMode → Except OperatorError Value
  | .integer => do
    let sum ← orOverflow sum.toI64?
    return .ofI64 sum
  | .decimal128 precision scale =>
    if decimal128PrecisionFits sum.val.natAbs precision then
      .ok (.string (String.ofList (formatDecimal128Value sum scale)))
    else .error .decimalPrecisionOverflow

structure AggregateValueEntry where
  value : Value
  weight : I128
  deriving DecidableEq

structure AggregateEntry where
  key : Value
  sum : I128
  count : I128
  values : SortedMap I128 AggregateValueEntry
  deriving DecidableEq

/-- A weighted value in the state row of a key. -/
def valueRow (entry : AggregateValueEntry) : Except OperatorError Value := do
  let weight ← orOverflow entry.weight.toI64?
  return .object (SortedMap.ofList [("value", entry.value), ("weight", .ofI64 weight)])

namespace AggregateEntry

variable (entry : AggregateEntry)

def isZero : Bool :=
  entry.sum = 0 && entry.count = 0 && entry.values.isEmpty

/-- The least and the greatest value, where there is one. -/
def extrema : Option (Value × Value) := do
  let min ← entry.values.values.head?
  let max ← entry.values.values.getLast?
  return (min.value, max.value)

def rowFields (mode : AggregateValueMode) (trackExtrema : Bool) :
    Except OperatorError (SortedMap String Value) := do
  let count ← orOverflow entry.count.toI64?
  let sum ← aggregateSumJsonValue entry.sum mode
  let fields := SortedMap.ofList [("sum", sum), ("count", .ofI64 count)]
  if trackExtrema then
    match entry.extrema with
    | none => .error .invalidAggregateStateValue
    | some (min, max) => do
      let values ← entry.values.values.mapM valueRow
      return ((fields.insert "min" min).insert "max" max).insert "values" (.array values)
  else return fields

def toRecord (weight : I64) (mode : AggregateValueMode)
    (trackExtrema : Bool) : Except OperatorError DeltaRecord := do
  let fields ← entry.rowFields mode trackExtrema
  return ⟨entry.key, .object fields, weight⟩

def addWeighted (sum : I128) (count weight : I64) :
    Except OperatorError AggregateEntry := do
  let sumDelta ← orOverflow (sum.checkedMul weight.toI128)
  let countDelta ← orOverflow (count.toI128.checkedMul weight.toI128)
  let sum ← orOverflow (entry.sum.checkedAdd sumDelta)
  let count ← orOverflow (entry.count.checkedAdd countDelta)
  return { entry with sum, count }

end AggregateEntry

/-- Adds to the weight of a value; a value of weight zero is not kept. -/
def addValueWeightToMap (values : SortedMap I128 AggregateValueEntry) (orderValue : I128)
    (value : Value) (weightDelta : I128) (rejectNegative : Bool) :
    Except OperatorError (SortedMap I128 AggregateValueEntry) := do
  let before := ((values.find? orderValue).map AggregateValueEntry.weight).getD 0
  let nextWeight ← orOverflow (before.checkedAdd weightDelta)
  if rejectNegative && nextWeight.val < 0 then .error .invalidAggregateStateValue
  else if nextWeight = 0 then return values.erase orderValue
  else return values.insert orderValue ⟨value, nextWeight⟩

namespace AggregateEntry

def addValueWeight (entry : AggregateEntry) (orderValue : I128) (value : Value)
    (valueWeight : I128) (recordWeight : I64) : Except OperatorError AggregateEntry := do
  let delta ← orOverflow (valueWeight.checkedMul recordWeight.toI128)
  let values ← addValueWeightToMap entry.values orderValue value delta true
  return { entry with values }

end AggregateEntry

/-- `ok_or(InvalidAggregateStateValue)`. -/
def orInvalidState {α : Type} : Option α → Except OperatorError α
  | some a => .ok a
  | none => .error .invalidAggregateStateValue

/-- One element of the `values` array of a state row. -/
def parseStateValue (mode : AggregateValueMode) (values : SortedMap I128 AggregateValueEntry)
    (item : Value) : Except OperatorError (SortedMap I128 AggregateValueEntry) := do
  let fields ← orInvalidState item.asObject
  let value ← orInvalidState (fields.find? "value")
  let orderValue ← mode.parseStateSum value
  let weight ← orInvalidState ((fields.find? "weight").bind Value.asI64)
  if weight = 0 then .error .invalidAggregateStateValue
  else return values.insert orderValue ⟨value, weight.toI128⟩

def aggregateStateSumCountValues (value : Value) (mode : AggregateValueMode)
    (trackExtrema : Bool) :
    Except OperatorError (I128 × I64 × SortedMap I128 AggregateValueEntry) := do
  let sumValue ← orInvalidState (value.get "sum")
  let sum ← mode.parseStateSum sumValue
  let count ← orInvalidState ((value.get "count").bind Value.asI64)
  if trackExtrema then do
    let items ← orInvalidState ((value.get "values").bind Value.asArray)
    let values ← items.foldlM (parseStateValue mode) ∅
    if values.isEmpty then .error .invalidAggregateStateValue
    else return (sum, count, values)
  else return (sum, count, ∅)

structure AggregateChange where
  key : Value
  sumDelta : I128
  countDelta : I128
  valueDeltas : SortedMap I128 AggregateValueEntry

namespace AggregateChange

def new (key : Value) : AggregateChange := ⟨key, 0, 0, ∅⟩

def add (change : AggregateChange) (amount : I128) (value : Value) (weight : I64) :
    Except OperatorError AggregateChange := do
  let weightedAmount ← orOverflow (amount.checkedMul weight.toI128)
  let sumDelta ← orOverflow (change.sumDelta.checkedAdd weightedAmount)
  let countDelta ← orOverflow (change.countDelta.checkedAdd weight.toI128)
  let valueDeltas ← addValueWeightToMap change.valueDeltas amount value weight.toI128 false
  return { change with sumDelta, countDelta, valueDeltas }

def applyTo (change : AggregateChange) (before : Option AggregateEntry) (trackExtrema : Bool) :
    Except OperatorError (Option AggregateEntry) := do
  let sum ← orOverflow (((before.map AggregateEntry.sum).getD 0).checkedAdd change.sumDelta)
  let count ← orOverflow (((before.map AggregateEntry.count).getD 0).checkedAdd change.countDelta)
  let values := (before.map AggregateEntry.values).getD ∅
  let values ← if trackExtrema then
      change.valueDeltas.entries.foldlM (fun values delta =>
        addValueWeightToMap values delta.1 delta.2.value delta.2.weight true) values
    else .ok values
  if sum = 0 ∧ count = 0 ∧ (trackExtrema = false ∨ values.isEmpty = true) then return none
  else return some ⟨(before.map AggregateEntry.key).getD change.key, sum, count, values⟩

end AggregateChange

/-- The entries an epoch replaces and the rows it emits. -/
structure PreparedAggregateChanges where
  changes : SortedMap (List Char) (Option AggregateEntry)
  output : DeltaBatch

structure KeyedSumCountAggregate where
  state : SortedMap (List Char) AggregateEntry
  valueMode : AggregateValueMode
  trackExtrema : Bool

namespace KeyedSumCountAggregate

def withValueModeAndExtrema (valueMode : AggregateValueMode) (trackExtrema : Bool) :
    KeyedSumCountAggregate :=
  ⟨∅, valueMode, trackExtrema⟩

def restoreRecord (mode : AggregateValueMode) (trackExtrema : Bool)
    (state : SortedMap (List Char) AggregateEntry) (record : DeltaRecord) :
    Except OperatorError (SortedMap (List Char) AggregateEntry) := do
  let (sum, count, values) ← aggregateStateSumCountValues record.value mode trackExtrema
  let key := canonicalJson record.key
  let entry := (state.find? key).getD ⟨record.key, 0, 0, ∅⟩
  let entry ← entry.addWeighted sum count record.weight
  let entry ← if trackExtrema then
      values.entries.foldlM (fun entry value =>
        entry.addValueWeight value.1 value.2.value value.2.weight record.weight) entry
    else .ok entry
  if entry.isZero then return state.erase key else return state.insert key entry

def fromStateWithValueModeAndExtrema (state : DeltaBatch) (mode : AggregateValueMode)
    (trackExtrema : Bool) : Except OperatorError KeyedSumCountAggregate := do
  let entries ← state.records.foldlM (restoreRecord mode trackExtrema) ∅
  -- `validate_aggregate_entries`
  let _ ← entries.values.mapM fun entry => entry.toRecord 1 mode trackExtrema
  return ⟨entries, mode, trackExtrema⟩

variable (aggregate : KeyedSumCountAggregate)

/-- The change of a key after one more record. -/
def addChange (changes : SortedMap (List Char) AggregateChange) (record : DeltaRecord) :
    Except OperatorError (SortedMap (List Char) AggregateChange) := do
  let amount ← aggregate.valueMode.parseInput record.value
  let value ← aggregateSumJsonValue amount aggregate.valueMode
  let key := canonicalJson record.key
  let change := (changes.find? key).getD (AggregateChange.new record.key)
  let change ← change.add amount value record.weight
  return changes.insert key change

def optionalRow (entry : Option AggregateEntry)
    (weight : I64) : Except OperatorError (List DeltaRecord) :=
  match entry with
  | some entry => do
    let row ← entry.toRecord weight aggregate.valueMode aggregate.trackExtrema
    return [row]
  | none => return []

/-- The rows that replace an entry: the old row retracted, the new row inserted. -/
def replacementRows (before after : Option AggregateEntry) :
    Except OperatorError (List DeltaRecord) := do
  let retracted ← aggregate.optionalRow before ⟨-1, SInt.minusOne_lo, SInt.minusOne_hi⟩
  let inserted ← aggregate.optionalRow after 1
  return retracted ++ inserted

def prepareChange (prepared : PreparedAggregateChanges)
    (change : List Char × AggregateChange) : Except OperatorError PreparedAggregateChanges := do
  let before := aggregate.state.find? change.1
  let after ← change.2.applyTo before aggregate.trackExtrema
  if before = after then return prepared
  else do
    let rows ← aggregate.replacementRows before after
    return ⟨prepared.changes.insert change.1 after, ⟨prepared.output.records ++ rows⟩⟩

def prepare (input : DeltaBatch) :
    Except OperatorError PreparedAggregateChanges := do
  let changes ← input.records.foldlM aggregate.addChange ∅
  changes.entries.foldlM aggregate.prepareChange ⟨∅, DeltaBatch.empty⟩

/-- Every fallible step was taken by the preparation. -/
def commit (prepared : PreparedAggregateChanges) : KeyedSumCountAggregate :=
  { aggregate with state := aggregate.state.patch prepared.changes }

def apply (input : DeltaBatch) :
    Except OperatorError (DeltaBatch × KeyedSumCountAggregate) := do
  let prepared ← aggregate.prepare input
  return (prepared.output, aggregate.commit prepared)

def stateRows : Except OperatorError (List DeltaRecord) :=
  aggregate.state.values.mapM fun entry =>
    entry.toRecord 1 aggregate.valueMode aggregate.trackExtrema

/-- `state()`; a stored entry without a row would be a panic there. -/
def stateBatch : DeltaBatch :=
  ⟨aggregate.stateRows.toOption.getD []⟩

end KeyedSumCountAggregate
end Velorix.Operator
