import Velorix.Foundation.CheckedInt
import Velorix.Foundation.Result
import Velorix.Foundation.SortedMap
import Velorix.Json.Render

/-! Weighted rows and batches of them. Consolidation sums the weights of the rows
that share an encoded (key, value) pair, in the order of the encodings. -/
namespace Velorix.Delta

open Json

/-- The error text is "delta weight arithmetic overflowed". -/
inductive DeltaError
  | weightOverflow
  deriving DecidableEq

instance : Subsingleton DeltaError := ⟨fun a b => by cases a; cases b; rfl⟩

structure DeltaRecord where
  key : Value
  value : Value
  weight : I64
  deriving DecidableEq

namespace DeltaRecord

def pair (record : DeltaRecord) : Value × Value := (record.key, record.value)

def encoding (record : DeltaRecord) : List Char := encodeKvOrdered record.key record.value

/-- `==` on records. -/
def eq (a b : DeltaRecord) : Bool :=
  a.key.eq b.key && (a.value.eq b.value && a.weight == b.weight)

def inverse (record : DeltaRecord) : Except DeltaError DeltaRecord :=
  match record.weight.checkedNeg with
  | some weight => .ok { record with weight }
  | none => .error .weightOverflow

end DeltaRecord

structure DeltaBatch where
  records : List DeltaRecord
  deriving DecidableEq

/-- A cell of the consolidation map: the pair first seen and the running sum. -/
structure NetCell where
  key : Value
  value : Value
  weight : I128
  deriving DecidableEq

namespace NetCell

/-- A cell that cancelled out gives no row; a sum outside `i64` is an overflow. -/
def row (cell : NetCell) : Option (Except DeltaError DeltaRecord) :=
  if cell.weight = 0 then none
  else match cell.weight.toI64? with
    | some weight => some (.ok ⟨cell.key, cell.value, weight⟩)
    | none => some (.error .weightOverflow)

end NetCell

namespace DeltaBatch

def empty : DeltaBatch := ⟨[]⟩

def eqRecords : List DeltaRecord → List DeltaRecord → Bool
  | [], [] => true
  | a :: as, b :: bs => a.eq b && eqRecords as bs
  | _, _ => false

@[simp] theorem eqRecords_self (rows : List DeltaRecord) : eqRecords rows rows = true := by
  induction rows with
  | nil => rfl
  | cons r rest ih => simp [eqRecords, DeltaRecord.eq, ih]

/-- `==` on batches. -/
def eq (a b : DeltaBatch) : Bool := eqRecords a.records b.records

def combine (batch other : DeltaBatch) : DeltaBatch := ⟨batch.records ++ other.records⟩

def diff (batch other : DeltaBatch) : Except DeltaError DeltaBatch := do
  let retracted ← batch.records.mapM DeltaRecord.inverse
  return ⟨retracted ++ other.records⟩

def consolidateRecord (net : SortedMap (List Char) NetCell) (record : DeltaRecord) :
    Except DeltaError (SortedMap (List Char) NetCell) :=
  let cell := (net.find? record.encoding).getD ⟨record.key, record.value, 0⟩
  match cell.weight.checkedAdd record.weight.toI128 with
  | some weight => .ok (net.insert record.encoding { cell with weight })
  | none => .error .weightOverflow

/-- The loop of `net_rows`. -/
def consolidate (batch : DeltaBatch) : Except DeltaError (SortedMap (List Char) NetCell) :=
  batch.records.foldlM consolidateRecord ∅

def netRows (batch : DeltaBatch) : Except DeltaError (List DeltaRecord) := do
  let net ← batch.consolidate
  (net.values.filterMap NetCell.row).mapM id

end DeltaBatch
end Velorix.Delta
