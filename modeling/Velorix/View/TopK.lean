import Velorix.Foundation.SignificantBits
import Velorix.Foundation.SortedBy
import Velorix.View.SemiAntiJoin
import Velorix.View.WindowFrame

/-! The first rows of an output by one of its columns. Numbers are compared as doubles, so integers
that round to the same one are ordered by their keys. -/
namespace Velorix.View

open Json Delta Result SignificantBits List

structure SupportedTopKPlan where
  orderOutputColumnId : String
  orderInputColumnId : Option String
  descending : Bool
  limit : ℕ
  offset : ℕ

structure SupportedLatestByKeyPlan where
  outputKeyColumnId : String
  outputValueColumnId : String

/-- `Number::as_f64`. What a double prints as is read by `doubles`. -/
def asF64 (doubles : FloatText → ℚ) : Number → ℚ
  | .int i _ _ => round 53 i
  | .float f => doubles f

def compareJsonValues (doubles : FloatText → ℚ) (left right : Value) : Ordering :=
  match left.tree, right.tree with
  | .number a, .number b => compare (asF64 doubles a) (asF64 doubles b)
  | .string a, .string b => compareTexts a.toList b.toList
  | .bool a, .bool b => compare a b
  | .null, .null => .eq
  | _, _ => compareTexts (canonicalJson left) (canonicalJson right)

def filterProjectHiddenOrderValueKey : String := "__velorix_hidden_order_value"

/-- A column that is not part of the output is kept in the value under a name of its own. -/
def filterProjectTopKRecordValue (record : DeltaRecord) (topK : SupportedTopKPlan)
    (plan : SupportedFilterProjectPlan) : Except RuntimeError Value :=
  if topK.orderInputColumnId.isSome then
    orMissing (record.value.asObject.bind (·.find? filterProjectHiddenOrderValueKey))
  else if topK.orderOutputColumnId = plan.outputKeyColumnId then .ok record.key
  else if plan.valueColumns.any (·.outputColumnId = topK.orderOutputColumnId) then
    orMissing (record.value.asObject.bind (·.find? topK.orderOutputColumnId))
  else .error invalidRuntimeState

def latestTopKRecordValue (record : DeltaRecord) (topK : SupportedTopKPlan)
    (plan : SupportedLatestByKeyPlan) : Except RuntimeError Value :=
  if topK.orderOutputColumnId = plan.outputKeyColumnId then .ok record.key
  else if topK.orderOutputColumnId = plan.outputValueColumnId then
    orMissing (record.value.asObject.bind (·.find? plan.outputValueColumnId))
  else .error invalidRuntimeState

/-- A row whose column cannot be read counts as equal to every other. -/
def topKOrdering (doubles : FloatText → ℚ) (topK : SupportedTopKPlan)
    (value : DeltaRecord → Except RuntimeError Value) (left right : DeltaRecord) : Ordering :=
  let ordering := match value left, value right with
    | .ok a, .ok b => compareJsonValues doubles a b
    | _, _ => .eq
  let ordering := if topK.descending then ordering.swap else ordering
  ordering.then (compareTexts (canonicalJson left.key) (canonicalJson right.key))

def applyTopK (doubles : FloatText → ℚ) (output : DeltaBatch) (topK : Option SupportedTopKPlan)
    (value : SupportedTopKPlan → DeltaRecord → Except RuntimeError Value) :
    Except RuntimeError DeltaBatch :=
  match topK with
  | none => .ok output
  | some topK => do
    let rows ← orInvalidState output.netRows
    let rows := rows.insertionSort fun a b => (topKOrdering doubles topK (value topK) a b).isLE
    let published : DeltaBatch := ⟨(rows.drop topK.offset).take topK.limit⟩
    validatePublishedOutput published
    return published

def applyFilterProjectTopKToPublishedOutput (doubles : FloatText → ℚ) (output : DeltaBatch)
    (topK : Option SupportedTopKPlan) (plan : SupportedFilterProjectPlan) :
    Except RuntimeError DeltaBatch :=
  applyTopK doubles output topK fun topK record => filterProjectTopKRecordValue record topK plan

def applyLatestTopKToPublishedOutput (doubles : FloatText → ℚ) (output : DeltaBatch)
    (topK : Option SupportedTopKPlan) (plan : SupportedLatestByKeyPlan) :
    Except RuntimeError DeltaBatch :=
  applyTopK doubles output topK fun topK record => latestTopKRecordValue record topK plan

/-- The two plans that keep the first rows of their output in this way. -/
inductive TopKView
  | filterProject (plan : SupportedFilterProjectPlan)
  | latest (plan : SupportedLatestByKeyPlan)

namespace TopKView

def value (view : TopKView) (topK : SupportedTopKPlan) (record : DeltaRecord) :
    Except RuntimeError Value :=
  match view with
  | filterProject plan => filterProjectTopKRecordValue record topK plan
  | latest plan => latestTopKRecordValue record topK plan

def apply (view : TopKView) (doubles : FloatText → ℚ) (output : DeltaBatch)
    (topK : Option SupportedTopKPlan) : Except RuntimeError DeltaBatch :=
  match view with
  | filterProject plan => applyFilterProjectTopKToPublishedOutput doubles output topK plan
  | latest plan => applyLatestTopKToPublishedOutput doubles output topK plan

end TopKView

/-- The number of one row is the better one. -/
def Better (descending : Bool) (number : DeltaRecord → ℤ) (a b : DeltaRecord) : Prop :=
  if descending then number b < number a else number a < number b

instance decidableBetter (descending : Bool) (number : DeltaRecord → ℤ) (a b : DeltaRecord) :
    Decidable (Better descending number a b) := by
  unfold Better
  infer_instance

/-- The order by a number, and by the key where the numbers agree. -/
def Precedes (descending : Bool) (number : DeltaRecord → ℤ) (a b : DeltaRecord) : Prop :=
  Better descending number a b ∨
    number a = number b ∧ canonicalJson a.key ≤ canonicalJson b.key

instance decidablePrecedes (descending : Bool) (number : DeltaRecord → ℤ) :
    DecidableRel (Precedes descending number) := fun a b => by
  unfold Precedes
  infer_instance

section Order

variable {doubles : FloatText → ℚ} {topK : SupportedTopKPlan} {descending : Bool}
  {number : DeltaRecord → ℤ} {order : DeltaRecord → I64} {rows : List DeltaRecord}
  {output : DeltaBatch} {view : TopKView} {a b : DeltaRecord}

instance total_precedes : Std.Total (Precedes descending number) where
  total a b := by
    unfold Precedes Better
    have := le_total (canonicalJson a.key) (canonicalJson b.key)
    grind

instance isTrans_precedes : IsTrans DeltaRecord (Precedes descending number) where
  trans a b c h h' := by
    unfold Precedes Better at *
    have := @le_trans _ _ (canonicalJson a.key) (canonicalJson b.key) (canonicalJson c.key)
    grind

variable (hrows : output.netRows = .ok rows) (hone : ∀ r ∈ rows, r.weight.val = 1)
  (horder : ∀ r ∈ rows, view.value topK r = .ok (.ofI64 (order r)))
include hrows hone horder

end Order

def edge : I64 := .ofFits (2 ^ 53) (SInt.fits64_iff.mpr (by decide))

end Velorix.View
