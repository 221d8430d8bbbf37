import Velorix.View.KeyedJoins

/-! Recursive views: the base rows are staged in a copy, and the closure is computed anew. -/
namespace Velorix.View

open Json Delta

inductive PredicateOp
  | eq
  | notEq
  | like
  | notLike
  | isNull
  | isNotNull
  | gt
  | gtEq
  | lt
  | ltEq
  | isDistinctFrom
  | isNotDistinctFrom
  deriving DecidableEq

structure RecursiveBasePredicate where
  baseColumnId : String
  op : PredicateOp
  literal : Value
  deriving DecidableEq

inductive RecursiveProjectionItem
  | base (columnId : String)
  | recursive (columnId : String)
  deriving DecidableEq

/-- The second definition of a plan is not evaluated. -/
structure RecursiveFixpointPlan where
  inputRelationId : String
  recursionColumnNames : List String
  anchorProjection : List String
  recursiveProjection : List RecursiveProjectionItem
  joinBaseColumnId : String
  joinRecursiveColumnId : String
  recursiveBasePredicate : List RecursiveBasePredicate
  anchorBasePredicate : List RecursiveBasePredicate
  maxIterations : UInt64
  maxDerivedRows : UInt64
  maxWorkUnitsPerEpoch : UInt64
  deriving DecidableEq

structure RecursiveFixpointRuntime where
  view : OutputView
  catalog : Catalog
  inputSchema : RelationSchema
  plan : RecursiveFixpointPlan
  baseMultiset : KeyedRows (SortedMap String Value) := ∅
  derivedSet : SortedMap (List Char) Value := ∅
  publishedOutput : DeltaBatch := .empty
  progress : Progress := {}

namespace RecursiveFixpointRuntime

abbrev BaseRows := KeyedRows (SortedMap String Value)

def invalidPredicate : RuntimeError := .invalidProgramIdentity "recursive_fixpoint_predicate"

def comparePredicate {α : Type} [LinearOrder α] (op : PredicateOp) (actual expected : α) :
    Except RuntimeError Bool :=
  match op with
  | .eq => .ok (actual = expected)
  | .notEq => .ok (actual ≠ expected)
  | .lt => .ok (actual < expected)
  | .ltEq => .ok (actual ≤ expected)
  | .gt => .ok (expected < actual)
  | .gtEq => .ok (expected ≤ actual)
  | _ => .error invalidPredicate

def predicateMatches (values : SortedMap String Value) (predicate : RecursiveBasePredicate) :
    Except RuntimeError Bool := do
  let value ← orMissing (values.find? predicate.baseColumnId)
  match value.tree, predicate.literal.tree with
  | .number _, .number _ =>
    let actual ← orMissing value.asI64
    let expected ← orMissing predicate.literal.asI64
    comparePredicate predicate.op actual.val expected.val
  | .string actual, .string expected => comparePredicate predicate.op actual expected
  | _, _ => .error invalidPredicate

def recursiveBasePredicatesMatch (values : SortedMap String Value) :
    List RecursiveBasePredicate → Except RuntimeError Bool
  | [] => .ok true
  | predicate :: rest => do
    if ← predicateMatches values predicate then recursiveBasePredicatesMatch values rest
    else return false

variable (plan : RecursiveFixpointPlan)

def namedRow (values : List Value) : Value :=
  .object (.ofList (plan.recursionColumnNames.zip values))

def anchorRow (values : SortedMap String Value) :
    Except RuntimeError (Option Value) := do
  if !(← recursiveBasePredicatesMatch values plan.anchorBasePredicate) then return none
  else
    let row ← plan.anchorProjection.mapM fun columnId => orMissing (values.find? columnId)
    return some (namedRow plan row)

def recursiveCandidate (derived : Value)
    (values : SortedMap String Value) : Except RuntimeError (Option Value) := do
  if !(← recursiveBasePredicatesMatch values plan.recursiveBasePredicate) then return none
  else
    let derivedObject ← orMissing derived.asObject
    let baseJoin ← orMissing (values.find? plan.joinBaseColumnId)
    let derivedJoin ← orMissing (derivedObject.find? plan.joinRecursiveColumnId)
    if !derivedJoin.eq baseJoin then return none
    else
      let row ← plan.recursiveProjection.mapM fun
        | .recursive columnId => orMissing (derivedObject.find? columnId)
        | .base columnId => orMissing (values.find? columnId)
      return some (namedRow plan row)

def contractError : RuntimeError := .invalidProgramIdentity "recursive_fixpoint_resource_contract"

abbrev Derived := SortedMap (List Char) Value

/-- What an iteration has done so far: the work units, and the rows that are new. -/
structure Round where
  workUnits : ℕ
  newFrontier : List (List Char × Value) := []

def meetBase (derived : Derived) (row : Value) (round : Round)
    (base : Kept (SortedMap String Value)) : Except RuntimeError Round := do
  if base.weight.val ≤ 0 then return round
  else if 2 ^ 64 ≤ round.workUnits + 1 then .error invalidRuntimeState
  else if plan.maxWorkUnitsPerEpoch.toNat < round.workUnits + 1 then .error contractError
  else
    let round := { round with workUnits := round.workUnits + 1 }
    match ← recursiveCandidate plan row base.content with
    | none => return round
    | some candidate =>
      let key := canonicalJson candidate
      if (derived.find? key).isNone && round.newFrontier.all (·.1 ≠ key) then
        return { round with newFrontier := round.newFrontier ++ [(key, candidate)] }
      else return round

def meetFrontierRow (baseMultiset : BaseRows) (derived : Derived)
    (round : Round) (frontierKey : List Char) : Except RuntimeError Round :=
  match derived.find? frontierKey with
  | none => .ok round
  | some row => baseMultiset.values.foldlM (meetBase plan derived row) round

def addDerived (derived : Derived) (entry : List Char × Value) : Except RuntimeError Derived :=
  let derived := derived.insert entry.1 entry.2
  if plan.maxDerivedRows.toNat < derived.size then .error contractError else .ok derived

/-- The iterations that are left. Only rows that the last one added are joined. -/
def closureLoop (plan : RecursiveFixpointPlan) (baseMultiset : BaseRows) :
    ℕ → Derived → List (List Char) → ℕ → Except RuntimeError Derived
  | 0, derived, _, _ => .ok derived
  | iterations + 1, derived, frontierKeys, workUnits => do
    let round ← frontierKeys.foldlM (meetFrontierRow plan baseMultiset derived) { workUnits }
    if round.newFrontier.isEmpty then return derived
    else if iterations = 0 then .error contractError
    else
      let derived' ← round.newFrontier.foldlM (addDerived plan) derived
      closureLoop plan baseMultiset iterations derived' (round.newFrontier.map (·.1))
        round.workUnits

def recomputeClosureFrom (baseMultiset : BaseRows) :
    Except RuntimeError Derived := do
  let derived ← baseMultiset.values.foldlM (fun (derived : Derived) base => do
    match ← anchorRow plan base.content with
    | none => return derived
    | some row => return derived.insert (canonicalJson row) row) ∅
  if plan.maxDerivedRows.toNat < derived.size then .error contractError
  else closureLoop plan baseMultiset plan.maxIterations.toNat derived derived.keys 0

def derivedRecord (weight : I64) (row : Value) : DeltaRecord := ⟨row, noValues, weight⟩

def minusOne : I64 := ⟨-1, by norm_num, by norm_num⟩

/-- Rows that are new come first, then the rows that are gone. -/
def outputDeltaForDerived (publishedOutput : DeltaBatch) (derived : Derived) :
    Except RuntimeError DeltaBatch := do
  let previous ← orInvalidState publishedOutput.netRows
  let previousRows : Derived := .ofList (previous.map fun r => (canonicalJson r.key, r.key))
  let added := derived.entries.filter fun entry => (previousRows.find? entry.1).isNone
  let removed := previousRows.keys.filter fun key => (derived.find? key).isNone
  let retracted ← removed.mapM fun key =>
    orMissing ((previous.find? (canonicalJson ·.key = key)).map (·.key))
  return ⟨added.map (derivedRecord 1 ·.2) ++ retracted.map (derivedRecord minusOne)⟩

def baseMultisetColumns (catalog : Catalog) : List String :=
  ((catalog.columns.map (·.columnId)).filter (· ≠ catalog.weightColumnId)).insertionSort (· ≤ ·)

/-- Of the primary key, only the first column is used. -/
def side (runtime : RecursiveFixpointRuntime) : InputSide (SortedMap String Value) where
  schema := runtime.inputSchema
  catalog := runtime.catalog
  keyColumnIds := runtime.catalog.primaryKeyColumnIds.take 1
  valueColumnIds := baseMultisetColumns runtime.catalog
  inputField := "recursive_fixpoint_input"
  batchField := "recursive_fixpoint_input_batch"
  format := valuesFormat

def stage (runtime : RecursiveFixpointRuntime) (staged : BaseRows × Progress)
    (input : RelationInputBatch) : Except RuntimeError (BaseRows × Progress) := do
  if input.relationId ≠ runtime.plan.inputRelationId then
    .error (.invalidProgramIdentity "recursive_fixpoint_input_relation")
  else
    let rows ← runtime.side.stage staged.1 input
    let progress ← staged.2.advance input
    return (rows, progress)

def applyChanges (format : ArrowFormat) (runtime : RecursiveFixpointRuntime)
    (logicalEpoch : LogicalEpoch) (idempotencyKey : String)
    (inputChanges : List RelationInputBatch) :
    Except RuntimeError (EpochCommit × RecursiveFixpointRuntime) := do
  match ← runtime.progress.gate logicalEpoch idempotencyKey with
  | .replayed =>
    let batch ← materializedDeltaToRecordBatch format runtime.view.schema runtime.publishedOutput []
    return (runtime.progress.replayCommit runtime.view logicalEpoch idempotencyKey batch, runtime)
  | .open =>
    let (baseMultiset, progress) ←
      inputChanges.foldlM runtime.stage (runtime.baseMultiset, runtime.progress)
    let derivedSet ← recomputeClosureFrom runtime.plan baseMultiset
    let nextOutput : DeltaBatch := ⟨derivedSet.values.map (derivedRecord 1)⟩
    let outputDelta ← outputDeltaForDerived runtime.publishedOutput derivedSet
    let batch ← materializedDeltaToRecordBatch format runtime.view.schema nextOutput []
    return (progress.epochCommit runtime.view logicalEpoch idempotencyKey outputDelta batch,
      { runtime with
        baseMultiset
        derivedSet
        publishedOutput := nextOutput
        progress := progress.commit logicalEpoch idempotencyKey })

end RecursiveFixpointRuntime

end Velorix.View
