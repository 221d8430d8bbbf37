import Velorix.View.KeyedRows

/-! An epoch of a runtime with keyed state: the inputs are staged one after the other, and the
outcome is committed at the end. -/
namespace Velorix.View

open Json Delta

/-- Columns that are read, each once and in order. -/
def columnSet (columnIds : List String) : List String :=
  (columnIds.insertionSort (· ≤ ·)).dedup

/-- One input relation of a runtime. The fields name it in errors. -/
structure InputSide (C : Type) where
  schema : RelationSchema
  catalog : Catalog
  keyColumnIds : List String
  valueColumnIds : List String
  inputField : String
  batchField : String
  format : RowFormat C

section Input
variable {C : Type} (side : InputSide C)

/-- The records of an input, before they are consolidated. -/
def InputSide.delta (input : RelationInputBatch) : Except RuntimeError DeltaBatch := do
  validateInputMatchesSchema input side.schema side.inputField
  inputDelta side.catalog input side.keyColumnIds side.valueColumnIds side.batchField

/-- The records of an input in the order in which they are applied. -/
def InputSide.listed (input : RelationInputBatch) : Except RuntimeError (List DeltaRecord) := do
  let delta ← side.delta input
  orInvalidState delta.netRows

def InputSide.stage (rows : KeyedRows C) (input : RelationInputBatch) :
    Except RuntimeError (KeyedRows C) := do
  let records ← side.listed input
  applyRecords side.format rows records

end Input

inductive Side
  | left
  | right
  deriving DecidableEq

/-- Two input relations with state of one kind. -/
structure TwoSides (C : Type) where
  leftRelationId : String
  rightRelationId : String
  relationField : String
  left : InputSide C
  right : InputSide C

structure SideRows (C : Type) where
  left : KeyedRows C := ∅
  right : KeyedRows C := ∅
  deriving DecidableEq

section TwoSided
variable {C : Type} (sides : TwoSides C)

def TwoSides.sideOf (input : RelationInputBatch) : Option Side :=
  if input.relationId = sides.leftRelationId then some .left
  else if input.relationId = sides.rightRelationId then some .right
  else none

def TwoSides.stageRows (rows : SideRows C) (input : RelationInputBatch) :
    Except RuntimeError (SideRows C) :=
  match sides.sideOf input with
  | some .left => do
    let left ← sides.left.stage rows.left input
    return { rows with left }
  | some .right => do
    let right ← sides.right.stage rows.right input
    return { rows with right }
  | none => .error (.invalidProgramIdentity sides.relationField)

def TwoSides.stage (staged : SideRows C × Progress) (input : RelationInputBatch) :
    Except RuntimeError (SideRows C × Progress) := do
  let rows ← sides.stageRows staged.1 input
  let progress ← staged.2.advance input
  return (rows, progress)

end TwoSided

structure OutputView where
  viewId : String
  schema : RelationSchema
  deriving DecidableEq

def OutputView.output {α : Type} (view : OutputView) (content : α) : ViewOutput α :=
  ⟨view.viewId, view.schema.schemaFingerprint, content⟩

/-- The commit of an epoch that was applied before. -/
def Progress.replayCommit (progress : Progress) (view : OutputView) (logicalEpoch : LogicalEpoch)
    (idempotencyKey : String) (batch : OutputBatch) : EpochCommit where
  logicalEpoch
  idempotencyKey
  inputFrontiers := progress.inputFrontiers
  inputEventTimeFrontiers := progress.inputEventTimeFrontiers
  outputDeltas := []
  outputBatches := [view.output batch]

def Progress.epochCommit (progress : Progress) (view : OutputView) (logicalEpoch : LogicalEpoch)
    (idempotencyKey : String) (delta : DeltaBatch) (batch : OutputBatch) : EpochCommit where
  logicalEpoch
  idempotencyKey
  inputFrontiers := progress.inputFrontiers
  inputEventTimeFrontiers := progress.inputEventTimeFrontiers
  outputDeltas := [view.output delta]
  outputBatches := [view.output batch]

def noValues : Value := .object ∅

end Velorix.View
