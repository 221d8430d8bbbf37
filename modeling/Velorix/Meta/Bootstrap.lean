import Velorix.Meta.Checkpoint

/-! The bootstrap of a view: the cut it starts from, the cut it is activated at, and the
checkpoint that covers them. -/
namespace Velorix.Meta

inductive ViewBootstrapLifecycleV1
  | bootstrapping
  | active
  deriving DecidableEq

structure BeginViewDependencyEdgeV1 where
  edgeId : String
  producerProgramId : String
  producerViewId : String
  producerGeneration : UInt64
  producerPlanHash : String
  inputRelationId : String
  inputRelationVersion : String
  outputStreamId : String
  outputSchemaHash : String
  keyDescriptorHash : String
  deltaCodecIdentity : String
  frontierKind : String
  bootstrapCursor : Option CausalViewCursorV1
  deriving DecidableEq

structure BeginViewBootstrapRequest where
  tenantId : String
  programId : String
  viewId : String
  planHash : String
  viewSpecJson : List UInt8
  relations : List IngestSourceRelationIdentityV1
  viewInputs : List BeginViewDependencyEdgeV1
  expectedGraphRevision : UInt64
  deriving DecidableEq

structure ViewBootstrapControlV1 where
  schemaVersion : UInt32
  tenantId : String
  programId : String
  viewId : String
  bootstrapGeneration : UInt64
  planHash : String
  viewSpecJson : List UInt8
  lifecycle : ViewBootstrapLifecycleV1
  bootstrapCut : IngestSourceCutV1
  activationCut : Option IngestSourceCutV1
  activeCheckpoint : Option StandingRuntimeCheckpointPointer
  viewInputs : List BeginViewDependencyEdgeV1
  deriving DecidableEq

/-- The cursor of an edge, if it is given, is one of the edge's own producer. -/
def BeginViewDependencyEdgeV1.validateCursor (tenantId : String)
    (edge : BeginViewDependencyEdgeV1) : Except MetaStoreError Unit :=
  match edge.bootstrapCursor with
  | none => .ok ()
  | some cursor =>
    match cursor.validate with
    | .error _ => .error (.emptyField "view_inputs.bootstrap_cursor")
    | .ok () =>
      require (cursor.inputEdge = edge.edgeId ∧ cursor.producerTenantId = tenantId ∧
          cursor.producerProgramId = edge.producerProgramId ∧
          cursor.producerViewId = edge.producerViewId ∧
          cursor.producerGeneration = edge.producerGeneration ∧
          cursor.outputStream = edge.outputStreamId)
        (.emptyField "view_inputs.bootstrap_cursor.identity")

def BeginViewDependencyEdgeV1.validateAfter (tenantId : String) (seen : List String)
    (edge : BeginViewDependencyEdgeV1) : Except MetaStoreError (List String) := do
  requireNonEmpty "view_inputs.edge_id" edge.edgeId
  requireNonEmpty "view_inputs.producer_program_id" edge.producerProgramId
  requireNonEmpty "view_inputs.producer_view_id" edge.producerViewId
  requireNonEmpty "view_inputs.producer_plan_hash" edge.producerPlanHash
  requireNonEmpty "view_inputs.input_relation_id" edge.inputRelationId
  requireNonEmpty "view_inputs.input_relation_version" edge.inputRelationVersion
  requireNonEmpty "view_inputs.output_stream_id" edge.outputStreamId
  requireNonEmpty "view_inputs.output_schema_hash" edge.outputSchemaHash
  requireNonEmpty "view_inputs.key_descriptor_hash" edge.keyDescriptorHash
  requireNonEmpty "view_inputs.delta_codec_identity" edge.deltaCodecIdentity
  requireNonEmpty "view_inputs.frontier_kind" edge.frontierKind
  require (edge.producerGeneration ≠ 0)
    (.integerOutOfRange "view_inputs.producer_generation" edge.producerGeneration)
  edge.validateCursor tenantId
  require (!seen.contains edge.edgeId) (.duplicateSourceCutRelation edge.edgeId "")
  return edge.edgeId :: seen

namespace BeginViewBootstrapRequest

def scope (request : BeginViewBootstrapRequest) : Scope :=
  (request.tenantId, request.programId, request.viewId)

def validate (request : BeginViewBootstrapRequest) : Except MetaStoreError Unit := do
  validateStandingRuntimeScope request.scope
  requireNonEmpty "plan_hash" request.planHash
  require (!request.viewSpecJson.isEmpty) (.emptyField "view_spec_json")
  require (!(request.relations.isEmpty && request.viewInputs.isEmpty)) (.emptyField "relations")
  CaptureIngestSourceCutRequest.validate ⟨request.relations⟩
  let _ ← request.viewInputs.foldlM
    (BeginViewDependencyEdgeV1.validateAfter request.tenantId) []

/-- Whether the request asks again for a bootstrap that exists. -/
def matchesControl (request : BeginViewBootstrapRequest) (control : ViewBootstrapControlV1) :
    Bool :=
  request.tenantId == control.tenantId && request.programId == control.programId &&
    request.viewId == control.viewId && request.planHash == control.planHash &&
    request.viewSpecJson == control.viewSpecJson &&
    decide (request.relations =
      control.bootstrapCut.relations.map IngestSourceRelationCutV1.relation) &&
    decide (request.viewInputs = control.viewInputs)

end BeginViewBootstrapRequest

inductive BeginViewBootstrapOutcome
  | created (control : ViewBootstrapControlV1)
  | duplicate (control : ViewBootstrapControlV1)
  | conflict
  deriving DecidableEq

def viewBootstrapControlSchemaVersionV1 : UInt32 := 1

def initialViewBootstrapGeneration : UInt64 := 1

def bootstrapControl (request : BeginViewBootstrapRequest) (bootstrapCut : IngestSourceCutV1) :
    ViewBootstrapControlV1 where
  schemaVersion := viewBootstrapControlSchemaVersionV1
  tenantId := request.tenantId
  programId := request.programId
  viewId := request.viewId
  bootstrapGeneration := initialViewBootstrapGeneration
  planHash := request.planHash
  viewSpecJson := request.viewSpecJson
  lifecycle := .bootstrapping
  bootstrapCut := bootstrapCut
  activationCut := none
  activeCheckpoint := none
  viewInputs := request.viewInputs

/-- What the requests to fix the activation cut and to promote a bootstrap have in common. -/
structure ActivationRequest where
  tenantId : String
  programId : String
  viewId : String
  bootstrapGeneration : UInt64
  planHash : String
  owner : StandingRuntimeOwnerToken
  deriving DecidableEq

namespace ActivationRequest

def scope (request : ActivationRequest) : Scope :=
  (request.tenantId, request.programId, request.viewId)

def validateScope (request : ActivationRequest) : Except MetaStoreError Unit := do
  validateStandingRuntimeScope request.scope
  requireNonEmpty "plan_hash" request.planHash
  require (request.bootstrapGeneration ≠ 0)
    (.integerOutOfRange "bootstrap_generation" request.bootstrapGeneration)

/-- `FixViewBootstrapActivationCutRequest::validate` -/
def validate (request : ActivationRequest) : Except MetaStoreError Unit := do
  request.validateScope
  request.owner.validate

/-- The request is about this control, and its owner is one of the same scope. -/
def concerns (request : ActivationRequest) (control : ViewBootstrapControlV1) : Bool :=
  control.bootstrapGeneration == request.bootstrapGeneration &&
    control.planHash == request.planHash && decide (request.owner.scope = request.scope)

end ActivationRequest

inductive FixViewBootstrapActivationCutOutcome
  | fixed (control : ViewBootstrapControlV1)
  | duplicate (control : ViewBootstrapControlV1)
  | conflict
  deriving DecidableEq

structure PromoteViewBootstrapRequest where
  activation : ActivationRequest
  checkpoint : StandingRuntimeCheckpointPointer
  deriving DecidableEq

def PromoteViewBootstrapRequest.validate (external : External)
    (request : PromoteViewBootstrapRequest) : Except MetaStoreError Unit := do
  request.activation.validate
  request.checkpoint.validate external

inductive PromoteViewBootstrapOutcome
  | promoted (control : ViewBootstrapControlV1)
  | duplicate (control : ViewBootstrapControlV1)
  | conflict
  deriving DecidableEq

def RuntimeCheckpointPartitionCoverageV1.covers (covered : RuntimeCheckpointPartitionCoverageV1)
    (cut : IngestSourcePartitionCutV1) : Bool :=
  covered.streamId == cut.streamId && covered.streamGeneration == cut.streamGeneration &&
    covered.partitionId == cut.partitionId &&
    covered.partitionGeneration == cut.partitionGeneration &&
    covered.coveredFromOffsetInclusive == cut.baseOffsetInclusive &&
    decide (covered.processedOffsetExclusive ≥ cut.committedOffsetExclusive)

def RuntimeCheckpointRelationCoverageV1.covers (covered : RuntimeCheckpointRelationCoverageV1)
    (cut : IngestSourceRelationCutV1) : Bool :=
  covered.relationId == cut.relation.relationId &&
    covered.relationVersion == cut.relation.relationVersion &&
    covered.relationGeneration == cut.relation.relationGeneration &&
    covered.schemaFingerprint == cut.relation.schemaFingerprint &&
    cut.partitions.all fun partition => covered.partitions.any fun found => found.covers partition

def checkpointCoversSourceCut (checkpoint : StandingRuntimeCheckpointPointer)
    (cut : IngestSourceCutV1) : Bool :=
  checkpoint.inputCoverage.any fun coverage =>
    cut.relations.all fun relation => coverage.relations.any fun found => found.covers relation

/-- The progress of an input is that of the edge of the control. -/
def PublishedInputBootstrapCursorV1.onEdge (tenantId : String) (edge : BeginViewDependencyEdgeV1)
    (input : PublishedInputBootstrapCursorV1) : Bool :=
  input.inputEdge == edge.edgeId &&
    edge.bootstrapCursor.all (fun cursor => decide (input.capturedCursor = cursor)) &&
    input.capturedCursor.producerTenantId == tenantId &&
    input.capturedCursor.producerProgramId == edge.producerProgramId &&
    input.capturedCursor.producerViewId == edge.producerViewId &&
    input.capturedCursor.producerGeneration == edge.producerGeneration &&
    input.capturedCursor.outputStream == edge.outputStreamId &&
    input.outputSchemaHash == edge.outputSchemaHash

def PublishedInputBootstrapProgressV1.matchesControl
    (progress : PublishedInputBootstrapProgressV1) (control : ViewBootstrapControlV1) : Bool :=
  progress.validate.isOk && progress.bootstrapGeneration == control.bootstrapGeneration &&
    progress.planHash == control.planHash &&
    progress.inputs.length == control.viewInputs.length &&
    control.viewInputs.all fun edge =>
      progress.inputs.any fun input => input.onEdge control.tenantId edge

end Velorix.Meta
